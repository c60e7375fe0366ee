/-
What the arguments of the assembler command ask for. They are a row of settings, each spelled by a flag or by an option
and its value, and of two settings of one kind the later one counts.

- `Setting.Spells`, `Gives`: the arguments for one setting, and those for a row of settings.
- `read_eq_ok_iff`: the arguments that can be read are those that give settings.
- `foldl_apply`: what a row of settings comes to.
-/
import Mathlib.Tactic
import ByteMachine.Command.Assembler
import ByteMachine.Proofs.Attempt

namespace ByteMachine.Command.Assembler

inductive Setting where
  | output (path : String)
  | mount (address : Word)
  | listing
  | symbols
  deriving DecidableEq, Repr

/-- the arguments that ask for a setting: a flag, or an option and its value -/
inductive Setting.Spells : Setting → List String → Prop
  | output {option path : String} : option ∈ ["-o", "--output"] → Spells (.output path) [option, path]
  | mount {option value : String} {address : Word} :
      option ∈ ["-m", "--mount"] → mountOf? value = some address → Spells (.mount address) [option, value]
  | listing {flag : String} : flag ∈ ["-l", "--listing"] → Spells .listing [flag]
  | symbols {flag : String} : flag ∈ ["-s", "--symbols"] → Spells .symbols [flag]

/-- the arguments ask for the settings, one after the other -/
inductive Gives : List String → List Setting → Prop
  | nil : Gives [] []
  | cons {setting : Setting} {words rest : List String} {settings : List Setting} :
      setting.Spells words → Gives rest settings → Gives (words ++ rest) (setting :: settings)

def Setting.apply (options : Options) : Setting → Options
  | output path => { options with output := some path }
  | mount address => { options with mount := address }
  | listing => { options with listing := true }
  | symbols => { options with symbols := true }

def outputs (settings : List Setting) : List String :=
  settings.filterMap fun
    | .output path => some path
    | _ => none

def mounts (settings : List Setting) : List Word :=
  settings.filterMap fun
    | .mount address => some address
    | _ => none

def mountOf (settings : List Setting) : Word := (mounts settings).getLast?.getD Assembly.defaultMount

variable {options next result : Options} {argument value option path : String} {arguments rest : List String}
  {setting : Setting} {settings : List Setting}

/-! ## One setting -/

theorem spells_of_flag? (h : optionTable.flag? options argument = some next) :
    ∃ setting : Setting, setting.Spells [argument] ∧ setting.apply options = next := by
  simp only [optionTable] at h
  split at h
  · exact ⟨.listing, .listing (by simp), Option.some.inj h⟩
  · exact ⟨.listing, .listing (by simp), Option.some.inj h⟩
  · exact ⟨.symbols, .symbols (by simp), Option.some.inj h⟩
  · exact ⟨.symbols, .symbols (by simp), Option.some.inj h⟩
  · cases h

theorem mount_eq_ok_iff :
    (match mountOf? value with
      | some mount => Except.ok { options with mount }
      | none => .error (UsageError.badMount value)) = .ok next ↔
      ∃ address, mountOf? value = some address ∧ (Setting.mount address).apply options = next := by
  cases mountOf? value with
  | none => simp
  | some address => simp [Setting.apply]

theorem spells_of_value? {take : String → Except UsageError Options}
    (h : optionTable.value? options option = some take) (hnext : take value = .ok next) :
    ∃ setting : Setting, setting.Spells [option, value] ∧ setting.apply options = next := by
  simp only [optionTable] at h
  split at h
  · cases h
    exact ⟨.output value, .output (by simp), Except.ok.inj hnext⟩
  · cases h
    exact ⟨.output value, .output (by simp), Except.ok.inj hnext⟩
  · cases h
    obtain ⟨address, hmount, happlied⟩ := mount_eq_ok_iff.1 hnext
    exact ⟨.mount address, .mount (by simp) hmount, happlied⟩
  · cases h
    obtain ⟨address, hmount, happlied⟩ := mount_eq_ok_iff.1 hnext
    exact ⟨.mount address, .mount (by simp) hmount, happlied⟩
  · cases h

/-! ## A row of settings -/

/-- the arguments of a setting are read first, -/
theorem read_of_spells {words : List String} (h : setting.Spells words) :
    optionTable.read options (words ++ rest) = optionTable.read (setting.apply options) rest := by
  cases h with
  | output hoption => fin_cases hoption <;> rfl
  | @mount option value address hoption hmount =>
    have htaken := mount_eq_ok_iff.2 ⟨address, hmount, @rfl _ ((Setting.mount address).apply options)⟩
    fin_cases hoption <;> exact congrArg (· >>= fun options => optionTable.read options rest) htaken
  | listing hflag => fin_cases hflag <;> rfl
  | symbols hflag => fin_cases hflag <;> rfl

/-- and **the arguments that can be read** are those that give settings, each of which changes the options before it. -/
theorem read_eq_ok_iff :
    optionTable.read options arguments = .ok result ↔
      ∃ settings, Gives arguments settings ∧ settings.foldl Setting.apply options = result := by
  constructor
  · intro h
    fun_induction OptionTable.read optionTable options arguments with
    | case1 options => exact ⟨[], .nil, Except.ok.inj h⟩
    | case2 options flag rest next hflag ih =>
      obtain ⟨setting, hspells, rfl⟩ := spells_of_flag? hflag
      obtain ⟨settings, hgives, hresult⟩ := ih h
      exact ⟨setting :: settings, .cons hspells hgives, hresult⟩
    | case3 => cases h
    | case4 => cases h
    | case5 options option hflag take value rest htake ih =>
      obtain ⟨next, hnext, hread⟩ := Attempt.bind_eq_ok_iff.1 h
      obtain ⟨setting, hspells, rfl⟩ := spells_of_value? htake hnext
      obtain ⟨settings, hgives, hresult⟩ := ih _ hread
      exact ⟨setting :: settings, .cons hspells hgives, hresult⟩
  · rintro ⟨settings, hgives, rfl⟩
    induction hgives generalizing options with
    | nil => rfl
    | cons hspells _ ih => rw [read_of_spells hspells, ih, List.foldl_cons]

/-- of the output paths among some settings, the last one counts; the same of the mounts -/
theorem foldl_apply :
    (settings.foldl Setting.apply options).output = (outputs settings).getLast?.or options.output ∧
      (settings.foldl Setting.apply options).mount = (mounts settings).getLast?.getD options.mount := by
  induction settings generalizing options with
  | nil => exact ⟨rfl, rfl⟩
  | cons setting settings ih =>
    rw [List.foldl_cons, ih.1, ih.2]
    cases setting <;> simp [Setting.apply, outputs, mounts, List.getLast?_cons]

theorem foldl_apply_default :
    (settings.foldl Setting.apply Options.default).output = (outputs settings).getLast? ∧
      (settings.foldl Setting.apply Options.default).mount = mountOf settings := by
  obtain ⟨houtput, hmount⟩ := @foldl_apply Options.default settings
  exact ⟨houtput.trans Option.or_none, hmount⟩

/-- an output path is asked for by its option -/
theorem Gives.mem_of_output (h : Gives arguments settings) (hpath : path ∈ outputs settings) :
    "-o" ∈ arguments ∨ "--output" ∈ arguments := by
  induction h with
  | nil => cases hpath
  | @cons setting words rest settings hspells _ ih =>
    cases hspells with
    | output hoption => fin_cases hoption <;> simp
    | mount => exact (ih hpath).imp (List.mem_append_right _) (List.mem_append_right _)
    | listing => exact (ih hpath).imp (List.mem_append_right _) (List.mem_append_right _)
    | symbols => exact (ih hpath).imp (List.mem_append_right _) (List.mem_append_right _)

end ByteMachine.Command.Assembler
