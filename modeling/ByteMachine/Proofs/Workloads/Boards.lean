/-
Boards with a measured program. A source text is assembled and loaded, and the board waits for the program to be run. If
the program always comes to a stop, and leaves the registers with what it needs to be run again, the work of running it
returns however often it is done.

- `Yields`: what plain lines are assembled to.
- `exists_boardFor?`: the board that holds it.
- `Workload.returns_of_ends`: running it is work that returns.
-/
import Mathlib.Tactic
import ByteMachine.Proofs.Command.Measurements
import ByteMachine.Proofs.Forecast.Programs
import ByteMachine.Proofs.Reading.Plain

namespace ByteMachine

/-! ## Devices -/

theorem NoDevice.mute : Device.Mute fun _ : NoDevice => True :=
  ⟨fun _ _ => rfl, fun _ _ => trivial, fun _ _ _ => trivial⟩

/-- a screen is mute as long as no button is down -/
theorem Screen.mute : Device.Mute fun screen : Screen => screen.buttons = Buttons.released := by
  refine ⟨fun {screen} hreleased offset => ?_, fun {screen} hreleased offset => ?_,
    fun {screen} hreleased offset value => ?_⟩
  · simp only [Device.read]
    cases Button.all.find? (·.offset = offset) with
    | none => rfl
    | some button =>
      rw [hreleased]
      cases button <;> rfl
  · simp only [Device.read]
    cases Button.all.find? (·.offset = offset) <;> exact hreleased
  · simp only [Device.write]
    split_ifs <;> exact hreleased

namespace Command.Benchmark

open Workloads

/-! ## Boards -/

/-- the usual mount address is not in the way of the entry point -/
theorem defaultMount_isBeyond : 2 ≤ Assembly.defaultMount.toNat := by decide

def Yields (lines : List String) (program : Program) : Prop :=
  (assemblePlain? lines Assembly.defaultMount).map (fun assembly => (assembly.mount, assembly.bytes)) =
    some (program.start, program.image)

instance (lines : List String) (program : Program) : Decidable (Yields lines program) :=
  inferInstanceAs (Decidable (_ = _))

variable {σ : Type} {lines : List String} {program : Program} {mute : σ → Prop} {P : Registers → Prop}

theorem exists_assembly (h : Yields lines program) :
    ∃ assembly, assemble (text lines) Assembly.defaultMount = .ok assembly ∧ assembly.mount = program.start ∧
      assembly.bytes = program.image := by
  obtain ⟨assembly, hplain, hprogram⟩ := Option.map_eq_some_iff.1 h
  obtain ⟨hmount, hbytes⟩ := Prod.mk.inj hprogram
  exact ⟨assembly, assemble_of_plain hplain, hmount, hbytes⟩

/-- a source text that yields a program is loaded, and the program waits to be run -/
theorem exists_boardFor? (h : Yields lines program) (hP : P Registers.initial) {device : σ} (hdevice : mute device) :
    ∃ board, boardFor? (text lines) device = some board ∧ program.Rests mute P board := by
  obtain ⟨assembly, hassemble, hmount, hbytes⟩ := exists_assembly h
  have hfits : program.start.toNat + program.image.length ≤ Memory.size := program.below.trans (by decide)
  obtain ⟨loaded, hload⟩ := Machine.initial.exists_load hfits
  refine ⟨⟨loaded, device⟩, ?_, Program.rests_of_load hload rfl hP hdevice⟩
  rw [← hmount, ← hbytes] at hload
  simp only [boardFor?, hassemble, Except.toOption, Option.bind_eq_bind, Option.bind_some, hload]
  rfl

/-! ## Work -/

variable [Device σ] (hmute : Device.Mute mute)

include hmute

theorem returns_running (hends : program.Ends P) {board : Board σ} (h : program.Rests mute P board) :
    Work.Returns running board := by
  refine Work.returns_of_kept (fun before hrests => ?_) h
  obtain ⟨after, hrun, hafter⟩ := hends.run hmute hrests
  refine ⟨some (after.machine.cycles.toNat - before.machine.cycles.toNat), after, ?_, hafter⟩
  simp only [running, hrun]

/-- **Running a program is work that returns,** if its source text yields it and it always comes to a stop. -/
theorem Workload.returns_of_ends (h : Yields lines program) (hends : program.Ends P) (hP : P Registers.initial)
    {device : σ} (hdevice : mute device) (title : String) :
    Workload.Returns ⟨title, _, running, boardFor? (text lines) device⟩ := by
  obtain ⟨board, hboard, hrests⟩ := exists_boardFor? h hP hdevice
  exact ⟨board, hboard, returns_running hmute hends hrests⟩

omit [Device σ] hmute in
/-- **Assembling a source text is work that returns,** if the text yields a program. -/
theorem Workload.returns_of_yields (h : Yields lines program) (title : String) :
    Workload.Returns ⟨title, _, assembling, some (text lines, 0)⟩ := by
  obtain ⟨assembly, hassemble, -⟩ := exists_assembly h
  have hkept : ∀ before : String × Nat, before.1 = text lines →
      ∃ cycles next, assembling before = some (cycles, next) ∧ next.1 = text lines := by
    rintro ⟨source, size⟩ rfl
    refine ⟨none, (text lines, size + assembly.bytes.length), ?_, rfl⟩
    simp only [assembling, hassemble, Except.toOption]
    rfl
  exact ⟨_, rfl, Work.returns_of_kept hkept rfl⟩

end Command.Benchmark

end ByteMachine
