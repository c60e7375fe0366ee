/-
What a run counts. Every opcode that a step decodes is counted under its category, before the instruction is executed,
and a run takes a step for each part of its budget. So the counts tell how many steps a run took, but for a last step that
fails before there is an opcode.

- `Board.profile_step`, `Board.profile_stepsWithin`: the counts after one step, and after some.
- `Board.exists_front_of_endsAfter`: all steps but the last one decode an opcode, which is not that of `hlt`.
- `Board.run_accounts`: the counts after every run, by the way it ends.
-/
import Mathlib.Tactic
import ByteMachine.Proofs.Execution.Changes
import ByteMachine.Proofs.Execution.Faults
import ByteMachine.Proofs.Execution.Profiles
import ByteMachine.Proofs.Running.Shadow

namespace ByteMachine

variable {σ : Type}

def Opcode.amounts (ops : List Opcode) : List (Category × UInt64) := ops.map fun op => (op.category, 1)

namespace Opcode

theorem amounts_append (first second : List Opcode) : amounts (first ++ second) = amounts first ++ amounts second :=
  List.map_append

theorem sum_amounts (ops : List Opcode) : ((amounts ops).map (·.2.toNat)).sum = ops.length := by
  induction ops with
  | nil => rfl
  | cons op ops ih =>
    rw [amounts, List.map_cons, List.map_cons, List.sum_cons, ← amounts, ih, List.length_cons]
    exact Nat.add_comm 1 _

theorem amountFor_amounts (category : Category) (ops : List Opcode) :
    Profile.amountFor category (amounts ops) = ops.countP (·.category = category) := by
  induction ops with
  | nil => rfl
  | cons op ops ih =>
    rw [amounts, List.map_cons, Profile.amountFor, ← amounts, ih, List.countP_cons, Nat.add_comm]
    simp [eq_comm]

theorem category_eq_halt_iff (op : Opcode) : op.category = .halt ↔ op = .hlt := by
  cases op <;> decide

end Opcode

namespace Board

variable [Device σ]

/-! ## One step -/

/-- the opcode that a step decodes, if there is one at the instruction pointer -/
def decoded? (board : Board σ) : Option Opcode := board.awake.opcodeByte?.bind Opcode.ofCode?

omit [Device σ] in
/-- the fault of a step is that of its opcode: the byte is not in the table, or would be fetched after the last address -/
def LacksOpcode (board : Board σ) (fault : Fault) : Prop :=
  (∃ code, fault.cause = .invalidOpcode code) ∨ board.awake.place = Memory.size

section Step

variable {board : Board σ} {i : Instruction}

omit [Device σ] in
theorem profile_awake (board : Board σ) : board.awake.machine.profile = board.machine.profile := by
  cases h : board.machine.stopped <;> simp [awake, Machine.awake, h]

omit [Device σ] in
theorem profile_conclude (start : Word) (ends : EStateM.Result Fault.Cause (Board σ) Unit) :
    (conclude start ends).2.machine.profile = (Exec.last ends).machine.profile :=
  @conclude_same _ _ (·.machine.profile) (fun _ _ _ => rfl) start ends

theorem decoded?_of_some (hnext : board.awake.nextInstruction? = some i) : board.decoded? = some i.opcode := by
  rw [decoded?, ← head?_fetches, fetches_of_some hnext]
  exact i.opcode.ofCode?_code

/-- a step counts the opcode that it decodes, whatever comes of the instruction -/
theorem profile_step (board : Board σ) :
    board.step.2.machine.profile = board.machine.profile.addAll (Opcode.amounts board.decoded?.toList) := by
  rw [← board.profile_awake]
  cases hnext : board.awake.nextInstruction? with
  | some i =>
    rw [step_eq_of_some hnext, profile_conclude, Exec.profile_execute, decoded?_of_some hnext]
    rfl
  | none =>
    obtain ⟨cause, after, hends, hstep⟩ := step_of_none hnext
    rw [hstep, decoded?, ← head?_fetches]
    cases hends with
    | unknown hfetched hunknown =>
      rw [hfetched, List.head?_cons, Option.bind_some, hunknown]
      rfl
    | @cut op operands hfetched _ _ =>
      rw [hfetched, List.head?_cons, Option.bind_some, Opcode.ofCode?_code]
      rfl
    | past hfetched _ =>
      rw [hfetched]
      rfl

/-- a step that pauses decodes an opcode, and not that of `hlt`, -/
theorem exists_decoded_of_paused (h : board.step.1 = .ok .paused) : ∃ op, board.decoded? = some op ∧ op ≠ .hlt := by
  obtain ⟨i, hnext⟩ := exists_nextInstruction_of_ok h
  refine ⟨i.opcode, decoded?_of_some hnext, ?_⟩
  intro hop
  cases i with
  | hlt =>
    rw [step_eq_of_some hnext] at h
    cases h
  | _ => cases hop

/-- one that stops the machine decodes just that, -/
theorem decoded_of_halted (hsettled : board.machine.Settled) (h : board.step.1 = .ok .halted) :
    board.decoded? = some .hlt := by
  obtain ⟨i, hnext⟩ := exists_nextInstruction_of_ok h
  by_cases hhlt : i = .hlt
  · subst hhlt
    exact decoded?_of_some hnext
  · -- any other instruction leaves the machine settled, and then the step pauses
    have hfetched := Exec.keeps_fetchInstruction board.awake hsettled.awake
    rw [Exec.run_fetchInstruction_of_some hnext] at hfetched
    cases hfetched with
    | ok hreached =>
      have hexecuted := Exec.keeps_execute hhlt _ hreached
      rw [step_eq_of_some hnext] at h
      generalize (execute i).run (board.awake.reached i) = ends at h hexecuted
      cases hexecuted with
      | error _ => cases h
      | ok hafter =>
        rw [conclude, if_neg (by simp [hafter.halting])] at h
        cases h

/-- and one that fails decodes an opcode unless it fails over that -/
theorem decoded?_eq_none_iff {fault : Fault} (h : board.step.1 = .error fault) :
    board.decoded? = none ↔ board.LacksOpcode fault := by
  have hplace := board.awake.place_add_room
  obtain ⟨ip, cause⟩ := fault
  rw [decoded?, Option.bind_eq_none_iff, LacksOpcode]
  constructor
  · intro hnone
    cases hbyte : board.awake.opcodeByte? with
    | none =>
      rw [opcodeByte?, ite_eq_right_iff] at hbyte
      refine .inr ?_
      by_contra hne
      cases hbyte (by omega)
    | some code =>
      have hinvalid := (step_eq_invalidOpcode_iff board _ code).2 ⟨rfl, hbyte, hnone code hbyte⟩
      rw [h] at hinvalid
      cases hinvalid
      exact .inl ⟨code, rfl⟩
  · rintro (⟨code, rfl⟩ | hend)
    · obtain ⟨-, hbyte, hunknown⟩ := (step_eq_invalidOpcode_iff board _ code).1 h
      intro other hother
      obtain rfl := Option.some.inj (hbyte.symm.trans hother)
      exact hunknown
    · rw [opcodeByte?, if_neg (by omega)]
      intro code hcode
      cases hcode

end Step

/-! ## Steps -/

/-- the opcodes that are decoded in some steps, or in fewer if one does not pause -/
def decodedWithin : (limit : Nat) → Board σ → List Opcode
  | 0, _ => []
  | limit + 1, board =>
    board.decoded?.toList ++
      match board.step with
      | (.ok .paused, next) => decodedWithin limit next
      | _ => []

section Steps

variable {board next : Board σ} {limit : Nat}

theorem decodedWithin_of_paused (h : board.step = (.ok .paused, next)) (limit : Nat) :
    decodedWithin (limit + 1) board = board.decoded?.toList ++ decodedWithin limit next := by
  rw [decodedWithin, h]

theorem decodedWithin_of_ended (h : board.step.1 ≠ .ok .paused) (limit : Nat) :
    decodedWithin (limit + 1) board = board.decoded?.toList := by
  rw [decodedWithin]
  rcases hstep : board.step with ⟨_ | _ | _, next⟩
  · exact List.append_nil _
  · exact List.append_nil _
  · rw [hstep] at h
    exact absurd rfl h

theorem decodedWithin_awake (limit : Nat) (board : Board σ) :
    decodedWithin limit board.awake = decodedWithin limit board := by
  cases limit with
  | zero => rfl
  | succ limit => rw [decodedWithin, decodedWithin, step_awake, decoded?, decoded?, awake_awake]

/-- **The counts after some steps.** By induction on the steps: each counts what it decodes. -/
theorem profile_stepsWithin (limit : Nat) (board : Board σ) :
    (stepsWithin step limit board).2.machine.profile =
      board.machine.profile.addAll (Opcode.amounts (decodedWithin limit board)) := by
  induction limit generalizing board with
  | zero => rfl
  | succ limit ih =>
    have hstep := board.profile_step
    rcases paused_or_ended step board with ⟨next, hpaused⟩ | hended
    · rw [hpaused] at hstep
      rw [stepsWithin_succ_of_paused hpaused, ih, decodedWithin_of_paused hpaused, Opcode.amounts_append,
        Profile.addAll_append, ← hstep]
    · rw [stepsWithin_succ_of_ended hended, decodedWithin_of_ended hended, hstep]

/-- all steps that pause decode an opcode -/
theorem length_decodedWithin (h : (stepsWithin step limit board).1 = .ok .paused) :
    (decodedWithin limit board).length = limit := by
  induction limit generalizing board with
  | zero => rfl
  | succ limit ih =>
    rcases paused_or_ended step board with ⟨next, hpaused⟩ | hended
    · obtain ⟨op, hop, -⟩ := exists_decoded_of_paused (congrArg Prod.fst hpaused)
      rw [stepsWithin_succ_of_paused hpaused] at h
      rw [decodedWithin_of_paused hpaused, hop, List.length_append, ih h]
      exact Nat.add_comm 1 limit
    · rw [stepsWithin_succ_of_ended hended] at h
      exact absurd h hended

/-- what is decoded before the last step, and by it; by induction on the steps that pause -/
theorem exists_front_of_endsAfter {count : Nat} {outcome : Except Fault Exit × Board σ}
    (hends : EndsAfter step count board outcome) (hlimit : count ≤ limit) :
    ∃ front, decodedWithin limit board = front ++ (board.after front.length).decoded?.toList ∧
      front.length + 1 = count ∧ Opcode.hlt ∉ front ∧ outcome = (board.after front.length).step ∧
      (board.machine.Settled → (board.after front.length).machine.Settled) := by
  induction hends generalizing limit with
  | @last board hended =>
    obtain ⟨limit, rfl⟩ : ∃ n, limit = n + 1 := ⟨limit - 1, by omega⟩
    exact ⟨[], decodedWithin_of_ended hended limit, rfl, List.not_mem_nil, rfl, id⟩
  | @next count board next outcome hpaused _ ih =>
    obtain ⟨limit, rfl⟩ : ∃ n, limit = n + 1 := ⟨limit - 1, by omega⟩
    obtain ⟨front, hfront, hlength, hhlt, houtcome, hsettles⟩ := @ih limit (by omega)
    obtain ⟨op, hop, hne⟩ := exists_decoded_of_paused (congrArg Prod.fst hpaused)
    have hafter : board.after (op :: front).length = next.after front.length := by
      rw [List.length_cons, after, hpaused]
    refine ⟨op :: front, ?_, congrArg (· + 1) hlength, ?_, ?_, ?_⟩
    · rw [decodedWithin_of_paused hpaused, hop, hfront, hafter]
      rfl
    · rw [List.mem_cons, not_or]
      exact ⟨hne.symm, hhlt⟩
    · rw [houtcome, hafter]
    · intro hsettled
      have hnext := (ended_step hsettled).settled
      rw [hpaused] at hnext
      rw [hafter]
      exact hsettles hnext

end Steps

/-! ## Runs -/

/-- a number of steps that a run does not go beyond: its budget or, if it has none, one that the last step comes within -/
def TakesAtMost (board : Board σ) (limit : Nat) : (budget : Option Nat) → Prop
  | some budget => limit = budget
  | none => ∃ count outcome, EndsAfter step count board outcome ∧ count ≤ limit

/-- what a run counts, with the opcodes that are decoded in it -/
structure Accounts (board : Board σ) (budget : Option Nat) (decoded : List Opcode) : Prop where
  /-- the counts add up, before the run and after it -/
  before : board.machine.cycles.toNat = board.machine.profile.sum
  after : (board.run budget).2.machine.cycles.toNat = (board.run budget).2.machine.profile.sum
  /-- every opcode is counted, under its category -/
  cycles : (board.run budget).2.machine.cycles.toNat = board.machine.cycles.toNat + decoded.length
  categories : ∀ category, ((board.run budget).2.machine.profile.get category).toNat =
    (board.machine.profile.get category).toNat + decoded.countP (·.category = category)
  /-- a run that pauses counts its budget, -/
  paused : (board.run budget).1 = .ok .paused → budget = some decoded.length
  /-- one that stops the machine no more than that, and one `hlt`, -/
  halted : (board.run budget).1 = .ok .halted →
    1 ≤ decoded.length ∧ (∀ most, budget = some most → decoded.length ≤ most) ∧
      ((board.run budget).2.machine.profile.get .halt).toNat = (board.machine.profile.get .halt).toNat + 1
  /-- and one that fails all its steps, but for the last one if that lacks an opcode -/
  faulted : ∀ fault, (board.run budget).1 = .error fault →
    ∃ count, EndsAfter step (count + 1) board (board.run budget) ∧
      ((board.after count).LacksOpcode fault → decoded.length = count) ∧
      (¬ (board.after count).LacksOpcode fault → decoded.length = count + 1)

section Runs

variable {board : Board σ} {budget : Option Nat} {limit : Nat}

theorem run_eq_stepsWithin (h : board.TakesAtMost limit budget) :
    board.run budget = stepsWithin step limit board.awake := by
  cases budget with
  | some budget => rw [show limit = budget from h, run_some]
  | none =>
    obtain ⟨count, outcome, hends, hcount⟩ := h
    have hawake := endsAfter_awake_iff.2 hends
    rw [run_none, hawake.stepsToEnd_eq, hawake.stepsWithin_eq hcount]

theorem profile_run (h : board.TakesAtMost limit budget) :
    (board.run budget).2.machine.profile =
      board.machine.profile.addAll (Opcode.amounts (decodedWithin limit board)) := by
  rw [run_eq_stepsWithin h, profile_stepsWithin, profile_awake, decodedWithin_awake]

/-- a run without a budget that comes to an end does not pause -/
theorem budget_of_paused (h : board.TakesAtMost limit budget) (hpaused : (board.run budget).1 = .ok .paused) :
    budget = some limit := by
  cases budget with
  | some budget => exact congrArg some h.symm
  | none =>
    obtain ⟨count, outcome, hends, -⟩ := h
    have hlast := (endsAfter_awake_iff.2 hends).stepsToEnd_eq
    rw [run_none, hlast] at hpaused
    exact absurd hpaused hends.ne_paused

/-- a run that does not pause has a last step -/
theorem exists_front_of_run (h : board.TakesAtMost limit budget) (hended : (board.run budget).1 ≠ .ok .paused) :
    ∃ front, EndsAfter step (front.length + 1) board (board.run budget) ∧ front.length + 1 ≤ limit ∧
      decodedWithin limit board = front ++ (board.after front.length).decoded?.toList ∧ Opcode.hlt ∉ front ∧
      board.run budget = (board.after front.length).step ∧
      (board.machine.Settled → (board.after front.length).machine.Settled) := by
  have hrun := run_eq_stepsWithin h
  rw [hrun] at hended
  obtain ⟨count, hcount, hends⟩ := exists_endsAfter_of_ended hended
  rw [← hrun, endsAfter_awake_iff] at hends
  obtain ⟨front, hfront, rfl, hrest⟩ := exists_front_of_endsAfter hends hcount
  exact ⟨front, hends, hcount, hfront, hrest⟩

/-- a run that stops the machine decodes one `hlt`, and that last -/
theorem decoded_of_run_halted (hsettled : board.machine.Settled) (h : board.TakesAtMost limit budget)
    (hhalted : (board.run budget).1 = .ok .halted) :
    ∃ front, decodedWithin limit board = front ++ [.hlt] ∧ front.length + 1 ≤ limit ∧ Opcode.hlt ∉ front := by
  obtain ⟨front, -, hlimit, hfront, hhlt, houtcome, hsettles⟩ := exists_front_of_run h (by rw [hhalted]; nofun)
  rw [houtcome] at hhalted
  rw [decoded_of_halted (hsettles hsettled) hhalted] at hfront
  exact ⟨front, hfront, hlimit, hhlt⟩

end Runs

/-- **A run accounts for its steps.** The machine comes of calls, and all that is counted before the run and in it is a
sixty-four-bit number. Then the count of all instructions is raised by the number of opcodes that the run decodes, and so
is that of each category: by the budget if the run pauses, by no more than that if it stops the machine, and by the number
of its steps if it fails, without the last step if that lacks an opcode. -/
theorem run_accounts (calls : List Call) (board : Board σ) (budget : Option Nat) (limit : Nat)
    (hcalls : Machine.After calls board.machine) (hlimit : board.TakesAtMost limit budget)
    (hcount : board.machine.profile.sum + (decodedWithin limit board).length < 0x10000000000000000) :
    board.Accounts budget (decodedWithin limit board) := by
  have hprofile := profile_run hlimit
  have hsum : (board.run budget).2.machine.profile.sum =
      board.machine.profile.sum + (decodedWithin limit board).length := by
    rw [hprofile, Profile.sum_addAll (by rwa [Opcode.sum_amounts]), Opcode.sum_amounts]
  have hbefore : board.machine.cycles.toNat = board.machine.profile.sum := by
    rw [Machine.cycles, Profile.toNat_total]
    omega
  have hafter : (board.run budget).2.machine.cycles.toNat = (board.run budget).2.machine.profile.sum := by
    rw [Machine.cycles, Profile.toNat_total]
    omega
  have hcategories : ∀ category, ((board.run budget).2.machine.profile.get category).toNat =
      (board.machine.profile.get category).toNat + (decodedWithin limit board).countP (·.category = category) := by
    intro category
    have hle := board.machine.profile.get_le_sum category
    have hpart := List.countP_le_length (p := fun op : Opcode => op.category = category) (l := decodedWithin limit board)
    rw [hprofile, Profile.toNat_get_addAll, Opcode.amountFor_amounts]
    omega
  refine ⟨hbefore, hafter, by omega, hcategories, ?_, ?_, ?_⟩
  · intro hpaused
    have hbudget := budget_of_paused hlimit hpaused
    rw [run_eq_stepsWithin hlimit] at hpaused
    rw [hbudget, ← decodedWithin_awake, length_decodedWithin hpaused]
  · intro hhalted
    obtain ⟨front, hfront, hlast, hhlt⟩ := decoded_of_run_halted hcalls.settled.1 hlimit hhalted
    have hone : (decodedWithin limit board).countP (·.category = .halt) = 1 := by
      rw [hfront, List.countP_append, List.countP_eq_zero.2]
      · rfl
      · intro op hop
        rw [decide_eq_true_iff, Opcode.category_eq_halt_iff]
        rintro rfl
        exact hhlt hop
    refine ⟨?_, ?_, ?_⟩
    · rw [hfront, List.length_append]
      exact Nat.le_add_left 1 _
    · rintro most rfl
      rw [hfront, List.length_append]
      exact hlast.trans_eq hlimit
    · rw [hcategories, hone]
  · intro fault hfault
    obtain ⟨front, hends, -, hfront, -, houtcome, -⟩ := exists_front_of_run hlimit (by rw [hfault]; nofun)
    rw [houtcome] at hfault
    have hnone := decoded?_eq_none_iff hfault
    refine ⟨front.length, hends, fun hlacks => ?_, fun hhas => ?_⟩
    · rw [hfront, hnone.2 hlacks]
      exact congrArg List.length (List.append_nil front)
    · obtain ⟨op, hop⟩ := Option.ne_none_iff_exists'.1 fun h => hhas (hnone.1 h)
      rw [hfront, hop, List.length_append]
      rfl

/-- a machine with a program at address 0x10 that increments `a` and stops -/
def incrementing : Board NoDevice :=
  ⟨{ Machine.initial with
      memory := (Memory.zero.writeAll 0x10 [0x15, 0x00, 0xff]).writeAll 0 [0x10, 0x00] }, ⟨⟩⟩

theorem incrementing_accounts :
    (incrementing.run none).1 = .ok .halted ∧
      (incrementing.run none).2.machine.cycles.toNat = 2 ∧
      ((incrementing.run none).2.machine.profile.get .arithmetic).toNat = 1 ∧
      ((incrementing.run none).2.machine.profile.get .halt).toNat = 1 := by
  have hload : (Machine.loadProgram 0x10 [0x15, 0x00, 0xff]).run Machine.initial = .ok () incrementing.machine :=
    Machine.run_loadProgram_eq_ok_iff.2 ⟨by decide, rfl⟩
  have hfirst : (step incrementing).1 = .ok .paused := by decide +kernel
  have hsecond : (step (step incrementing).2).1 = .ok .halted := by decide +kernel
  have hdecoded : decodedWithin 2 incrementing = [.inc, .hlt] := by decide +kernel
  have hpaused : step incrementing = (.ok .paused, (step incrementing).2) := Prod.ext hfirst rfl
  generalize (step incrementing).2 = next at hpaused hsecond
  have hends : EndsAfter step 2 incrementing (step next) := .next hpaused (.last (by rw [hsecond]; decide))
  have hsum : incrementing.machine.profile.sum = 0 := by decide +kernel
  have haccounts := run_accounts [.load, .create] incrementing none 2 (.load .create hload)
    ⟨2, _, hends, Nat.le_refl 2⟩ (by rw [hsum, hdecoded]; decide)
  have hrun : incrementing.run none = step next := by
    rw [run_none, (endsAfter_awake_iff.2 hends).stepsToEnd_eq]
  have hhalted : (incrementing.run none).1 = .ok .halted := by rw [hrun, hsecond]
  have hcycles := haccounts.cycles
  have harithmetic := haccounts.categories .arithmetic
  rw [hdecoded] at hcycles harithmetic
  rw [haccounts.before, hsum] at hcycles
  exact ⟨hhalted, hcycles, harithmetic, (haccounts.halted hhalted).2.2⟩

end Board

end ByteMachine
