/-
What no instruction breaks. The mark of the address after the last one stands only while the instruction pointer is at
address 0, and no instruction but the one that stops the machine sets the mark of a machine about to stop.

- `Exec.Keeps`: a computation that keeps a property of the machine, whether it ends in a fault or not.
- `Exec.keeps_execute`, `Exec.cycle_settles`: the two marks, for every instruction.
-/
import Mathlib.Tactic
import ByteMachine.Proofs.Execution.Primitives

namespace ByteMachine

variable {σ : Type}

/-! ## The mark of the last address -/

namespace Registers

/-- the mark stands only where the instruction pointer has wrapped -/
def Consistent (rs : Registers) : Prop := rs.pastEnd = true → rs.ip = 0

variable {rs : Registers}

theorem consistent_initial : initial.Consistent := fun _ => rfl

/-- every write to the instruction pointer clears the mark -/
theorem consistent_jump (rs : Registers) (target : Word) : (rs.jump target).Consistent := nofun

theorem Consistent.write (h : rs.Consistent) (r : Register) (value : Byte) : (rs.write r value).Consistent := by
  cases r with
  | ipl => exact consistent_jump _ _
  | iph => exact consistent_jump _ _
  | _ => exact h

theorem Consistent.set (h : rs.Consistent) (i value : Byte) : (rs.set i value).Consistent := by
  unfold Registers.set
  cases Register.ofIndex? i with
  | none => exact h
  | some r => exact h.write r value

theorem Consistent.setPair (h : rs.Consistent) (low high : Byte) (value : Word) :
    (rs.setPair low high value).Consistent :=
  (h.set _ _).set _ _

/-- past the byte at the last address the instruction pointer is at address 0 -/
theorem consistent_past (rs : Registers) : Consistent { rs with ip := rs.ip + 1, pastEnd := rs.ip = 0xffff } := by
  intro hpast
  have hlast : rs.ip = 0xffff := of_decide_eq_true hpast
  simp only [hlast]
  rfl

end Registers

/-- a machine between two instructions -/
structure Machine.Settled (machine : Machine) : Prop where
  halting : machine.halting = false
  consistent : machine.registers.Consistent

/-- what the machine is like after a computation, without a fault and with one -/
inductive EndsIn (good faulty : Machine → Prop) {α : Type} : EStateM.Result Fault.Cause (Board σ) α → Prop
  | ok {value : α} {after : Board σ} : good after.machine → EndsIn good faulty (.ok value after)
  | error {cause : Fault.Cause} {after : Board σ} : faulty after.machine → EndsIn good faulty (.error cause after)

namespace Exec

/-! ## Computations that keep a property -/

/-- the property holds after the computation if it does before, whether there was a fault or not -/
def Keeps (P : Machine → Prop) {α : Type} (x : Exec σ α) : Prop :=
  ∀ board : Board σ, P board.machine → EndsIn P P (x.run board)

variable {P : Machine → Prop} {α β : Type}

theorem keeps_pure (value : α) : Keeps P (pure value : Exec σ α) := fun _ h => .ok h

theorem keeps_throw (cause : Fault.Cause) : Keeps P (throw cause : Exec σ α) := fun _ h => .error h

theorem Keeps.bind {x : Exec σ α} {f : α → Exec σ β} (hx : Keeps P x) (hf : ∀ value, Keeps P (f value)) :
    Keeps P (x >>= f) := by
  intro board h
  have hfirst := hx board h
  rw [EStateM.run_bind]
  generalize x.run board = ends at hfirst
  cases hfirst with
  | ok h => exact hf _ _ h
  | error h => exact .error h

theorem Keeps.ite {condition : Prop} [Decidable condition] {x y : Exec σ α} (hx : Keeps P x) (hy : Keeps P y) :
    Keeps P (if condition then x else y) := by
  by_cases hcondition : condition
  · rw [if_pos hcondition]
    exact hx
  · rw [if_neg hcondition]
    exact hy

theorem keeps_registers : Keeps P (registers : Exec σ Registers) := fun _ h => .ok h

theorem keeps_getRegister (i : Byte) : Keeps P (getRegister i : Exec σ Byte) :=
  keeps_registers.bind fun _ => keeps_pure _

theorem keeps_getPair (low high : Byte) : Keeps P (getPair low high : Exec σ Word) :=
  keeps_registers.bind fun _ => keeps_pure _

theorem keeps_checkAddress (address : Int) : Keeps P (checkAddress address : Exec σ Word) :=
  .ite (keeps_pure _) (keeps_throw _)

theorem keeps_frameSlot (offset : Byte) : Keeps P (frameSlot offset : Exec σ Word) :=
  keeps_registers.bind fun _ => keeps_checkAddress _

theorem keeps_load [Device σ] (address : Word) : Keeps P (load address : Exec σ Byte) := by
  intro board h
  by_cases hwindow : InWindow address
  · rw [run_load_of_window hwindow]
    exact .ok h
  · rw [run_load_of_memory hwindow]
    exact .ok h

/-! ## Computations that leave the machine settled -/

theorem keeps_modifyRegisters {f : Registers → Registers} (hf : ∀ rs, rs.Consistent → (f rs).Consistent) :
    Keeps Machine.Settled (modifyRegisters f : Exec σ Unit) :=
  fun board h => .ok ⟨h.halting, hf board.machine.registers h.consistent⟩

theorem keeps_setRegister (i value : Byte) : Keeps Machine.Settled (setRegister i value : Exec σ Unit) :=
  keeps_modifyRegisters fun _ h => h.set i value

theorem keeps_setFlags (zero carry : Bool) : Keeps Machine.Settled (setFlags zero carry : Exec σ Unit) :=
  keeps_modifyRegisters fun _ h => h

theorem keeps_setStack (sp : Word) : Keeps Machine.Settled (modifyRegisters ({ · with sp }) : Exec σ Unit) :=
  keeps_modifyRegisters fun _ h => h

theorem keeps_jump (target : Word) : Keeps Machine.Settled (jump target : Exec σ Unit) :=
  keeps_modifyRegisters fun rs _ => rs.consistent_jump target

theorem keeps_jumpIf (condition : Bool) (low high : Byte) :
    Keeps Machine.Settled (jumpIf condition low high : Exec σ Unit) :=
  .ite (keeps_jump _) (keeps_pure _)

theorem keeps_store [Device σ] (address : Word) (value : Byte) :
    Keeps Machine.Settled (store address value : Exec σ Unit) := by
  intro board h
  by_cases hwindow : InWindow address
  · rw [run_store_of_window hwindow]
    exact .ok h
  · rw [run_store_of_memory hwindow]
    exact .ok ⟨h.halting, h.consistent⟩

theorem keeps_push (value : Byte) : Keeps Machine.Settled (push value : Exec σ Unit) := by
  refine keeps_registers.bind fun _ => (keeps_checkAddress _).bind fun next => .bind ?_ fun _ => keeps_setStack next
  exact fun _ h => .ok ⟨h.halting, h.consistent⟩

theorem keeps_pop : Keeps Machine.Settled (pop : Exec σ Byte) :=
  keeps_registers.bind fun _ => (keeps_checkAddress _).bind fun sp => (keeps_setStack sp).bind fun _ => fun _ h => .ok h

theorem keeps_moveStack (distance : Int) : Keeps Machine.Settled (moveStack distance : Exec σ Unit) :=
  keeps_registers.bind fun _ => (keeps_checkAddress _).bind fun sp => keeps_setStack sp

theorem keeps_call (target : Word) : Keeps Machine.Settled (call target : Exec σ Unit) :=
  keeps_registers.bind fun _ => (keeps_push _).bind fun _ => (keeps_push _).bind fun _ => keeps_jump _

theorem keeps_combine (op : Byte → Byte → Byte × Bool) (dst y : Byte) :
    Keeps Machine.Settled (combine op dst y : Exec σ Unit) :=
  (keeps_getRegister dst).bind fun _ => (keeps_setFlags _ _).bind fun _ => keeps_setRegister _ _

theorem keeps_modifyPair (low high : Byte) (f : Word → Word) :
    Keeps Machine.Settled (modifyPair low high f : Exec σ Unit) :=
  (keeps_getPair low high).bind fun _ => keeps_modifyRegisters fun _ h => h.setPair low high _

theorem keeps_count (category : Category) : Keeps Machine.Settled (count category : Exec σ Unit) :=
  fun _ h => .ok ⟨h.halting, h.consistent⟩

variable [Device σ]

/-! ## Instructions -/

theorem keeps_fetch : Keeps Machine.Settled (fetch : Exec σ Byte) := by
  refine keeps_registers.bind fun rs => ?_
  have hload : ∀ _ : PUnit, Keeps Machine.Settled (do
      let value ← load rs.ip
      modifyRegisters fun rs => { rs with ip := rs.ip + 1, pastEnd := rs.ip = 0xffff }
      return value : Exec σ Byte) := fun _ =>
    (keeps_load _).bind fun _ => (keeps_modifyRegisters fun rs _ => rs.consistent_past).bind fun _ => keeps_pure _
  exact .ite ((keeps_throw _).bind hload) (hload ())

theorem keeps_fetchInstruction : Keeps Machine.Settled (fetchInstruction : Exec σ Instruction) := by
  refine keeps_fetch.bind fun code => ?_
  cases Opcode.ofCode? code with
  | none => exact keeps_throw _
  | some op =>
    refine (keeps_count _).bind fun _ => ?_
    cases op.form with
    | nullary i => exact keeps_pure i
    | unary f => exact keeps_fetch.bind fun _ => keeps_pure _
    | binary f => exact keeps_fetch.bind fun _ => keeps_fetch.bind fun _ => keeps_pure _

/-- every instruction but the one that stops the machine leaves it settled -/
theorem keeps_execute {i : Instruction} (hne : i ≠ .hlt) : Keeps Machine.Settled (execute i : Exec σ Unit) := by
  cases i with
  | num reg value => exact keeps_setRegister _ _
  | mov dst src => exact (keeps_getRegister _).bind fun _ => keeps_setRegister _ _
  | jmp lo hi => exact keeps_jump _
  | jin lo hi => exact (keeps_getPair _ _).bind fun _ => keeps_jump _
  | jiz lo hi => exact keeps_registers.bind fun _ => keeps_jumpIf _ _ _
  | jnz lo hi => exact keeps_registers.bind fun _ => keeps_jumpIf _ _ _
  | jic lo hi => exact keeps_registers.bind fun _ => keeps_jumpIf _ _ _
  | jnc lo hi => exact keeps_registers.bind fun _ => keeps_jumpIf _ _ _
  | clc lo hi => exact keeps_call _
  | clr lo hi => exact (keeps_getPair _ _).bind fun _ => keeps_call _
  | ret => exact keeps_pop.bind fun _ => keeps_pop.bind fun _ => keeps_jump _
  | alc size => exact keeps_moveStack _
  | eat size => exact keeps_moveStack _
  | ofg reg offset => exact (keeps_frameSlot _).bind fun _ => (keeps_load _).bind fun _ => keeps_setRegister _ _
  | ofs reg offset => exact (keeps_frameSlot _).bind fun _ => (keeps_getRegister _).bind fun _ => keeps_store _ _
  | pop reg => exact keeps_pop.bind fun _ => keeps_setRegister _ _
  | psh reg => exact (keeps_getRegister _).bind fun _ => keeps_push _
  | gec lo hi => exact (keeps_load _).bind fun _ => keeps_setRegister _ _
  | sec lo hi => exact (keeps_getRegister _).bind fun _ => keeps_store _ _
  | ger lo hi => exact (keeps_getPair _ _).bind fun _ => (keeps_load _).bind fun _ => keeps_setRegister _ _
  | ser lo hi => exact (keeps_getPair _ _).bind fun _ => (keeps_getRegister _).bind fun _ => keeps_store _ _
  | inc reg => exact keeps_combine addBytes reg 1
  | dec reg => exact keeps_combine subBytes reg 1
  | add dst src => exact (keeps_getRegister _).bind fun _ => keeps_combine _ _ _
  | sub dst src => exact (keeps_getRegister _).bind fun _ => keeps_combine _ _ _
  | mul dst src => exact (keeps_getRegister _).bind fun _ => keeps_combine _ _ _
  | shl dst src =>
    exact (keeps_getRegister _).bind fun _ => (keeps_getRegister _).bind fun _ => keeps_setRegister _ _
  | shr dst src =>
    exact (keeps_getRegister _).bind fun _ => (keeps_getRegister _).bind fun _ => keeps_setRegister _ _
  | inl lo hi => exact keeps_modifyPair _ _ _
  | del lo hi => exact keeps_modifyPair _ _ _
  | hlt => exact absurd rfl hne

/-- **No cycle breaks the marks.** After a fault the machine is settled, and otherwise it may be about to stop. -/
theorem cycle_settles (board : Board σ) (h : board.machine.Settled) :
    EndsIn (·.registers.Consistent) Machine.Settled (cycle.run board) := by
  rw [cycle, EStateM.run_bind]
  have hfetched := keeps_fetchInstruction board h
  generalize fetchInstruction.run board = fetched at hfetched
  cases hfetched with
  | error h => exact .error h
  | @ok i after h =>
    by_cases hhlt : i = .hlt
    · subst hhlt
      exact .ok h.consistent
    · have hexecuted := keeps_execute hhlt after h
      simp only
      generalize (execute i).run after = ends at hexecuted
      cases hexecuted with
      | ok h => exact .ok h.consistent
      | error h => exact .error h

end Exec

end ByteMachine
