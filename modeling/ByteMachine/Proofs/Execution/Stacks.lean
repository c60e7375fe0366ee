/-
The stack. The bytes between a base and the stack pointer are a stack: what is pushed last is popped first, wherever these
bytes lie. The stack is memory also where the device hides memory from programs, so the device has no part in it.

- `StackOp.Answers`: the bytes that operations take from a stack, and the stack that they leave.
- `StackOp.Answers.getElem?_of_balanced`, `StackOp.exists_match`: a pop takes the byte of its own push, and it has one.
- `Exec.run_operate`: the machine answers as the stack in its memory does, while there is room for it.
- `Exec.operate_is_lastInFirstOut`: operations that never pop more than they pushed, on any board with room for them.
-/
import Mathlib.Tactic
import ByteMachine.Proofs.Execution.Strays

namespace ByteMachine

variable {σ : Type}

/-! ## Operations -/

inductive StackOp where
  | push (value : Byte)
  | pop
  deriving DecidableEq, Repr

namespace StackOp

def pushes : List StackOp → Nat
  | [] => 0
  | push _ :: ops => pushes ops + 1
  | pop :: ops => pushes ops

def pops : List StackOp → Nat
  | [] => 0
  | push _ :: ops => pops ops
  | pop :: ops => pops ops + 1

/-- the addresses that bytes are put at, with the stack pointer at `sp` before -/
def cells : (sp : Nat) → List StackOp → List Nat
  | _, [] => []
  | sp, push _ :: ops => sp :: cells (sp + 1) ops
  | sp, pop :: ops => cells (sp - 1) ops

/-- what is pushed is popped again, and nothing else: a push before these operations and a pop after them match -/
structure Balanced (ops : List StackOp) : Prop where
  even : pops ops = pushes ops
  covered : ∀ before, before <+: ops → pops before ≤ pushes before

/-- on a stack of that depth there is a byte for every pop -/
def Covered (depth : Nat) (ops : List StackOp) : Prop := ∀ before, before <+: ops → pops before ≤ depth + pushes before

/-- the stack pointer, which is `sp` before, never has to be raised from the last address -/
def Fits (sp : Nat) (ops : List StackOp) : Prop := ∀ before, before <+: ops → sp + pushes before ≤ 0xffff + pops before

section Counts

variable {ops : List StackOp} {value : Byte} {depth sp : Nat}

@[simp] theorem pushes_append (first second : List StackOp) :
    pushes (first ++ second) = pushes first + pushes second := by
  induction first with
  | nil => simp [pushes]
  | cons op first ih => cases op <;> simp [pushes, ih, Nat.add_right_comm]

@[simp] theorem pops_append (first second : List StackOp) : pops (first ++ second) = pops first + pops second := by
  induction first with
  | nil => simp [pops]
  | cons op first ih => cases op <;> simp [pops, ih, Nat.add_right_comm]

theorem covered_zero (h : ∀ before, before <+: ops → pops before ≤ pushes before) : Covered 0 ops := by
  intro before hbefore
  rw [Nat.zero_add]
  exact h before hbefore

theorem Covered.of_push (h : Covered depth (push value :: ops)) : Covered (depth + 1) ops := by
  intro before hbefore
  have hprefix := h (push value :: before) (List.cons_prefix_cons.2 ⟨rfl, hbefore⟩)
  simp only [pushes, pops] at hprefix
  omega

theorem Covered.of_pop (h : Covered (depth + 1) (pop :: ops)) : Covered depth ops := by
  intro before hbefore
  have hprefix := h (pop :: before) (List.cons_prefix_cons.2 ⟨rfl, hbefore⟩)
  simp only [pushes, pops] at hprefix
  omega

theorem Covered.depth_ne_zero (h : Covered depth (pop :: ops)) : depth ≠ 0 := by
  have hprefix := h [pop] (List.cons_prefix_cons.2 ⟨rfl, List.nil_prefix⟩)
  simp only [pushes, pops] at hprefix
  omega

theorem Fits.of_push (h : Fits sp (push value :: ops)) : sp < 0xffff ∧ Fits (sp + 1) ops := by
  constructor
  · have hprefix := h [push value] (List.cons_prefix_cons.2 ⟨rfl, List.nil_prefix⟩)
    simp only [pushes, pops] at hprefix
    omega
  · intro before hbefore
    have hprefix := h (push value :: before) (List.cons_prefix_cons.2 ⟨rfl, hbefore⟩)
    simp only [pushes, pops] at hprefix
    omega

theorem Fits.of_pop (h : Fits (sp + 1) (pop :: ops)) : Fits sp ops := by
  intro before hbefore
  have hprefix := h (pop :: before) (List.cons_prefix_cons.2 ⟨rfl, hbefore⟩)
  simp only [pushes, pops] at hprefix
  omega

end Counts

/-! ## Matching operations -/

/-- where more is pushed than popped, some push is never undone: after it, what is pushed is popped again -/
theorem exists_balanced_of_lt (ops : List StackOp) (h : pops ops < pushes ops) :
    ∃ first value inner, ops = first ++ push value :: inner ∧ Balanced inner := by
  induction hlength : ops.length using Nat.strong_induction_on generalizing ops with
  | _ length ih =>
    subst hlength
    -- it is enough to find the push in a shorter end of the operations
    have hend : ∀ first rest, ops = first ++ rest → first ≠ [] → pops rest < pushes rest →
        ∃ first value inner, ops = first ++ push value :: inner ∧ Balanced inner := by
      rintro first rest rfl hne hless
      have hshorter : rest.length < (first ++ rest).length := by
        have hpositive := List.length_pos_of_ne_nil hne
        rw [List.length_append]
        omega
      obtain ⟨second, value, inner, rfl, hbalanced⟩ := ih _ hshorter rest hless rfl
      exact ⟨first ++ second, value, inner, (List.append_assoc _ _ _).symm, hbalanced⟩
    cases ops with
    | nil => simp [pushes, pops] at h
    | cons op rest =>
      cases op with
      | pop =>
        simp only [pushes, pops] at h
        exact hend [pop] rest rfl (List.cons_ne_nil _ _) (by omega)
      | push value =>
        simp only [pushes, pops] at h
        by_cases hcovered : ∀ before, before <+: rest → pops before ≤ pushes before
        · by_cases heven : pops rest = pushes rest
          · exact ⟨[], value, rest, rfl, heven, hcovered⟩
          · exact hend [push value] rest rfl (List.cons_ne_nil _ _) (by omega)
        · -- what comes after a pop that undoes the first push pushes more than it pops
          simp only [not_forall, not_le] at hcovered
          obtain ⟨before, ⟨after, rfl⟩, hless⟩ := hcovered
          rw [pushes_append, pops_append] at h
          exact hend (push value :: before) after rfl (List.cons_ne_nil _ _) (by omega)

/-- **Every pop has a push** if no pop is one too many -/
theorem exists_match {ops before rest : List StackOp} (hcovered : ∀ before, before <+: ops → pops before ≤ pushes before)
    (h : ops = before ++ pop :: rest) :
    ∃ first value inner, before = first ++ push value :: inner ∧ Balanced inner := by
  have hprefix := hcovered (before ++ [pop]) ⟨rest, by rw [h, List.append_assoc]; rfl⟩
  rw [pushes_append, pops_append] at hprefix
  simp only [pushes, pops] at hprefix
  exact exists_balanced_of_lt before (by omega)

/-! ## Stacks as lists -/

/-- what operations take from a stack and what they leave of it; the byte on top comes first -/
inductive Answers : (stack : List Byte) → List StackOp → (popped left : List Byte) → Prop
  | nil {stack : List Byte} : Answers stack [] [] stack
  | push {value : Byte} {stack popped left : List Byte} {ops : List StackOp} :
      Answers (value :: stack) ops popped left → Answers stack (.push value :: ops) popped left
  | pop {value : Byte} {stack popped left : List Byte} {ops : List StackOp} :
      Answers stack ops popped left → Answers (value :: stack) (.pop :: ops) (value :: popped) left

section Answers

variable {stack popped left : List Byte} {ops : List StackOp}

theorem Covered.exists_answers (h : Covered stack.length ops) : ∃ popped left, Answers stack ops popped left := by
  induction ops generalizing stack with
  | nil => exact ⟨[], stack, .nil⟩
  | cons op ops ih =>
    cases op with
    | push value =>
      obtain ⟨popped, left, hanswers⟩ := @ih (value :: stack) h.of_push
      exact ⟨popped, left, .push hanswers⟩
    | pop =>
      cases stack with
      | nil => exact absurd rfl h.depth_ne_zero
      | cons value stack =>
        obtain ⟨popped, left, hanswers⟩ := ih h.of_pop
        exact ⟨value :: popped, left, .pop hanswers⟩

theorem Answers.length_popped (h : Answers stack ops popped left) : popped.length = pops ops := by
  induction h with
  | nil => rfl
  | push _ ih => exact ih
  | pop _ ih => exact congrArg (· + 1) ih

theorem Answers.length_left (h : Answers stack ops popped left) :
    left.length + pops ops = stack.length + pushes ops := by
  induction h with
  | nil => rfl
  | push _ ih =>
    rw [List.length_cons] at ih
    simp only [pushes, pops]
    omega
  | pop _ ih =>
    simp only [pushes, pops, List.length_cons]
    omega

/-- there is only one answer -/
theorem Answers.unique {popped' left' : List Byte} (h : Answers stack ops popped left)
    (h' : Answers stack ops popped' left') : popped = popped' ∧ left = left' := by
  induction h generalizing popped' with
  | nil =>
    cases h'
    exact ⟨rfl, rfl⟩
  | push _ ih =>
    cases h' with
    | push h' => exact ih h'
  | pop _ ih =>
    cases h' with
    | pop h' =>
      obtain ⟨rfl, rfl⟩ := ih h'
      exact ⟨rfl, rfl⟩

/-- what lies below is not touched -/
theorem Answers.append (h : Answers stack ops popped left) (below : List Byte) :
    Answers (stack ++ below) ops popped (left ++ below) := by
  induction h with
  | nil => exact .nil
  | push _ ih => exact .push ih
  | pop _ ih => exact .pop ih

/-- operations may be done in two parts -/
theorem Answers.split {first second : List StackOp} (h : Answers stack (first ++ second) popped left) :
    ∃ popped₁ popped₂ middle, Answers stack first popped₁ middle ∧ Answers middle second popped₂ left ∧
      popped = popped₁ ++ popped₂ := by
  induction first generalizing stack popped with
  | nil => exact ⟨[], popped, stack, .nil, h, rfl⟩
  | cons op first ih =>
    cases h with
    | push hrest =>
      obtain ⟨popped₁, popped₂, middle, hfirst, hsecond, rfl⟩ := ih hrest
      exact ⟨popped₁, popped₂, middle, .push hfirst, hsecond, rfl⟩
    | @pop value _ _ _ _ hrest =>
      obtain ⟨popped₁, popped₂, middle, hfirst, hsecond, rfl⟩ := ih hrest
      exact ⟨value :: popped₁, popped₂, middle, .pop hfirst, hsecond, rfl⟩

/-- operations that pop what they push leave every stack as it was -/
theorem Balanced.exists_answers (h : Balanced ops) (stack : List Byte) : ∃ popped, Answers stack ops popped stack := by
  obtain ⟨popped, left, hanswers⟩ := @Covered.exists_answers [] ops (covered_zero h.covered)
  have hlength := hanswers.length_left
  rw [h.even, List.length_nil] at hlength
  obtain rfl : left = [] := List.length_eq_zero_iff.1 (by omega)
  exact ⟨popped, hanswers.append stack⟩

/-- **A pop takes the byte of its own push.** -/
theorem Answers.getElem?_of_balanced {first inner rest : List StackOp} {value : Byte}
    (h : Answers stack (first ++ .push value :: (inner ++ .pop :: rest)) popped left) (hinner : Balanced inner) :
    popped[pops (first ++ .push value :: inner)]? = some value := by
  obtain ⟨popped₁, _, middle, hfirst, hafter, rfl⟩ := h.split
  cases hafter with
  | push hafter =>
    obtain ⟨popped₂, _, top, hbetween, hlast, rfl⟩ := hafter.split
    -- between the two operations the byte is on top again
    obtain ⟨_, hsame⟩ := hinner.exists_answers (value :: middle)
    obtain ⟨-, rfl⟩ := hsame.unique hbetween
    cases hlast with
    | pop hrest =>
      have hindex : pops (first ++ .push value :: inner) = (popped₁ ++ popped₂).length := by
        rw [List.length_append, hfirst.length_popped, hbetween.length_popped, pops_append]
        rfl
      rw [hindex, ← List.append_assoc, List.getElem?_append_right (Nat.le_refl _), Nat.sub_self]
      rfl

end Answers

end StackOp

/-! ## Stacks in memory -/

/-- the bytes of a stack lie at the addresses from the base on, the one on top at the last of them -/
inductive Memory.Stacks (memory : Memory) (base : Nat) : List Byte → Prop
  | nil : memory.Stacks base []
  | cons {value : Byte} {stack : List Byte} :
      memory.read (UInt16.ofNat (base + stack.length)) = value → memory.Stacks base stack →
        memory.Stacks base (value :: stack)

/-- a byte put above the stack does not touch it -/
theorem Memory.Stacks.write {memory : Memory} {base : Nat} {stack : List Byte} (h : memory.Stacks base stack)
    {address : Word} (habove : base + stack.length ≤ address.toNat) (value : Byte) :
    (memory.write address value).Stacks base stack := by
  have haddress := address.toNat_lt
  induction h with
  | nil => exact .nil
  | @cons top stack htop _ ih =>
    rw [List.length_cons] at habove
    refine .cons ?_ (ih (by omega))
    have hother : UInt16.ofNat (base + stack.length) ≠ address := by
      rw [Ne, ← UInt16.toNat_inj, UInt16.toNat_ofNat_of_lt' (by rw [UInt16.size]; omega)]
      omega
    rw [Memory.read_write, if_neg hother]
    exact htop

namespace Board

/-- the stack lies between the base and the stack pointer -/
structure Stacks (base : Nat) (stack : List Byte) (board : Board σ) : Prop where
  top : board.machine.registers.sp.toNat = base + stack.length
  held : board.machine.memory.Stacks base stack

/-- only the stack pointer and the bytes at some addresses may have changed -/
structure ChangedAt (addresses : List Nat) (before after : Board σ) : Prop where
  others : after = (before.withMemory after.machine.memory).withRegisters
    { before.machine.registers with sp := after.machine.registers.sp }
  memory : ∀ address : Word, address.toNat ∉ addresses →
    after.machine.memory.read address = before.machine.memory.read address

section Stacks

variable {board : Board σ} {base : Nat} {stack : List Byte} {value : Byte}

theorem Stacks.raised (h : board.Stacks base stack) (hsp : board.machine.registers.sp ≠ 0xffff) (value : Byte) :
    (board.raised value).Stacks base (value :: stack) := by
  have hnext := Exec.toNat_raised hsp value
  have htop : UInt16.ofNat (base + stack.length) = board.machine.registers.sp := by
    rw [← h.top, UInt16.ofNat_toNat]
  refine ⟨?_, .cons ?_ ?_⟩
  · rw [hnext, h.top, List.length_cons, Nat.add_assoc]
  · rw [htop]
    exact (Memory.read_write _ _ _ _).trans (if_pos rfl)
  · exact h.held.write h.top.ge value

theorem Stacks.sp_ne_zero (h : board.Stacks base (value :: stack)) : board.machine.registers.sp ≠ 0 := by
  have htop := h.top
  rw [List.length_cons] at htop
  rw [Ne, ← UInt16.toNat_inj, UInt16.toNat_zero]
  omega

theorem Stacks.lowered (h : board.Stacks base (value :: stack)) :
    board.machine.memory.read (board.machine.registers.sp - 1) = value ∧ board.lowered.Stacks base stack := by
  have hnext := Exec.toNat_lowered h.sp_ne_zero
  obtain ⟨htop, hheld⟩ := h
  rw [List.length_cons] at htop
  have hbelow : board.lowered.machine.registers.sp.toNat = base + stack.length := by omega
  have haddress : UInt16.ofNat (base + stack.length) = board.machine.registers.sp - 1 := by
    rw [← hbelow, UInt16.ofNat_toNat]
    rfl
  cases hheld with
  | cons hread hrest =>
    rw [haddress] at hread
    exact ⟨hread, hbelow, hrest⟩

end Stacks

section ChangedAt

variable {board after : Board σ} {addresses : List Nat}

theorem ChangedAt.refl (board : Board σ) : ChangedAt [] board board := ⟨rfl, fun _ _ => rfl⟩

/-- a byte is put at the stack pointer before the other changes, -/
theorem ChangedAt.of_raised {value : Byte} (h : ChangedAt addresses (board.raised value) after) :
    ChangedAt (board.machine.registers.sp.toNat :: addresses) board after := by
  refine ⟨h.others, fun address hother => ?_⟩
  rw [List.mem_cons, not_or] at hother
  rw [h.memory address hother.2]
  refine (Memory.read_write _ _ _ _).trans (if_neg ?_)
  rintro rfl
  exact hother.1 rfl

/-- or the stack pointer is lowered -/
theorem ChangedAt.of_lowered (h : ChangedAt addresses board.lowered after) : ChangedAt addresses board after :=
  ⟨h.others, h.memory⟩

end ChangedAt

end Board

/-! ## Runs -/

namespace Exec

open StackOp

/-- do the operations one after the other; the result is what is popped -/
def operate : List StackOp → Exec σ (List Byte)
  | [] => return []
  | .push value :: ops => do
    push value
    operate ops
  | .pop :: ops => do
    let value ← pop
    let values ← operate ops
    return value :: values

/-- **The machine answers as the stack in its memory does,** while there is room. By induction on the answers: the stack
in memory is what is left of the list. -/
theorem run_operate {board : Board σ} {base : Nat} {stack popped left : List Byte} {ops : List StackOp}
    (hanswers : Answers stack ops popped left) (hstacks : board.Stacks base stack)
    (hfits : Fits board.machine.registers.sp.toNat ops) :
    ∃ after, (operate ops).run board = .ok popped after ∧ after.Stacks base left ∧
      Board.ChangedAt (cells board.machine.registers.sp.toNat ops) board after := by
  induction hanswers generalizing board with
  | nil => exact ⟨board, rfl, hstacks, .refl board⟩
  | @push value stack popped left ops _ ih =>
    obtain ⟨hroom, hrest⟩ := hfits.of_push
    have hsp : board.machine.registers.sp ≠ 0xffff := by
      rw [Ne, sp_eq_last_iff]
      omega
    have hraised := toNat_raised hsp value
    rw [← hraised] at hrest
    obtain ⟨after, hrun, hleft, hchanged⟩ := ih (hstacks.raised hsp value) hrest
    refine ⟨after, ?_, hleft, ?_⟩
    · rw [operate, run_bind_of_ok (run_push_of_ne hsp value), hrun]
    · rw [hraised] at hchanged
      exact hchanged.of_raised
  | @pop value stack popped left ops _ ih =>
    have hsp := hstacks.sp_ne_zero
    have hlowered := toNat_lowered hsp
    obtain ⟨hvalue, hstack⟩ := hstacks.lowered
    have hrest : Fits board.lowered.machine.registers.sp.toNat ops := by
      refine Fits.of_pop ?_
      rw [hlowered, Nat.sub_add_cancel]
      · exact hfits
      · rw [Ne, sp_eq_zero_iff] at hsp
        omega
    obtain ⟨after, hrun, hleft, hchanged⟩ := ih hstack hrest
    refine ⟨after, ?_, hleft, ?_⟩
    · rw [operate, run_bind_of_ok (run_pop_of_ne hsp), run_bind_of_ok hrun, hvalue]
      rfl
    · rw [hlowered] at hchanged
      exact hchanged.of_lowered

end Exec

/-! ## Instructions -/

namespace Instruction

/-- the operations that an instruction does on the stack, as the registers are when it is executed -/
def stackOps (rs : Registers) : Instruction → List StackOp
  | pop _ => [.pop]
  | ret => [.pop, .pop]
  | i => (i.pushes rs).map .push

/-- what is left to do with the registers after that -/
def finish (rs : Registers) : Instruction → (popped : List Byte) → Registers → Registers
  | pop reg, [value] => (·.set reg value)
  | ret, [high, low] => (·.jump (Word.ofBytes low high))
  | clc lo hi, _ => (·.jump (Word.ofBytes lo hi))
  | clr lo hi, _ => (·.jump (rs.pair lo hi))
  | _, _ => id

end Instruction

namespace Exec

open StackOp

section Operate

variable {α : Type} (f : List Byte → Exec σ α) (ops : List StackOp)

theorem operate_nil_bind : (operate [] >>= f) = f [] := pure_bind _ _

theorem operate_push_bind (value : Byte) :
    (operate (.push value :: ops) >>= f) = (do push value; operate ops >>= f) := bind_assoc _ _ _

theorem operate_pop_bind :
    (operate (.pop :: ops) >>= f) = (do let value ← pop; operate ops >>= fun values => f (value :: values)) := by
  simp only [operate, bind_assoc, pure_bind]

end Operate

/-- the instructions that push and pop do it by these operations -/
theorem execute_operates [Device σ] {i : Instruction} (h : i.opcode ∈ [Opcode.psh, .pop, .clc, .clr, .ret])
    (board : Board σ) :
    (execute i).run board = (do
      let popped ← operate (i.stackOps board.machine.registers)
      modifyRegisters (i.finish board.machine.registers popped) : Exec σ Unit).run board := by
  cases i with
  | psh reg =>
    have hops : (Instruction.psh reg).stackOps board.machine.registers =
      [.push (board.machine.registers.get reg)] := rfl
    rw [hops, operate_push_bind, operate_nil_bind, execute, run_bind_of_ok (run_getRegister reg board)]
    exact congrArg (·.run board) (bind_pure_unit (x := push (board.machine.registers.get reg))).symm
  | pop reg =>
    have hops : (Instruction.pop reg).stackOps board.machine.registers = [.pop] := rfl
    rw [hops, operate_pop_bind]
    rfl
  | clc lo hi =>
    have hops : (Instruction.clc lo hi).stackOps board.machine.registers =
      [.push (Word.low board.machine.registers.ip), .push (Word.high board.machine.registers.ip)] := rfl
    rw [hops, operate_push_bind, operate_push_bind, operate_nil_bind, execute, call,
      run_bind_of_ok (run_registers board)]
    rfl
  | clr lo hi =>
    have hops : (Instruction.clr lo hi).stackOps board.machine.registers =
      [.push (Word.low board.machine.registers.ip), .push (Word.high board.machine.registers.ip)] := rfl
    rw [hops, operate_push_bind, operate_push_bind, operate_nil_bind, execute,
      run_bind_of_ok (run_getPair lo hi board), call, run_bind_of_ok (run_registers board)]
    rfl
  | ret =>
    have hops : Instruction.ret.stackOps board.machine.registers = [.pop, .pop] := rfl
    simp only [hops, operate_pop_bind, operate_nil_bind]
    rfl
  | _ => simp [Instruction.opcode] at h

/-! ## Last in, first out -/

/-- the operations came to these bytes and this board, and what is pushed last was popped first -/
structure LastInFirstOut (ops : List StackOp) (before : Board σ) (popped : List Byte) (after : Board σ) : Prop where
  /-- there is a byte for every pop, -/
  length : popped.length = pops ops
  /-- which has its own push: what is pushed in between is popped again in between, -/
  hasPush : ∀ earlier later, ops = earlier ++ .pop :: later →
    ∃ first value inner, earlier = first ++ .push value :: inner ∧ Balanced inner
  /-- and takes the byte of that push -/
  takes : ∀ first value inner later, ops = first ++ .push value :: (inner ++ .pop :: later) → Balanced inner →
    popped[pops (first ++ .push value :: inner)]? = some value
  sp : after.machine.registers.sp.toNat + pops ops = before.machine.registers.sp.toNat + pushes ops
  /-- memory changes at the addresses of pushed bytes only, and nothing else but the stack pointer does -/
  changed : Board.ChangedAt (cells before.machine.registers.sp.toNat ops) before after
  /-- the device is as it was, also if it keeps a record of accesses -/
  device : after.device = before.device

/-- **The stack is last in, first out, wherever it lies.** Operations that never pop more than they pushed and never need
the address after the last one are done without a fault, and the device has no part in them. The instructions that push
and pop do it by such operations. -/
theorem operate_is_lastInFirstOut [Device σ] (ops : List StackOp) (board : Board σ)
    (hcovered : ∀ before, before <+: ops → pops before ≤ pushes before)
    (hroom : ∀ before, before <+: ops →
      board.machine.registers.sp.toNat + (pushes before - pops before) ≤ 0xffff) :
    (∃ popped after, (operate ops).run board = .ok popped after ∧ LastInFirstOut ops board popped after) ∧
      ∀ i : Instruction, i.opcode ∈ [Opcode.psh, .pop, .clc, .clr, .ret] →
        (execute i).run board = (do
          let popped ← operate (i.stackOps board.machine.registers)
          modifyRegisters (i.finish board.machine.registers popped) : Exec σ Unit).run board := by
  refine ⟨?_, fun i hi => execute_operates hi board⟩
  have hempty : board.Stacks board.machine.registers.sp.toNat [] := ⟨rfl, .nil⟩
  have hfits : Fits board.machine.registers.sp.toNat ops := by
    intro before hbefore
    have hle := hcovered before hbefore
    have hlast := hroom before hbefore
    omega
  obtain ⟨popped, left, hanswers⟩ := @Covered.exists_answers [] ops (covered_zero hcovered)
  obtain ⟨after, hrun, hleft, hchanged⟩ := run_operate hanswers hempty hfits
  refine ⟨popped, after, hrun, hanswers.length_popped, ?_, ?_, ?_, hchanged, ?_⟩
  · intro earlier later hops
    exact exists_match hcovered hops
  · rintro first value inner later rfl hinner
    exact hanswers.getElem?_of_balanced hinner
  · have hlength := hanswers.length_left
    have htop := hleft.top
    rw [List.length_nil] at hlength
    omega
  · rw [hchanged.others]
    rfl

/-- a machine whose stack is about to grow into the window, with a device that keeps a record -/
def beforeWindow : Board (Recorded NoDevice) :=
  ⟨{ Machine.initial with registers := { Registers.initial with sp := 0xdfff } }, ⟨⟨⟩, #[]⟩⟩

/-- the first byte lies before the window, and the other two in it, one after the other at its first address -/
def acrossWindow : List StackOp := [.push 1, .push 2, .pop, .push 3, .pop, .pop]

theorem acrossWindow_is_lastInFirstOut :
    ∃ popped after, (operate acrossWindow).run beforeWindow = .ok popped after ∧ popped.length = 3 ∧
      popped[0]? = some 2 ∧ popped[1]? = some 3 ∧ popped[2]? = some 1 ∧
      after.machine.registers.sp.toNat + 3 = 0xdfff + 3 ∧ after.device.accesses = #[] := by
  have hprefixes : ∀ before ∈ acrossWindow.inits, pops before ≤ pushes before ∧
      0xdfff + (pushes before - pops before) ≤ 0xffff := by decide
  have hinner : ∀ before ∈ List.inits [StackOp.push 2, .pop, .push 3, .pop], pops before ≤ pushes before := by decide
  obtain ⟨⟨popped, after, hrun, hlifo⟩, -⟩ := operate_is_lastInFirstOut acrossWindow beforeWindow
    (fun before hbefore => (hprefixes before ((List.mem_inits _ _).2 hbefore)).1)
    (fun before hbefore => (hprefixes before ((List.mem_inits _ _).2 hbefore)).2)
  have hnone : Balanced [] := ⟨rfl, by simp [pops]⟩
  have hboth : Balanced [.push 2, .pop, .push 3, .pop] :=
    ⟨rfl, fun before hbefore => hinner before ((List.mem_inits _ _).2 hbefore)⟩
  refine ⟨popped, after, hrun, hlifo.length, ?_, ?_, ?_, hlifo.sp, congrArg Recorded.accesses hlifo.device⟩
  · exact hlifo.takes [.push 1] 2 [] [.push 3, .pop, .pop] rfl hnone
  · exact hlifo.takes [.push 1, .push 2, .pop] 3 [] [.pop] rfl hnone
  · exact hlifo.takes [] 1 [.push 2, .pop, .push 3, .pop] [] rfl hboth

end Exec

end ByteMachine
