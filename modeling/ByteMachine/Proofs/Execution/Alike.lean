/-
Boards that do alike. A relation between boards is a `Likeness` if related boards show the same registers and memory and
the same answers of their devices, and stay related when both are changed in the same way. It is a `Semblance` if this is
so with the memory that programs see, outside the window; only a pop can tell such boards apart.

- `execute_alike`, `cycle_alike`: every instruction comes to the same on both sides, and leaves related boards.
- `execute_alike_of_popped`: so it does if memory is only alike where programs see it, and at the addresses it pops from.
- `DeviceMap.step`: no step tells a device from another that it is mapped to.
- `cause_of_execute`: an instruction that was fetched raises no other fault than that an address is out of range.
-/
import Mathlib.Tactic
import ByteMachine.Proofs.Execution.Primitives

namespace ByteMachine

variable {σ τ : Type}

/-- a relation between boards that no instruction tells apart -/
structure Likeness [Device σ] [Device τ] (R : Board σ → Board τ → Prop) : Prop where
  registers : ∀ {s t}, R s t → s.machine.registers = t.machine.registers
  memory : ∀ {s t}, R s t → s.machine.memory = t.machine.memory
  profile : ∀ {s t}, R s t → s.machine.profile = t.machine.profile
  withRegisters : ∀ {s t}, R s t → ∀ registers, R (s.withRegisters registers) (t.withRegisters registers)
  withMemory : ∀ {s t}, R s t → ∀ memory, R (s.withMemory memory) (t.withMemory memory)
  withProfile : ∀ {s t}, R s t → ∀ profile, R (s.withProfile profile) (t.withProfile profile)
  withHalting : ∀ {s t}, R s t → R s.withHalting t.withHalting
  answer : ∀ {s t}, R s t → ∀ offset, (Device.read s.device offset).1 = (Device.read t.device offset).1
  read : ∀ {s t}, R s t → ∀ offset,
    R (s.withDevice (Device.read s.device offset).2) (t.withDevice (Device.read t.device offset).2)
  write : ∀ {s t}, R s t → ∀ offset value,
    R (s.withDevice (Device.write s.device offset value)) (t.withDevice (Device.write t.device offset value))

/-- a relation between boards that only a pop can tell apart: their memory is the same where it is not hidden by the
device -/
structure Semblance [Device σ] [Device τ] (R : Board σ → Board τ → Prop) : Prop where
  registers : ∀ {s t}, R s t → s.machine.registers = t.machine.registers
  shown : ∀ {s t}, R s t → ∀ address, ¬ InWindow address →
    s.machine.memory.read address = t.machine.memory.read address
  profile : ∀ {s t}, R s t → s.machine.profile = t.machine.profile
  withRegisters : ∀ {s t}, R s t → ∀ registers, R (s.withRegisters registers) (t.withRegisters registers)
  written : ∀ {s t}, R s t → ∀ address value,
    R (s.withMemory (s.machine.memory.write address value)) (t.withMemory (t.machine.memory.write address value))
  withProfile : ∀ {s t}, R s t → ∀ profile, R (s.withProfile profile) (t.withProfile profile)
  withHalting : ∀ {s t}, R s t → R s.withHalting t.withHalting
  answer : ∀ {s t}, R s t → ∀ offset, (Device.read s.device offset).1 = (Device.read t.device offset).1
  read : ∀ {s t}, R s t → ∀ offset,
    R (s.withDevice (Device.read s.device offset).2) (t.withDevice (Device.read t.device offset).2)
  write : ∀ {s t}, R s t → ∀ offset value,
    R (s.withDevice (Device.write s.device offset value)) (t.withDevice (Device.write t.device offset value))

theorem Likeness.semblance [Device σ] [Device τ] {R : Board σ → Board τ → Prop} (hR : Likeness R) : Semblance R where
  registers := hR.registers
  shown h address _ := by rw [hR.memory h]
  profile := hR.profile
  withRegisters := hR.withRegisters
  written h address value := by
    rw [hR.memory h]
    exact hR.withMemory h _
  withProfile := hR.withProfile
  withHalting := hR.withHalting
  answer := hR.answer
  read := hR.read
  write := hR.write

/-- the addresses that an instruction pops bytes from -/
def Instruction.popped (sp : Word) : Instruction → List Word
  | pop _ => [sp - 1]
  | ret => [sp - 1, sp - 1 - 1]
  | _ => []

/-- the same value, or a fault with the same of the causes, on related boards -/
inductive SameEnd (R : Board σ → Board τ → Prop) (causes : Fault.Cause → Prop) {α : Type} :
    EStateM.Result Fault.Cause (Board σ) α → EStateM.Result Fault.Cause (Board τ) α → Prop
  | ok {value : α} {s : Board σ} {t : Board τ} : R s t → SameEnd R causes (.ok value s) (.ok value t)
  | error {cause : Fault.Cause} {s : Board σ} {t : Board τ} :
      causes cause → R s t → SameEnd R causes (.error cause s) (.error cause t)

namespace Exec

/-- two computations that come to the same from related boards, and raise no faults but for the causes -/
def Alike (R : Board σ → Board τ → Prop) (causes : Fault.Cause → Prop) {α : Type} (x : Exec σ α) (y : Exec τ α) :
    Prop :=
  ∀ s t, R s t → SameEnd R causes (x.run s) (y.run t)

variable {R : Board σ → Board τ → Prop} {causes : Fault.Cause → Prop} {α β : Type}

theorem alike_pure (value : α) : Alike R causes (pure value : Exec σ α) (pure value : Exec τ α) :=
  fun _ _ h => .ok h

theorem alike_throw {cause : Fault.Cause} (hcause : causes cause) :
    Alike R causes (throw cause : Exec σ α) (throw cause : Exec τ α) :=
  fun _ _ h => .error hcause h

theorem Alike.bind {x : Exec σ α} {y : Exec τ α} {f : α → Exec σ β} {g : α → Exec τ β} (hx : Alike R causes x y)
    (hf : ∀ value, Alike R causes (f value) (g value)) : Alike R causes (x >>= f) (y >>= g) := by
  intro s t h
  have hfirst := hx s t h
  rw [EStateM.run_bind, EStateM.run_bind]
  generalize x.run s = end₁ at hfirst
  generalize y.run t = end₂ at hfirst
  cases hfirst with
  | ok h => exact hf _ _ _ h
  | error hcause h => exact .error hcause h

theorem Alike.ite {condition : Prop} [Decidable condition] {x x' : Exec σ α} {y y' : Exec τ α} (h : Alike R causes x y)
    (h' : Alike R causes x' y') : Alike R causes (if condition then x else x') (if condition then y else y') := by
  by_cases hcondition : condition
  · rw [if_pos hcondition, if_pos hcondition]
    exact h
  · rw [if_neg hcondition, if_neg hcondition]
    exact h'

theorem alike_checkAddress (hcauses : ∀ address, causes (.outOfRange address)) (address : Int) :
    Alike R causes (checkAddress address) (checkAddress address) :=
  .ite (alike_pure _) (alike_throw (hcauses _))

/-! ## Registers, memory and device -/

variable [Device σ] [Device τ]

section Parts

variable (hR : Semblance R)

include hR

theorem alike_registers : Alike R causes registers registers := by
  intro s t h
  rw [run_registers, run_registers, hR.registers h]
  exact .ok h

theorem alike_modifyRegisters (f : Registers → Registers) : Alike R causes (modifyRegisters f) (modifyRegisters f) := by
  intro s t h
  rw [run_modifyRegisters, run_modifyRegisters, hR.registers h]
  exact .ok (hR.withRegisters h _)

theorem alike_getRegister (i : Byte) : Alike R causes (getRegister i) (getRegister i) :=
  (alike_registers hR).bind fun _ => alike_pure _

theorem alike_setRegister (i value : Byte) : Alike R causes (setRegister i value) (setRegister i value) :=
  alike_modifyRegisters hR _

theorem alike_getPair (low high : Byte) : Alike R causes (getPair low high) (getPair low high) :=
  (alike_registers hR).bind fun _ => alike_pure _

theorem alike_jump (target : Word) : Alike R causes (jump target) (jump target) := alike_modifyRegisters hR _

theorem alike_jumpIf (condition : Bool) (low high : Byte) :
    Alike R causes (jumpIf condition low high) (jumpIf condition low high) :=
  .ite (alike_jump hR _) (alike_pure _)

theorem alike_load (address : Word) : Alike R causes (load address) (load address) := by
  intro s t h
  by_cases hwindow : InWindow address
  · rw [run_load_of_window hwindow, run_load_of_window hwindow, hR.answer h]
    exact .ok (hR.read h _)
  · rw [run_load_of_memory hwindow, run_load_of_memory hwindow, hR.shown h address hwindow]
    exact .ok h

theorem alike_store (address : Word) (value : Byte) : Alike R causes (store address value) (store address value) := by
  intro s t h
  by_cases hwindow : InWindow address
  · rw [run_store_of_window hwindow, run_store_of_window hwindow]
    exact .ok (hR.write h _ _)
  · rw [run_store_of_memory hwindow, run_store_of_memory hwindow]
    exact .ok (hR.written h _ _)

/-! ## Arithmetic -/

theorem alike_combine (op : Byte → Byte → Byte × Bool) (dst y : Byte) :
    Alike R causes (combine op dst y) (combine op dst y) :=
  (alike_getRegister hR dst).bind fun _ => (alike_modifyRegisters hR _).bind fun _ => alike_setRegister hR _ _

theorem alike_modifyPair (low high : Byte) (f : Word → Word) :
    Alike R causes (modifyPair low high f) (modifyPair low high f) :=
  (alike_getPair hR low high).bind fun _ => alike_modifyRegisters hR _

theorem alike_count (category : Category) : Alike R causes (count category) (count category) := by
  intro s t h
  rw [run_count, run_count, Board.counted, Board.counted, hR.profile h]
  exact .ok (hR.withProfile h _)

/-! ## Stack -/

section Faults

variable (hcauses : ∀ address, causes (.outOfRange address))

include hcauses

theorem alike_push (value : Byte) : Alike R causes (push value) (push value) := by
  refine (alike_registers hR).bind fun rs => (alike_checkAddress hcauses _).bind fun next => .bind ?_ fun _ =>
    alike_modifyRegisters hR _
  -- the byte is put into memory, whatever the device
  exact fun _ _ h => .ok (hR.written h _ _)

theorem alike_moveStack (distance : Int) : Alike R causes (moveStack distance) (moveStack distance) :=
  (alike_registers hR).bind fun _ => (alike_checkAddress hcauses _).bind fun _ => alike_modifyRegisters hR _

theorem alike_frameSlot (offset : Byte) : Alike R causes (frameSlot offset) (frameSlot offset) :=
  (alike_registers hR).bind fun _ => alike_checkAddress hcauses _

theorem alike_call (target : Word) : Alike R causes (call target) (call target) :=
  (alike_registers hR).bind fun _ => (alike_push hR hcauses _).bind fun _ => (alike_push hR hcauses _).bind fun _ =>
    alike_jump hR _

/-! ## Instructions -/

theorem alike_fetch : Alike R causes fetch fetch := by
  refine (alike_registers hR).bind fun rs => ?_
  have hload : ∀ _ : PUnit, Alike R causes
      (do
        let value ← load rs.ip
        modifyRegisters fun rs => { rs with ip := rs.ip + 1, pastEnd := rs.ip = 0xffff }
        return value)
      (do
        let value ← load rs.ip
        modifyRegisters fun rs => { rs with ip := rs.ip + 1, pastEnd := rs.ip = 0xffff }
        return value) := fun _ =>
    (alike_load hR _).bind fun _ => (alike_modifyRegisters hR _).bind fun _ => alike_pure _
  exact .ite ((alike_throw (hcauses _)).bind hload) (hload ())

/-- a pop comes to the same if the byte is the same on both sides -/
theorem pop_bind_alike {s : Board σ} {t : Board τ} (h : R s t)
    (hread : s.machine.memory.read (s.machine.registers.sp - 1) = t.machine.memory.read (s.machine.registers.sp - 1))
    {f : Byte → Exec σ α} {g : Byte → Exec τ α}
    (hf : ∀ value, R s.lowered t.lowered → SameEnd R causes ((f value).run s.lowered) ((g value).run t.lowered)) :
    SameEnd R causes ((pop >>= f).run s) ((pop >>= g).run t) := by
  have hregisters := hR.registers h
  have hlowered : R s.lowered t.lowered := by
    rw [Board.lowered, Board.lowered, ← hregisters]
    exact hR.withRegisters h _
  rw [EStateM.run_bind, EStateM.run_bind]
  by_cases hsp : s.machine.registers.sp = 0
  · rw [run_pop_of_zero hsp, run_pop_of_zero (hregisters ▸ hsp)]
    exact .error (hcauses _) h
  · rw [run_pop_of_ne hsp, run_pop_of_ne (hregisters ▸ hsp), ← hregisters, hread]
    exact hf _ hlowered

/-- **Instructions are told apart by what they pop, if at all.** -/
theorem execute_alike_of_popped (i : Instruction) {s : Board σ} {t : Board τ} (h : R s t)
    (hpopped : ∀ address ∈ i.popped s.machine.registers.sp,
      s.machine.memory.read address = t.machine.memory.read address) :
    SameEnd R causes ((execute i).run s) ((execute i).run t) := by
  cases i with
  | num reg value => exact alike_setRegister hR _ _ s t h
  | mov dst src => exact ((alike_getRegister hR _).bind fun _ => alike_setRegister hR _ _) s t h
  | jmp lo hi => exact alike_jump hR _ s t h
  | jin lo hi => exact ((alike_getPair hR _ _).bind fun _ => alike_jump hR _) s t h
  | jiz lo hi => exact ((alike_registers hR).bind fun _ => alike_jumpIf hR _ _ _) s t h
  | jnz lo hi => exact ((alike_registers hR).bind fun _ => alike_jumpIf hR _ _ _) s t h
  | jic lo hi => exact ((alike_registers hR).bind fun _ => alike_jumpIf hR _ _ _) s t h
  | jnc lo hi => exact ((alike_registers hR).bind fun _ => alike_jumpIf hR _ _ _) s t h
  | clc lo hi => exact alike_call hR hcauses _ s t h
  | clr lo hi => exact ((alike_getPair hR _ _).bind fun _ => alike_call hR hcauses _) s t h
  | ret =>
    refine pop_bind_alike hR hcauses h (hpopped _ List.mem_cons_self) fun high h => ?_
    refine pop_bind_alike hR hcauses h (hpopped _ (List.mem_cons_of_mem _ List.mem_cons_self)) fun low h => ?_
    exact alike_jump hR _ _ _ h
  | alc size => exact alike_moveStack hR hcauses _ s t h
  | eat size => exact alike_moveStack hR hcauses _ s t h
  | ofg reg offset =>
    exact ((alike_frameSlot hR hcauses _).bind fun _ => (alike_load hR _).bind fun _ => alike_setRegister hR _ _) s t h
  | ofs reg offset =>
    exact ((alike_frameSlot hR hcauses _).bind fun _ => (alike_getRegister hR _).bind fun _ => alike_store hR _ _) s t h
  | pop reg =>
    exact pop_bind_alike hR hcauses h (hpopped _ List.mem_cons_self) fun _ h => alike_setRegister hR _ _ _ _ h
  | psh reg => exact ((alike_getRegister hR _).bind fun _ => alike_push hR hcauses _) s t h
  | gec lo hi => exact ((alike_load hR _).bind fun _ => alike_setRegister hR _ _) s t h
  | sec lo hi => exact ((alike_getRegister hR _).bind fun _ => alike_store hR _ _) s t h
  | ger lo hi =>
    exact ((alike_getPair hR _ _).bind fun _ => (alike_load hR _).bind fun _ => alike_setRegister hR _ _) s t h
  | ser lo hi =>
    exact ((alike_getPair hR _ _).bind fun _ => (alike_getRegister hR _).bind fun _ => alike_store hR _ _) s t h
  | inc reg => exact alike_combine hR addBytes reg 1 s t h
  | dec reg => exact alike_combine hR subBytes reg 1 s t h
  | add dst src => exact ((alike_getRegister hR _).bind fun _ => alike_combine hR _ _ _) s t h
  | sub dst src => exact ((alike_getRegister hR _).bind fun _ => alike_combine hR _ _ _) s t h
  | mul dst src => exact ((alike_getRegister hR _).bind fun _ => alike_combine hR _ _ _) s t h
  | shl dst src =>
    exact ((alike_getRegister hR _).bind fun _ => (alike_getRegister hR _).bind fun _ => alike_setRegister hR _ _) s t h
  | shr dst src =>
    exact ((alike_getRegister hR _).bind fun _ => (alike_getRegister hR _).bind fun _ => alike_setRegister hR _ _) s t h
  | inl lo hi => exact alike_modifyPair hR _ _ _ s t h
  | del lo hi => exact alike_modifyPair hR _ _ _ s t h
  | hlt => exact .ok (hR.withHalting h)

end Faults

theorem alike_fetchInstruction : Alike R (fun _ => True) fetchInstruction fetchInstruction := by
  have hfetch : Alike R (fun _ => True) fetch fetch := alike_fetch hR fun _ => trivial
  refine hfetch.bind fun code => ?_
  cases Opcode.ofCode? code with
  | none => exact alike_throw trivial
  | some op =>
    refine (alike_count hR _).bind fun _ => ?_
    cases op.form with
    | nullary i => exact alike_pure i
    | unary f => exact hfetch.bind fun _ => alike_pure _
    | binary f => exact hfetch.bind fun _ => hfetch.bind fun _ => alike_pure _

end Parts

theorem execute_alike (hR : Likeness R) (hcauses : ∀ address, causes (.outOfRange address)) (i : Instruction) :
    Alike R causes (execute i) (execute i) :=
  fun _ _ h => execute_alike_of_popped hR.semblance hcauses i h fun _ _ => by rw [hR.memory h]

theorem cycle_alike (hR : Likeness R) : Alike R (fun _ => True) cycle cycle :=
  (alike_fetchInstruction hR.semblance).bind fun i => execute_alike hR (fun _ => trivial) i

/-- a board is like itself -/
theorem likeness_eq : Likeness (Eq : Board σ → Board σ → Prop) where
  registers := by rintro s _ rfl; rfl
  memory := by rintro s _ rfl; rfl
  profile := by rintro s _ rfl; rfl
  withRegisters := by rintro s _ rfl registers; rfl
  withMemory := by rintro s _ rfl memory; rfl
  withProfile := by rintro s _ rfl profile; rfl
  withHalting := by rintro s _ rfl; rfl
  answer := by rintro s _ rfl offset; rfl
  read := by rintro s _ rfl offset; rfl
  write := by rintro s _ rfl offset value; rfl

theorem cause_of_execute {i : Instruction} {board board' : Board σ} {cause : Fault.Cause}
    (h : (execute i).run board = .error cause board') : ∃ address, cause = .outOfRange address := by
  have hsame : SameEnd Eq (fun cause => ∃ address, cause = .outOfRange address) ((execute i).run board)
      ((execute i).run board) := execute_alike likeness_eq (fun address => ⟨address, rfl⟩) i board board rfl
  rw [h] at hsame
  cases hsame with
  | error hcause _ => exact hcause

end Exec

/-! ## Ends of steps -/

/-- steps come to the same if their cycles do, and related boards stop alike -/
theorem SameEnd.conclude {R : Board σ → Board τ → Prop} {causes : Fault.Cause → Prop}
    {ends : EStateM.Result Fault.Cause (Board σ) Unit} {ends' : EStateM.Result Fault.Cause (Board τ) Unit}
    (h : SameEnd R causes ends ends') (start : Word)
    (hhalting : ∀ {s t}, R s t → s.machine.halting = t.machine.halting)
    (hstopped : ∀ {s t}, R s t → ∀ halting,
      R ⟨{ s.machine with halting, stopped := true }, s.device⟩ ⟨{ t.machine with halting, stopped := true }, t.device⟩) :
    (Board.conclude start ends).1 = (Board.conclude start ends').1 ∧
      R (Board.conclude start ends).2 (Board.conclude start ends').2 := by
  cases h with
  | @ok _ s t h =>
    have hboth := hhalting h
    by_cases hhalts : s.machine.halting = true
    · rw [Board.conclude, Board.conclude, if_pos hhalts, if_pos (hboth ▸ hhalts)]
      exact ⟨rfl, hstopped h false⟩
    · rw [Board.conclude, Board.conclude, if_neg hhalts, if_neg (hboth ▸ hhalts)]
      exact ⟨rfl, h⟩
  | @error _ s t _ h =>
    have hfailed := hstopped h s.machine.halting
    nth_rewrite 2 [hhalting h] at hfailed
    exact ⟨rfl, hfailed⟩

/-! ## Maps between devices -/

/-- a map between devices that answer every read alike, and are mapped to each other after every access -/
structure DeviceMap [Device σ] [Device τ] (f : σ → τ) : Prop where
  read : ∀ device offset, Device.read (f device) offset = (Device.read device offset).map id f
  write : ∀ device offset value, Device.write (f device) offset value = f (Device.write device offset value)

def Board.mapDevice (f : σ → τ) (board : Board σ) : Board τ := ⟨board.machine, f board.device⟩

namespace DeviceMap

variable [Device σ] [Device τ] {f : σ → τ}

theorem likeness (hf : DeviceMap f) : Likeness fun (s : Board σ) (t : Board τ) => s.mapDevice f = t where
  registers := by rintro s _ rfl; rfl
  memory := by rintro s _ rfl; rfl
  profile := by rintro s _ rfl; rfl
  withRegisters := by rintro s _ rfl registers; rfl
  withMemory := by rintro s _ rfl memory; rfl
  withProfile := by rintro s _ rfl profile; rfl
  withHalting := by rintro s _ rfl; rfl
  answer := by
    rintro s _ rfl offset
    exact (congrArg Prod.fst (hf.read s.device offset)).symm
  read := by
    rintro s _ rfl offset
    exact congrArg (Board.mk s.machine) (congrArg Prod.snd (hf.read s.device offset)).symm
  write := by
    rintro s _ rfl offset value
    exact congrArg (Board.mk s.machine) (hf.write s.device offset value).symm

/-- no step tells a device from the one that it is mapped to -/
theorem step (hf : DeviceMap f) (board : Board σ) :
    (board.mapDevice f).step = board.step.map id (Board.mapDevice f) := by
  have hsame := Exec.cycle_alike hf.likeness board.awake (board.mapDevice f).awake rfl
  obtain ⟨hresult, hboard⟩ := hsame.conclude board.awake.machine.registers.ip
    (by rintro s _ rfl; rfl) (by rintro s _ rfl halting; rfl)
  rw [Board.step_eq, Board.step_eq]
  exact Prod.ext hresult.symm hboard.symm

end DeviceMap

end ByteMachine
