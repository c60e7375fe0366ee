/-
Forecasts. Where the registers and some bytes in memory are known, and the device answers every read with zero, a machine
can be followed without the rest of the board. A forecast is a computation that does so. It gives up where it needs a byte
that is not known, where it would write a byte that has to stay as it is, and where the machine would come to a fault.

- `Known.Of`: what is known holds of a board.
- `Forecast.Foretells`: what a forecast comes to, the machine comes to on every board of which that holds.
- `Forecast.foretells_execute`: so it is with every instruction.
-/
import Mathlib.Tactic
import ByteMachine.Proofs.Execution.Primitives

namespace ByteMachine

variable {σ : Type}

/-! ## What is known -/

/-- what is known of a board: the registers, whether its machine is about to stop, and the bytes that were written to
memory, the last one first -/
structure Known where
  registers : Registers
  halting : Bool
  written : List (Word × Byte)
  deriving DecidableEq

/-- devices that answer every read with zero, whatever was done with them before -/
structure Device.Mute [Device σ] (mute : σ → Prop) : Prop where
  answer : ∀ {device}, mute device → ∀ offset, (read device offset).1 = 0
  read : ∀ {device}, mute device → ∀ offset, mute (Device.read device offset).2
  write : ∀ {device}, mute device → ∀ offset value, mute (Device.write device offset value)

namespace Known

variable {kept : Word → Option Byte} {mute : σ → Prop} {known : Known} {board : Board σ}

/-- the same without what was written at an address -/
def forget (known : Known) (address : Word) : Known :=
  { known with written := known.written.filter (·.1 ≠ address) }

/-- this is known of a board that is going, where the bytes in `kept` are in memory, too, and the device is mute -/
structure Of (kept : Word → Option Byte) (mute : σ → Prop) (known : Known) (board : Board σ) : Prop where
  registers : board.machine.registers = known.registers
  halting : board.machine.halting = known.halting
  going : board.machine.stopped = false
  kept : ∀ {address value}, kept address = some value → board.machine.memory.read address = value
  written : ∀ {address value}, known.written.lookup address = some value → board.machine.memory.read address = value
  mute : mute board.device

theorem Of.withRegisters (h : known.Of kept mute board) (registers : Registers) :
    { known with registers }.Of kept mute (board.withRegisters registers) :=
  ⟨rfl, h.halting, h.going, h.kept, h.written, h.mute⟩

theorem Of.withHalting (h : known.Of kept mute board) :
    { known with halting := true }.Of kept mute board.withHalting :=
  ⟨h.registers, rfl, h.going, h.kept, h.written, h.mute⟩

theorem Of.withDevice (h : known.Of kept mute board) {device : σ} (hdevice : mute device) :
    known.Of kept mute (board.withDevice device) :=
  ⟨h.registers, h.halting, h.going, h.kept, h.written, hdevice⟩

theorem lookup_forget (written : List (Word × Byte)) (address other : Word) :
    (written.filter (·.1 ≠ address)).lookup other = if other = address then none else written.lookup other := by
  induction written with
  | nil => simp
  | cons entry entries ih =>
    rw [List.filter_cons, List.lookup_cons]
    by_cases hentry : entry.1 = address
    · rw [if_neg (by simpa using hentry), ih]
      split_ifs with hother
      · rfl
      · rw [beq_false_of_ne (by rw [hentry]; exact hother)]
    · rw [if_pos (by simpa using hentry), List.lookup_cons, ih]
      grind

theorem Of.forget (h : known.Of kept mute board) (address : Word) : (known.forget address).Of kept mute board := by
  refine ⟨h.registers, h.halting, h.going, h.kept, fun hlookup => h.written ?_, h.mute⟩
  rw [Known.forget, lookup_forget, Option.ite_none_left_eq_some] at hlookup
  exact hlookup.2

/-- a byte written where none has to stay as it is -/
theorem Of.withWritten (h : known.Of kept mute board) {address : Word} (hfree : kept address = none) (value : Byte) :
    { known with written := (address, value) :: known.written }.Of kept mute
      (board.withMemory (board.machine.memory.write address value)) := by
  refine ⟨h.registers, h.halting, h.going, ?_, ?_, h.mute⟩
  · intro other kept hkept
    have hother : other ≠ address := by
      rintro rfl
      rw [hfree] at hkept
      cases hkept
    rw [Board.withMemory, Memory.read_write, if_neg hother]
    exact h.kept hkept
  · intro other last hlast
    rw [Board.withMemory, Memory.read_write]
    by_cases hother : other = address
    · rw [hother, List.lookup_cons_self] at hlast
      rw [if_pos hother]
      exact Option.some.inj hlast
    · rw [List.lookup_cons, beq_false_of_ne hother] at hlast
      rw [if_neg hother]
      exact h.written hlast

end Known

/-! ## Forecasts -/

abbrev Forecast := StateT Known Option

namespace Forecast

/-! ### Registers -/

def registers : Forecast Registers := return (← get).registers

def modifyRegisters (f : Registers → Registers) : Forecast Unit :=
  modify fun known => { known with registers := f known.registers }

def getRegister (i : Byte) : Forecast Byte := return (← registers).get i

def setRegister (i value : Byte) : Forecast Unit := modifyRegisters (·.set i value)

def getPair (low high : Byte) : Forecast Word := return (← registers).pair low high

def jump (target : Word) : Forecast Unit := modifyRegisters (·.jump target)

def jumpIf (condition : Bool) (low high : Byte) : Forecast Unit :=
  if condition then jump (Word.ofBytes low high) else pure ()

def combine (op : Byte → Byte → Byte × Bool) (dst y : Byte) : Forecast Unit := do
  let (result, carry) := op (← getRegister dst) y
  modifyRegisters ({ · with zero := result = 0, carry })
  setRegister dst result

def modifyPair (low high : Byte) (f : Word → Word) : Forecast Unit := do
  let value := f (← getPair low high)
  modifyRegisters (·.setPair low high value)

/-- a computed address; there is no forecast of a fault -/
def checkAddress (address : Int) : Forecast Word :=
  if 0 ≤ address ∧ address < Memory.size then pure (UInt16.ofNat address.toNat) else failure

def moveStack (distance : Int) : Forecast Unit := do
  let sp ← checkAddress ((← registers).sp.toNat + distance)
  modifyRegisters ({ · with sp })

def frameSlot (offset : Byte) : Forecast Word := do
  checkAddress ((← registers).sp.toNat - offset.toNat - 1)

section Memory

variable (kept : Word → Option Byte)

/-! ### Memory -/

/-- the byte in memory, if it is known -/
def byteAt (address : Word) : Forecast Byte := do
  match kept address <|> (← get).written.lookup address with
  | some value => return value
  | none => failure

/-- put a byte into memory, unless the one there has to stay -/
def putByte (address : Word) (value : Byte) : Forecast Unit :=
  match kept address with
  | some _ => failure
  | none => modify fun known => { known with written := (address, value) :: known.written }

def load (address : Word) : Forecast Byte :=
  if InWindow address then pure 0 else byteAt kept address

def store (address : Word) (value : Byte) : Forecast Unit :=
  if InWindow address then pure () else putByte kept address value

def push (value : Byte) : Forecast Unit := do
  let sp := (← registers).sp
  if sp = 0xffff then failure
  else
    putByte kept sp value
    modifyRegisters ({ · with sp := sp + 1 })

/-- what was popped is of no use any more, so it is forgotten -/
def pop : Forecast Byte := do
  let sp := (← registers).sp
  if sp = 0 then failure
  else
    modifyRegisters ({ · with sp := sp - 1 })
    let value ← byteAt kept (sp - 1)
    modify (·.forget (sp - 1))
    return value

def call (target : Word) : Forecast Unit := do
  let back := (← registers).ip
  push kept (Word.low back)
  push kept (Word.high back)
  jump target

/-! ### Instructions -/

open Exec in
/-- what an instruction does to what is known; the instruction pointer is past its bytes already -/
def execute : Instruction → Forecast Unit
  | .num reg value => setRegister reg value
  | .mov dst src => do setRegister dst (← getRegister src)
  | .jmp lo hi => jump (Word.ofBytes lo hi)
  | .jin lo hi => do jump (← getPair lo hi)
  | .jiz lo hi => do jumpIf (← registers).zero lo hi
  | .jnz lo hi => do jumpIf (!(← registers).zero) lo hi
  | .jic lo hi => do jumpIf (← registers).carry lo hi
  | .jnc lo hi => do jumpIf (!(← registers).carry) lo hi
  | .clc lo hi => call kept (Word.ofBytes lo hi)
  | .clr lo hi => do call kept (← getPair lo hi)
  | .ret => do
    let high ← pop kept
    let low ← pop kept
    jump (Word.ofBytes low high)
  | .alc size => moveStack size.toNat
  | .eat size => moveStack (-size.toNat)
  | .ofg reg offset => do
    let value ← load kept (← frameSlot offset)
    setRegister reg value
  | .ofs reg offset => do
    let address ← frameSlot offset
    store kept address (← getRegister reg)
  | .pop reg => do setRegister reg (← pop kept)
  | .psh reg => do push kept (← getRegister reg)
  | .gec lo hi => do setRegister memoryRegister (← load kept (Word.ofBytes lo hi))
  | .sec lo hi => do store kept (Word.ofBytes lo hi) (← getRegister memoryRegister)
  | .ger lo hi => do setRegister memoryRegister (← load kept (← getPair lo hi))
  | .ser lo hi => do store kept (← getPair lo hi) (← getRegister memoryRegister)
  | .inc reg => combine addBytes reg 1
  | .dec reg => combine subBytes reg 1
  | .add dst src => do combine addBytes dst (← getRegister src)
  | .sub dst src => do combine subBytes dst (← getRegister src)
  | .mul dst src => do combine mulBytes dst (← getRegister src)
  | .shl dst src => do setRegister dst (shiftLeft (← getRegister dst) (← getRegister src))
  | .shr dst src => do setRegister dst (shiftRight (← getRegister dst) (← getRegister src))
  | .inl lo hi => modifyPair lo hi (· + 1)
  | .del lo hi => modifyPair lo hi (· - 1)
  | .hlt => modify fun known => { known with halting := true }

end Memory

/-! ## Foretelling -/

/-- what the forecast comes to, the computation comes to on every board of which this is known -/
def Foretells (kept : Word → Option Byte) (mute : σ → Prop) {α : Type} (y : Forecast α) (x : Exec σ α) : Prop :=
  ∀ known board, known.Of kept mute board → ∀ value next, y.run known = some (value, next) →
    ∃ after, x.run board = .ok value after ∧ next.Of kept mute after

variable {kept : Word → Option Byte} {mute : σ → Prop} {α β : Type}

theorem foretells_pure (value : α) : Foretells kept mute (pure value) (pure value : Exec σ α) := by
  rintro known board hknown _ _ ⟨⟩
  exact ⟨board, rfl, hknown⟩

theorem foretells_failure (x : Exec σ α) : Foretells kept mute failure x := fun _ _ _ _ _ => nofun

theorem Foretells.bind {y : Forecast α} {x : Exec σ α} {g : α → Forecast β} {f : α → Exec σ β}
    (hx : Foretells kept mute y x) (hf : ∀ value, Foretells kept mute (g value) (f value)) :
    Foretells kept mute (y >>= g) (x >>= f) := by
  intro known board hknown value next hrun
  rw [StateT.run_bind, Option.bind_eq_bind, Option.bind_eq_some_iff] at hrun
  obtain ⟨⟨first, between⟩, hfirst, hrest⟩ := hrun
  obtain ⟨mid, hmid, hbetween⟩ := hx known board hknown first between hfirst
  obtain ⟨after, hafter, hnext⟩ := hf first between mid hbetween value next hrest
  exact ⟨after, by rw [Exec.run_bind_of_ok hmid, hafter], hnext⟩

theorem Foretells.ite {condition : Prop} [Decidable condition] {y y' : Forecast α} {x x' : Exec σ α}
    (h : Foretells kept mute y x) (h' : Foretells kept mute y' x') :
    Foretells kept mute (if condition then y else y') (if condition then x else x') := by
  by_cases hcondition : condition
  · rw [if_pos hcondition, if_pos hcondition]
    exact h
  · rw [if_neg hcondition, if_neg hcondition]
    exact h'

/-! ### Registers -/

theorem foretells_registers : Foretells kept mute registers (Exec.registers : Exec σ Registers) := by
  rintro known board hknown _ _ ⟨⟩
  exact ⟨board, by rw [Exec.run_registers, hknown.registers], hknown⟩

theorem foretells_modifyRegisters (f : Registers → Registers) :
    Foretells kept mute (modifyRegisters f) (Exec.modifyRegisters f : Exec σ Unit) := by
  rintro known board hknown _ _ ⟨⟩
  refine ⟨_, Exec.run_modifyRegisters f board, ?_⟩
  rw [hknown.registers]
  exact hknown.withRegisters _

theorem foretells_getRegister (i : Byte) :
    Foretells kept mute (getRegister i) (Exec.getRegister i : Exec σ Byte) :=
  foretells_registers.bind fun _ => foretells_pure _

theorem foretells_setRegister (i value : Byte) :
    Foretells kept mute (setRegister i value) (Exec.setRegister i value : Exec σ Unit) :=
  foretells_modifyRegisters _

theorem foretells_getPair (low high : Byte) :
    Foretells kept mute (getPair low high) (Exec.getPair low high : Exec σ Word) :=
  foretells_registers.bind fun _ => foretells_pure _

theorem foretells_jump (target : Word) : Foretells kept mute (jump target) (Exec.jump target : Exec σ Unit) :=
  foretells_modifyRegisters _

theorem foretells_jumpIf (condition : Bool) (low high : Byte) :
    Foretells kept mute (jumpIf condition low high) (Exec.jumpIf condition low high : Exec σ Unit) :=
  .ite (foretells_jump _) (foretells_pure _)

theorem foretells_combine (op : Byte → Byte → Byte × Bool) (dst y : Byte) :
    Foretells kept mute (combine op dst y) (Exec.combine op dst y : Exec σ Unit) :=
  (foretells_getRegister dst).bind fun _ => (foretells_modifyRegisters _).bind fun _ => foretells_setRegister _ _

theorem foretells_modifyPair (low high : Byte) (f : Word → Word) :
    Foretells kept mute (modifyPair low high f) (Exec.modifyPair low high f : Exec σ Unit) :=
  (foretells_getPair low high).bind fun _ => foretells_modifyRegisters _

theorem foretells_checkAddress (address : Int) :
    Foretells kept mute (checkAddress address) (Exec.checkAddress address : Exec σ Word) :=
  .ite (foretells_pure _) (foretells_failure _)

theorem foretells_moveStack (distance : Int) :
    Foretells kept mute (moveStack distance) (Exec.moveStack distance : Exec σ Unit) :=
  foretells_registers.bind fun _ => (foretells_checkAddress _).bind fun _ => foretells_modifyRegisters _

theorem foretells_frameSlot (offset : Byte) :
    Foretells kept mute (frameSlot offset) (Exec.frameSlot offset : Exec σ Word) :=
  foretells_registers.bind fun _ => foretells_checkAddress _

/-! ### Memory -/

theorem run_byteAt (kept : Word → Option Byte) (address : Word) (known : Known) :
    (byteAt kept address).run known = (kept address <|> known.written.lookup address).map (·, known) := by
  rw [byteAt, StateT.run_bind, StateT.run_get, pure_bind]
  cases kept address <|> known.written.lookup address <;> rfl

theorem foretells_byteAt (address : Word) :
    Foretells kept mute (byteAt kept address)
      (do return (← get).machine.memory.read address : Exec σ Byte) := by
  intro known board hknown value next hrun
  rw [run_byteAt, Option.map_eq_some_iff] at hrun
  obtain ⟨found, hfound, ⟨⟩⟩ := hrun
  have hread : board.machine.memory.read address = value := by
    rcases (Option.orElse_eq_some _ _ _).1 hfound with hkept | ⟨-, hwritten⟩
    · exact hknown.kept hkept
    · exact hknown.written hwritten
  exact ⟨board, by rw [← hread]; rfl, hknown⟩

theorem foretells_putByte (address : Word) (value : Byte) :
    Foretells kept mute (putByte kept address value)
      (modify fun board => board.withMemory (board.machine.memory.write address value) : Exec σ Unit) := by
  rw [putByte]
  cases hkept : kept address with
  | some _ => exact foretells_failure _
  | none =>
    rintro known board hknown _ _ ⟨⟩
    exact ⟨_, rfl, hknown.withWritten hkept value⟩

theorem run_push {known : Known} (hroom : known.registers.sp ≠ 0xffff) (hfree : kept known.registers.sp = none)
    (value : Byte) :
    (push kept value).run known =
      some ((), ⟨{ known.registers with sp := known.registers.sp + 1 }, known.halting,
        (known.registers.sp, value) :: known.written⟩) := by
  have hpush : (push kept value).run known =
      (if known.registers.sp = 0xffff then failure
        else putByte kept known.registers.sp value >>= fun _ =>
          modifyRegisters ({ · with sp := known.registers.sp + 1 })).run known := rfl
  rw [hpush, if_neg hroom, putByte, hfree]
  rfl

theorem run_pop {known : Known} (hsome : known.registers.sp ≠ 0) {value : Byte}
    (hvalue : (kept (known.registers.sp - 1) <|> known.written.lookup (known.registers.sp - 1)) = some value) :
    (pop kept).run known =
      some (value, { known with registers := { known.registers with sp := known.registers.sp - 1 } }.forget
        (known.registers.sp - 1)) := by
  have hpop : (pop kept).run known =
      (if known.registers.sp = 0 then failure
        else modifyRegisters ({ · with sp := known.registers.sp - 1 }) >>= fun _ =>
          byteAt kept (known.registers.sp - 1) >>= fun value =>
            modify (·.forget (known.registers.sp - 1)) >>= fun _ => pure value).run known := rfl
  have hread := run_byteAt kept (known.registers.sp - 1)
    { known with registers := { known.registers with sp := known.registers.sp - 1 } }
  rw [hvalue] at hread
  rw [hpop, if_neg hsome, StateT.run_bind]
  show ((byteAt kept (known.registers.sp - 1)).run _).bind _ = _
  rw [hread]
  rfl

theorem foretells_push (value : Byte) : Foretells kept mute (push kept value) (Exec.push value : Exec σ Unit) := by
  intro known board hknown _ next hrun
  have hrun : (if known.registers.sp = 0xffff then failure
      else putByte kept known.registers.sp value >>= fun _ =>
        modifyRegisters ({ · with sp := known.registers.sp + 1 })).run known = some ((), next) := hrun
  split_ifs at hrun with hlast
  · cases hrun
  · rw [← hknown.registers] at hrun hlast
    obtain ⟨after, hafter, hnext⟩ :=
      (foretells_putByte _ _).bind (fun _ => foretells_modifyRegisters _) known board hknown () next hrun
    exact ⟨after, (Exec.run_push_of_ne hlast value).trans hafter, hnext⟩

theorem foretells_forget (address : Word) (value : α) :
    Foretells kept mute (modify (·.forget address) >>= fun _ => pure value) (pure value : Exec σ α) := by
  rintro known board hknown _ _ ⟨⟩
  exact ⟨board, rfl, hknown.forget address⟩

theorem foretells_pop : Foretells kept mute (pop kept) (Exec.pop : Exec σ Byte) := by
  intro known board hknown value next hrun
  have hrun : (if known.registers.sp = 0 then failure
      else modifyRegisters ({ · with sp := known.registers.sp - 1 }) >>= fun _ =>
        byteAt kept (known.registers.sp - 1) >>= fun value =>
          modify (·.forget (known.registers.sp - 1)) >>= fun _ => pure value).run known = some (value, next) := hrun
  split_ifs at hrun with hfirst
  · cases hrun
  · rw [← hknown.registers] at hrun hfirst
    obtain ⟨after, hafter, hnext⟩ := (foretells_modifyRegisters _).bind
      (fun _ => (foretells_byteAt _).bind fun value => foretells_forget _ value) known board hknown value next hrun
    rw [bind_pure] at hafter
    exact ⟨after, (Exec.run_pop_of_ne hfirst).trans hafter, hnext⟩

theorem foretells_call (target : Word) : Foretells kept mute (call kept target) (Exec.call target : Exec σ Unit) :=
  foretells_registers.bind fun _ => (foretells_push _).bind fun _ => (foretells_push _).bind fun _ => foretells_jump _

section Window

variable [Device σ] (hmute : Device.Mute mute)

include hmute

theorem foretells_load (address : Word) :
    Foretells kept mute (load kept address) (Exec.load address : Exec σ Byte) := by
  intro known board hknown value next hrun
  by_cases hwindow : InWindow address
  · rw [load, if_pos hwindow] at hrun
    cases hrun
    rw [Exec.run_load_of_window hwindow, hmute.answer hknown.mute]
    exact ⟨_, rfl, hknown.withDevice (hmute.read hknown.mute _)⟩
  · rw [load, if_neg hwindow] at hrun
    rw [Exec.run_load_of_memory hwindow]
    exact foretells_byteAt address known board hknown value next hrun

theorem foretells_store (address : Word) (value : Byte) :
    Foretells kept mute (store kept address value) (Exec.store address value : Exec σ Unit) := by
  intro known board hknown _ next hrun
  by_cases hwindow : InWindow address
  · rw [store, if_pos hwindow] at hrun
    cases hrun
    rw [Exec.run_store_of_window hwindow]
    exact ⟨_, rfl, hknown.withDevice (hmute.write hknown.mute _ _)⟩
  · rw [store, if_neg hwindow] at hrun
    rw [Exec.run_store_of_memory hwindow]
    exact foretells_putByte address value known board hknown _ next hrun

/-! ### Instructions -/

/-- **Every instruction is foretold,** if its forecast does not give up. -/
theorem foretells_execute (i : Instruction) :
    Foretells kept mute (execute kept i) (ByteMachine.execute i : Exec σ Unit) := by
  cases i with
  | num reg value => exact foretells_setRegister _ _
  | mov dst src => exact (foretells_getRegister _).bind fun _ => foretells_setRegister _ _
  | jmp lo hi => exact foretells_jump _
  | jin lo hi => exact (foretells_getPair _ _).bind fun _ => foretells_jump _
  | jiz lo hi => exact foretells_registers.bind fun _ => foretells_jumpIf _ _ _
  | jnz lo hi => exact foretells_registers.bind fun _ => foretells_jumpIf _ _ _
  | jic lo hi => exact foretells_registers.bind fun _ => foretells_jumpIf _ _ _
  | jnc lo hi => exact foretells_registers.bind fun _ => foretells_jumpIf _ _ _
  | clc lo hi => exact foretells_call _
  | clr lo hi => exact (foretells_getPair _ _).bind fun _ => foretells_call _
  | ret => exact foretells_pop.bind fun _ => foretells_pop.bind fun _ => foretells_jump _
  | alc size => exact foretells_moveStack _
  | eat size => exact foretells_moveStack _
  | ofg reg offset =>
    exact (foretells_frameSlot _).bind fun _ => (foretells_load hmute _).bind fun _ => foretells_setRegister _ _
  | ofs reg offset =>
    exact (foretells_frameSlot _).bind fun _ => (foretells_getRegister _).bind fun _ => foretells_store hmute _ _
  | pop reg => exact foretells_pop.bind fun _ => foretells_setRegister _ _
  | psh reg => exact (foretells_getRegister _).bind fun _ => foretells_push _
  | gec lo hi => exact (foretells_load hmute _).bind fun _ => foretells_setRegister _ _
  | sec lo hi => exact (foretells_getRegister _).bind fun _ => foretells_store hmute _ _
  | ger lo hi =>
    exact (foretells_getPair _ _).bind fun _ => (foretells_load hmute _).bind fun _ => foretells_setRegister _ _
  | ser lo hi =>
    exact (foretells_getPair _ _).bind fun _ => (foretells_getRegister _).bind fun _ => foretells_store hmute _ _
  | inc reg => exact foretells_combine Exec.addBytes reg 1
  | dec reg => exact foretells_combine Exec.subBytes reg 1
  | add dst src => exact (foretells_getRegister _).bind fun _ => foretells_combine _ _ _
  | sub dst src => exact (foretells_getRegister _).bind fun _ => foretells_combine _ _ _
  | mul dst src => exact (foretells_getRegister _).bind fun _ => foretells_combine _ _ _
  | shl dst src =>
    exact (foretells_getRegister _).bind fun _ => (foretells_getRegister _).bind fun _ => foretells_setRegister _ _
  | shr dst src =>
    exact (foretells_getRegister _).bind fun _ => (foretells_getRegister _).bind fun _ => foretells_setRegister _ _
  | inl lo hi => exact foretells_modifyPair _ _ _
  | del lo hi => exact foretells_modifyPair _ _ _
  | hlt =>
    rintro known board hknown _ _ ⟨⟩
    exact ⟨_, rfl, hknown.withHalting⟩

end Window

end Forecast

end ByteMachine
