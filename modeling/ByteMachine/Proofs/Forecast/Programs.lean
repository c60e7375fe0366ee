/-
Programs followed by forecasts. A program that does not write over itself can be followed from its bytes alone: each step
of the forecast is one of the machine. Whatever leads the forecast to the instruction that stops the machine, so does the
machine come to it, on every board on which the program lies; and then it can be run again.

- `Known.of_next?`: a step of the forecast is a step of the machine.
- `Known.Halts.endsAfter`: a forecast that comes to a stop is right about it.
- `Program.Ends.run`: a program that always comes to a stop can be run again and again.
-/
import Mathlib.Tactic
import ByteMachine.Proofs.Forecast.Moves
import ByteMachine.Proofs.Listing.Chunks
import ByteMachine.Proofs.Execution.Fetch
import ByteMachine.Proofs.Loading.Programs
import ByteMachine.Proofs.Running.Steps

namespace ByteMachine

variable {σ : Type}

/-! ## Programs -/

/-- a program in memory, between its entry point and the window -/
structure Program where
  start : Word
  image : List Byte
  beyond : 2 ≤ start.toNat
  below : start.toNat + image.length ≤ windowStart.toNat

namespace Program

variable {program : Program}

/-- the bytes that lie in memory for the program: its entry point and its image -/
def byte? (program : Program) (address : Word) : Option Byte :=
  Memory.imageByte? Machine.entryAddress [Word.low program.start, Word.high program.start] address <|>
    Memory.imageByte? program.start program.image address

def instruction? (program : Program) (address : Word) : Option Instruction :=
  if program.start.toNat ≤ address.toNat then
    match program.image.drop (address.toNat - program.start.toNat) with
    | [] => none
    | code :: rest => (Instruction.decode? code rest).map (·.1)
  else none

/-- the bytes of the image are those of the program -/
theorem byte?_of_lt {i : Nat} (hi : i < program.image.length) :
    program.byte? (UInt16.ofNat (program.start.toNat + i)) = some program.image[i] := by
  have hbeyond := program.beyond
  have hbelow := program.below
  have haddress : (UInt16.ofNat (program.start.toNat + i)).toNat = program.start.toNat + i :=
    UInt16.toNat_ofNat_of_lt' (by
      have hwindow : windowStart.toNat ≤ UInt16.size := by decide
      omega)
  have hentry := @Memory.imageByte?_of_outside Machine.entryAddress (UInt16.ofNat (program.start.toNat + i))
    [Word.low program.start, Word.high program.start] (.inr (by
      rw [haddress, show Machine.entryAddress.toNat = 0 from rfl, List.length_cons, List.length_singleton]
      omega))
  rw [byte?, hentry]
  show Memory.imageByte? program.start program.image _ = _
  rw [Memory.imageByte?, if_pos (UInt16.le_iff_toNat_le.2 (by omega)), haddress, Nat.add_sub_cancel_left,
    List.getElem?_eq_getElem hi]

theorem exists_of_instruction? {address : Word} {i : Instruction} (h : program.instruction? address = some i) :
    ∃ before after, program.image = before ++ i.encode ++ after ∧
      address.toNat = program.start.toNat + before.length := by
  rw [instruction?, Option.ite_none_right_eq_some] at h
  obtain ⟨hstart, h⟩ := h
  cases hrest : program.image.drop (address.toNat - program.start.toNat) with
  | nil => simp [hrest] at h
  | cons code rest =>
    simp only [hrest, Option.map_eq_some_iff] at h
    obtain ⟨⟨_, after⟩, hdecode, rfl⟩ := h
    have hlt : address.toNat - program.start.toNat < program.image.length := by
      by_contra hge
      rw [List.drop_eq_nil_of_le (Nat.not_lt.1 hge)] at hrest
      cases hrest
    refine ⟨program.image.take (address.toNat - program.start.toNat), after, ?_, ?_⟩
    · rw [List.append_assoc, Instruction.encode_append_of_decode? hdecode, ← hrest, List.take_append_drop]
    · rw [List.length_take]
      omega

end Program

/-! ## Steps -/

namespace Known

def past (known : Known) (count : Nat) : Known :=
  { known with registers := { known.registers with ip := known.registers.ip + UInt16.ofNat count } }

/-- the next step of a program: whether it stops the machine, and what is known after it -/
def next? (program : Program) (known : Known) : Option (Exit × Known) :=
  if known.registers.pastEnd then none
  else do
    let i ← program.instruction? known.registers.ip
    let (_, next) ← (Forecast.execute program.byte? i).run (known.past i.encode.length)
    return (if next.halting then .halted else .paused, next)

section Step

variable {program : Program} {mute : σ → Prop} {known next : Known} {board : Board σ} {i : Instruction}

/-- programs see the instruction that the image has where the machine is -/
theorem Of.shows (h : known.Of program.byte? mute board)
    (hnext : program.instruction? known.registers.ip = some i) :
    known.registers.ip.toNat + i.encode.length ≤ windowStart.toNat ∧
      board.machine.memory.Shows known.registers.ip.toNat i.encode := by
  obtain ⟨before, after, himage, hip⟩ := Program.exists_of_instruction? hnext
  have hbelow := program.below
  have hwindow : windowStart.toNat < UInt16.size := by decide
  have hlength := congrArg List.length himage
  rw [List.length_append, List.length_append] at hlength
  refine ⟨by omega, ?_, ?_⟩
  · intro j hj
    have hplace : before.length + j < program.image.length := by omega
    have hbyte := h.kept (Program.byte?_of_lt hplace)
    rw [← Nat.add_assoc, ← hip] at hbyte
    rw [hbyte]
    simp only [himage]
    rw [List.getElem_append_left (by rw [List.length_append]; omega), List.getElem_append_right (by omega)]
    simp only [Nat.add_sub_cancel_left]
  · intro j hj hinside
    have haddress : (UInt16.ofNat (known.registers.ip.toNat + j)).toNat = known.registers.ip.toNat + j :=
      UInt16.toNat_ofNat_of_lt' (by omega)
    have hfirst := UInt16.le_iff_toNat_le.1 hinside.1
    omega

/-- what is known when the instruction is executed -/
theorem Of.entered (h : known.Of program.byte? mute board) (hpast : known.registers.pastEnd = false)
    (hroom : known.registers.ip.toNat + i.encode.length < Memory.size) :
    (known.past i.encode.length).Of program.byte? mute (board.entered i) := by
  have hregisters : (board.entered i).machine.registers = (known.past i.encode.length).registers := by
    have hend : decide (known.registers.ip.toNat + i.encode.length = Memory.size) = known.registers.pastEnd := by
      rw [hpast]
      exact decide_eq_false (Nat.ne_of_lt hroom)
    have hentered : (board.entered i).machine.registers =
        { board.machine.registers with
          ip := board.machine.registers.ip + UInt16.ofNat i.encode.length
          pastEnd := decide (board.machine.registers.ip.toNat + i.encode.length = Memory.size) } := rfl
    rw [hentered, h.registers, hend]
    rfl
  exact ⟨hregisters, h.halting, h.going, h.kept, h.written, h.mute⟩

variable [Device σ] (hmute : Device.Mute mute)

include hmute

/-- **A step of the forecast is a step of the machine,** on every board of which this is known. -/
theorem of_next? (h : known.Of program.byte? mute board) {ending : Exit}
    (hnext : known.next? program = some (ending, next)) :
    ∃ after, next.Of program.byte? mute after ∧
      board.step = (.ok ending, if ending = .halted then after.stop else after) := by
  have hsize : windowStart.toNat < Memory.size := by decide
  rw [next?] at hnext
  split_ifs at hnext with hpast
  simp only [Option.bind_eq_bind, Option.bind_eq_some_iff] at hnext
  obtain ⟨i, hi, ⟨⟨⟩, last⟩, hrun, hending⟩ := hnext
  obtain ⟨rfl, rfl⟩ := Prod.mk.inj (Option.some.inj hending)
  obtain ⟨hroom, hshows⟩ := h.shows hi
  have hentered : (known.past i.encode.length).Of program.byte? mute (board.entered i) :=
    h.entered (Bool.eq_false_of_not_eq_true hpast) (by omega)
  obtain ⟨after, hexecute, hafter⟩ := Forecast.foretells_execute hmute i _ _ hentered _ _ hrun
  have hready : board.Ready known.registers.ip.toNat i.encode :=
    { going := h.going
      arrived := by rw [h.registers]
      within := by rw [h.registers]; exact Bool.eq_false_of_not_eq_true hpast
      shown := hshows }
  refine ⟨after, hafter, ?_⟩
  rw [hready.step_eq (by omega), hexecute, Board.conclude, hafter.halting]
  cases last.halting <;> rfl

theorem exists_paused_step (h : known.Of program.byte? mute board) (hnext : known.next? program = some (.paused, next)) :
    ∃ after, next.Of program.byte? mute after ∧ board.step = (.ok .paused, after) := by
  obtain ⟨after, hafter, hstep⟩ := of_next? hmute h hnext
  exact ⟨after, hafter, hstep.trans (by rw [if_neg nofun])⟩

theorem exists_halted_step (h : known.Of program.byte? mute board) (hnext : known.next? program = some (.halted, next)) :
    ∃ after, next.Of program.byte? mute after ∧ board.step = (.ok .halted, after.stop) := by
  obtain ⟨after, hafter, hstep⟩ := of_next? hmute h hnext
  exact ⟨after, hafter, hstep.trans (by rw [if_pos rfl])⟩

end Step

/-! ## Steps in a row -/

/-- steps that pause lead from the one to the other -/
def Comes (program : Program) : Known → Known → Prop :=
  Relation.ReflTransGen fun known next => known.next? program = some (.paused, next)

/-- steps lead to the one that stops the machine, after which `last` is known -/
def Halts (program : Program) (known last : Known) : Prop :=
  ∃ before, Comes program known before ∧ before.next? program = some (.halted, last)

/-- what is known after a number of steps, all of which must pause -/
def after? (program : Program) : (count : Nat) → Known → Option Known
  | 0, known => some known
  | count + 1, known =>
    match known.next? program with
    | some (.paused, next) => next.after? program count
    | _ => none

/-- what is known when the machine stops, if it does so within a number of steps -/
def end? (program : Program) : (count : Nat) → Known → Option Known
  | 0, _ => none
  | count + 1, known =>
    match known.next? program with
    | some (.paused, next) => next.end? program count
    | some (.halted, last) => some last
    | none => none

section Row

variable {program : Program} {known next last : Known}

theorem comes_of_next? (h : known.next? program = some (.paused, next)) : Comes program known next := .single h

theorem comes_of_after? {count : Nat} (h : known.after? program count = some next) : Comes program known next := by
  induction count generalizing known with
  | zero =>
    cases h
    exact .refl
  | succ count ih =>
    rw [after?] at h
    split at h
    case h_1 hnext => exact .head hnext (ih h)
    case h_2 => cases h

theorem Comes.trans (h : Comes program known next) (h' : Comes program next last) : Comes program known last :=
  Relation.ReflTransGen.trans h h'

theorem Comes.halts (h : Comes program known next) (hend : Halts program next last) : Halts program known last := by
  obtain ⟨before, hbefore, hlast⟩ := hend
  exact ⟨before, h.trans hbefore, hlast⟩

theorem halts_of_end? {count : Nat} (h : known.end? program count = some last) : Halts program known last := by
  induction count generalizing known with
  | zero => cases h
  | succ count ih =>
    rw [end?] at h
    split at h
    case h_1 hnext => exact (comes_of_next? hnext).halts (ih h)
    case h_2 hnext =>
      cases h
      exact ⟨known, .refl, hnext⟩
    case h_3 => cases h

variable {mute : σ → Prop} {board : Board σ} [Device σ] (hmute : Device.Mute mute)

include hmute

theorem Comes.exists_board (h : Comes program known next) (hknown : known.Of program.byte? mute board) :
    ∃ after, next.Of program.byte? mute after ∧
      ∀ {count outcome}, EndsAfter Board.step count after outcome →
        ∃ more, EndsAfter Board.step (count + more) board outcome := by
  induction h using Relation.ReflTransGen.head_induction_on generalizing board with
  | refl => exact ⟨board, hknown, fun hends => ⟨0, hends⟩⟩
  | head hfirst _ ih =>
    obtain ⟨second, hsecond, hstep⟩ := exists_paused_step hmute hknown hfirst
    obtain ⟨after, hafter, hrest⟩ := ih hsecond
    refine ⟨after, hafter, fun hends => ?_⟩
    obtain ⟨more, hmore⟩ := hrest hends
    exact ⟨more + 1, .next hstep hmore⟩

/-- **A forecast that comes to a stop is right about it.** -/
theorem Halts.endsAfter (h : Halts program known last) (hknown : known.Of program.byte? mute board) :
    ∃ count after, EndsAfter Board.step count board (.ok .halted, after.stop) ∧
      last.Of program.byte? mute after := by
  obtain ⟨before, hcomes, hlast⟩ := h
  obtain ⟨arrived, harrived, hends⟩ := hcomes.exists_board hmute hknown
  obtain ⟨after, hafter, hstep⟩ := exists_halted_step hmute harrived hlast
  have hone : EndsAfter Board.step 1 arrived (.ok .halted, after.stop) := by
    rw [← hstep]
    exact .last (by rw [hstep]; exact nofun)
  obtain ⟨more, hmore⟩ := hends hone
  exact ⟨1 + more, after, hmore, hafter⟩

end Row

end Known

/-! ## Programs that are run again -/

namespace Program

variable {program : Program} {mute : σ → Prop} {P : Registers → Prop}

/-- what is known of a program that starts with these registers -/
def starting (program : Program) (rs : Registers) : Known := ⟨rs.jump program.start, false, []⟩

/-- from registers with the property, the program comes to a stop, and leaves such registers -/
def Ends (program : Program) (P : Registers → Prop) : Prop :=
  ∀ rs, P rs → ∃ last, Known.Halts program (program.starting rs) last ∧ P last.registers

/-- a board that waits for the program to be run, with registers that have the property -/
structure Rests (program : Program) (mute : σ → Prop) (P : Registers → Prop) (board : Board σ) : Prop where
  stopped : board.machine.stopped = true
  notHalting : board.machine.halting = false
  registers : P board.machine.registers
  held : ∀ {address value}, program.byte? address = some value → board.machine.memory.read address = value
  mute : mute board.device

theorem Rests.entry_eq {board : Board σ} (h : program.Rests mute P board) : board.machine.entry = program.start := by
  have hlow : board.machine.memory.read Machine.entryAddress = Word.low program.start := h.held rfl
  have hhigh : board.machine.memory.read (Machine.entryAddress + 1) = Word.high program.start := h.held rfl
  rw [Machine.entry, Memory.readWord, hlow, hhigh, Word.ofBytes_low_high]

/-- what is known when the program is set going -/
theorem Rests.awake {board : Board σ} (h : program.Rests mute P board) :
    (program.starting board.machine.registers).Of program.byte? mute board.awake := by
  have hawake : board.awake =
      ⟨{ board.machine with registers := board.machine.registers.jump program.start, stopped := false },
        board.device⟩ := by
    rw [Board.awake, Machine.awake, if_pos h.stopped, h.entry_eq]
  rw [hawake]
  exact ⟨rfl, h.notHalting, rfl, h.held, (fun hlookup => by cases hlookup), h.mute⟩

/-- **A program that always comes to a stop can be run again and again.** -/
theorem Ends.run [Device σ] {board : Board σ} (hmute : Device.Mute mute) (hends : program.Ends P)
    (h : program.Rests mute P board) :
    ∃ after, board.run none = (.ok .halted, after) ∧ program.Rests mute P after := by
  obtain ⟨last, hhalts, hlast⟩ := hends _ h.registers
  obtain ⟨count, after, hrun, hafter⟩ := hhalts.endsAfter hmute h.awake
  refine ⟨after.stop, hrun.stepsToEnd_eq, rfl, rfl, ?_, hafter.kept, hafter.mute⟩
  show P after.machine.registers
  rw [hafter.registers]
  exact hlast

/-- a program that was loaded waits to be run -/
theorem rests_of_load {machine loaded : Machine} {device : σ}
    (hload : machine.load program.start program.image = .ok loaded) (hhalting : machine.halting = false)
    (hP : P machine.registers) (hdevice : mute device) : program.Rests mute P ⟨loaded, device⟩ := by
  have hread : ∀ {address value}, program.byte? address = some value → loaded.memory.read address = value := by
    intro address value hbyte
    rw [Machine.memory_of_load hload, Memory.read_writeAll (Machine.entry_fits _ _),
      Memory.read_writeAll (Machine.load_eq_ok_iff.1 hload).1]
    rcases (Option.orElse_eq_some _ _ _).1 hbyte with hentry | ⟨hnone, himage⟩
    · rw [hentry, Option.getD_some]
    · rw [hnone, Option.getD_none, himage, Option.getD_some]
  obtain ⟨-, rfl⟩ := Machine.load_eq_ok_iff.1 hload
  exact ⟨rfl, hhalting, hP, hread, hdevice⟩

end Program

end ByteMachine
