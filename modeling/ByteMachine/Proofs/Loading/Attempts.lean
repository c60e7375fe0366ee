/-
An attempt to load an image. Either the image would run past the last address, and then nothing is changed at all, or it
lies in memory afterwards with its address at the entry point, and nothing else of the machine is changed but that it is
stopped. The device is not asked in either case, also where the image lies in its window.

`load_is_all_or_nothing`: which of the two it is, and every byte of memory afterwards.
-/
import Mathlib.Tactic
import ByteMachine.Proofs.Running.Control

namespace ByteMachine

/-- the bytes of memory when an image has been loaded: the entry point, the image beyond it, and else what was there -/
def Machine.byteAfterLoad (machine : Machine) (start : Word) (image : List Byte) (address : Word) : Byte :=
  if address = 0 then Word.low start
  else if address = 1 then Word.high start
  else (Memory.imageByte? start image address).getD (machine.memory.read address)

/-- the second machine is the first one with an image loaded at an address -/
structure Machine.LoadedWith (machine : Machine) (start : Word) (image : List Byte) (loaded : Machine) : Prop where
  memory : ∀ address, loaded.memory.read address = machine.byteAfterLoad start image address
  stopped : loaded.stopped = true
  registers : loaded.registers = machine.registers
  profile : loaded.profile = machine.profile
  halting : loaded.halting = machine.halting
  /-- with any device, the next step or run starts at the address -/
  starts : loaded.StartsAs (loaded.goingAt start)

namespace Machine

variable {machine loaded : Machine} {start : Word} {image : List Byte}

/-- **Every byte after a load.** -/
theorem read_of_load_eq (h : machine.load start image = .ok loaded) (address : Word) :
    loaded.memory.read address = machine.byteAfterLoad start image address := by
  have hfits := (load_eq_ok_iff.1 h).1
  rw [memory_of_load h, Memory.read_writeAll (entry_fits _ _), Memory.read_writeAll hfits, byteAfterLoad]
  split_ifs with hzero hone
  · rw [hzero]
    rfl
  · rw [hone]
    rfl
  · have hbeyond : entryAddress.toNat + [Word.low start, Word.high start].length ≤ address.toNat := by
      rw [← UInt16.toNat_inj, UInt16.toNat_zero] at hzero
      rw [← UInt16.toNat_inj, UInt16.toNat_one] at hone
      have hlength : entryAddress.toNat + [Word.low start, Word.high start].length = 2 := rfl
      omega
    rw [Memory.imageByte?_of_outside (.inr hbeyond), Option.getD_none]

theorem loadedWith_of_load (h : machine.load start image = .ok loaded) : machine.LoadedWith start image loaded := by
  have hread := read_of_load_eq h
  have hentry := entry_of_load h
  have hstarts := loaded.startsAs_awake
  obtain ⟨-, rfl⟩ := load_eq_ok_iff.1 h
  have hstopped : (machine.withProgram start image).stopped = true := rfl
  rw [awake, if_pos hstopped, hentry] at hstarts
  exact ⟨hread, hstopped, rfl, rfl, rfl, hstarts⟩

end Machine

/-- **Loading is all or nothing.** An image is refused exactly if it would run past the last address. The fault then tells
the address after the image, at no instruction, and the whole board is as it was. Any other image is loaded: it lies in
memory around the entry point, all other bytes are what they were, and so are the registers, the flags and the profile;
the machine is stopped, and goes on at the address of the image. The device is the one that there was, in the state that
it had, whatever it is. -/
theorem load_is_all_or_nothing {σ : Type} (board : Board σ) (start : Word) (image : List Byte) :
    ((∃ fault, (board.load start image).1 = .error fault) ↔ 0x10000 < start.toNat + image.length) ∧
      (∀ fault, (board.load start image).1 = .error fault →
        fault = ⟨0, .outOfRange (start.toNat + image.length)⟩ ∧ (board.load start image).2 = board) ∧
      ((board.load start image).1 = .ok () →
        board.machine.LoadedWith start image (board.load start image).2.machine ∧
          (board.load start image).2.device = board.device) := by
  cases hload : (Machine.loadProgram start image).run board.machine with
  | error fault left =>
    obtain ⟨hlong, hfault, rfl⟩ := Machine.run_loadProgram_eq_error_iff.1 hload
    have hboard : board.load start image = (.error fault, board) := by rw [Board.load, hload]
    rw [hboard]
    refine ⟨iff_of_true ⟨fault, rfl⟩ hlong, ?_, nofun⟩
    rintro _ ⟨⟩
    exact ⟨hfault, rfl⟩
  | ok _ loaded =>
    have hloaded := Machine.run_loadProgram_eq_ok_iff.1 hload
    have hboard : board.load start image = (.ok (), { board with machine := loaded }) := by rw [Board.load, hload]
    rw [hboard]
    refine ⟨iff_of_false nofun (Nat.not_lt.2 hloaded.1), nofun, ?_⟩
    exact fun _ => ⟨Machine.loadedWith_of_load (Machine.load_eq_ok_iff.2 hloaded), rfl⟩

/-- a board that can be loaded, with nothing in its window -/
def bareBoard : Board NoDevice := ⟨Machine.initial, ⟨⟩⟩

/-- an image that begins at the entry point keeps what lies beyond it -/
theorem fromZero_is_loaded :
    (bareBoard.load 0 [7, 8, 9]).1 = .ok () ∧ (bareBoard.load 0 [7, 8, 9]).2.machine.memory.read 1 = 0 ∧
      (bareBoard.load 0 [7, 8, 9]).2.machine.memory.read 2 = 9 ∧
      (bareBoard.load 0xffff [7, 8]).1 = .error ⟨0, .outOfRange 0x10001⟩ ∧
      (bareBoard.load 0xffff [7, 8]).2 = bareBoard := by
  obtain ⟨-, -, hloaded⟩ := load_is_all_or_nothing bareBoard 0 [7, 8, 9]
  obtain ⟨-, hrefused, -⟩ := load_is_all_or_nothing bareBoard 0xffff [7, 8]
  have hok : (bareBoard.load 0 [7, 8, 9]).1 = .ok () := rfl
  have herror : (bareBoard.load 0xffff [7, 8]).1 = .error ⟨0, .outOfRange 0x10001⟩ := rfl
  have hmemory := (hloaded hok).1.memory
  exact ⟨hok, hmemory 1, hmemory 2, herror, (hrefused _ herror).2⟩

end ByteMachine
