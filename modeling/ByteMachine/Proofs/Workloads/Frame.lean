/-
The frame of the treasure game. With no button held down it comes to the instruction that stops the machine, and leaves
the registers as they were but for the flags, so that frame can follow frame.

The frame begins with clearing the screen, row by row and pixel by pixel: a loop inside a loop. The rest is short enough
to be followed to its end by computation. What clearing left in the registers is overwritten before it is read.
-/
import Mathlib
import ByteMachine.Proofs.Forecast.Loops
import ByteMachine.Proofs.Workloads.Boards

namespace ByteMachine.Command.Benchmark

open Known Workloads

def frameProgram : Program where
  start := Assembly.defaultMount
  image :=
    [0x02, 0x61, 0x01, 0x10, 0x02, 0x0d, 0x02, 0x03, 0x00, 0x04, 0x10, 0x19, 0x02, 0x04, 0x0d, 0x04, 0x04, 0x17, 0x02,
      0x04, 0x00, 0x03, 0xe0, 0x00, 0x04, 0x01, 0x14, 0x02, 0x03, 0x0f, 0x02, 0x0a, 0x08, 0x08, 0x01, 0x03, 0x04,
      0x05, 0x02, 0x07, 0x0e, 0x05, 0x0a, 0x0a, 0x08, 0x0c, 0x05, 0x09, 0xff, 0xff, 0x10, 0x00, 0x10, 0x01, 0x10,
      0x02, 0x00, 0x02, 0x00, 0x00, 0x00, 0x32, 0x00, 0x01, 0x00, 0x13, 0x00, 0x01, 0x01, 0x03, 0x04, 0x15, 0x03,
      0x04, 0x87, 0x00, 0x16, 0x03, 0x11, 0x30, 0x00, 0x18, 0x03, 0x04, 0x1c, 0x00, 0x01, 0x05, 0x7f, 0x00, 0x13,
      0x00, 0x01, 0x01, 0x03, 0x04, 0x11, 0x31, 0x00, 0x18, 0x03, 0x04, 0x05, 0x7f, 0x00, 0x01, 0x03, 0x02, 0x02,
      0x8a, 0x00, 0x15, 0x02, 0x1c, 0x00, 0x01, 0x02, 0x51, 0x00, 0x00, 0x03, 0xff, 0x0f, 0x02, 0x0f, 0x01, 0x0f,
      0x00, 0x0a, 0x10, 0x00, 0x10, 0x01, 0x10, 0x02, 0x0d, 0x04, 0x05, 0x00, 0x00, 0x32, 0x00, 0x01, 0x00, 0x15,
      0x04, 0x16, 0x04, 0x04, 0xb2, 0x00, 0x1c, 0x00, 0x01, 0x1c, 0x00, 0x01, 0x16, 0x04, 0x02, 0xa0, 0x00, 0x01,
      0x02, 0x00, 0x01, 0x03, 0x01, 0x1c, 0x00, 0x01, 0x1c, 0x00, 0x01, 0x13, 0x00, 0x01, 0x14, 0x02, 0x03, 0x1c,
      0x00, 0x01, 0x1c, 0x02, 0x03, 0x13, 0x00, 0x01, 0x14, 0x02, 0x03, 0x15, 0x04, 0x04, 0xdd, 0x00, 0x16, 0x04,
      0x1d, 0x00, 0x01, 0x02, 0xb2, 0x00, 0x0f, 0x02, 0x0f, 0x01, 0x0f, 0x00, 0x0a, 0x10, 0x00, 0x10, 0x01, 0x10,
      0x02, 0x00, 0x00, 0x32, 0x00, 0x01, 0x00, 0x13, 0x00, 0x01, 0x00, 0x03, 0xff, 0x18, 0x04, 0x03, 0x04, 0x14,
      0x01, 0x17, 0x04, 0x03, 0x10, 0x04, 0x1c, 0x00, 0x01, 0x13, 0x00, 0x01, 0x10, 0x04, 0x08, 0x13, 0x00, 0x0c,
      0x02, 0x1c, 0x00, 0x01, 0x02, 0xf0, 0x00, 0x0f, 0x02, 0x0f, 0x01, 0x0f, 0x00, 0x0a, 0x10, 0x00, 0x10, 0x01,
      0x10, 0x02, 0x00, 0x01, 0x00, 0x00, 0x00, 0x00, 0x01, 0x02, 0x01, 0x00, 0x03, 0x10, 0x19, 0x02, 0x03, 0x17,
      0x02, 0x00, 0x00, 0x04, 0x00, 0x00, 0x03, 0xe0, 0x14, 0x02, 0x03, 0x15, 0x00, 0x10, 0x00, 0x00, 0x03, 0x10,
      0x18, 0x00, 0x03, 0x0f, 0x00, 0x05, 0x27, 0x01, 0x15, 0x01, 0x10, 0x01, 0x00, 0x03, 0x10, 0x18, 0x01, 0x03,
      0x0f, 0x01, 0x05, 0x24, 0x01, 0x0f, 0x02, 0x0f, 0x01, 0x0f, 0x00, 0x0a, 0x10, 0x00, 0x10, 0x01, 0x10, 0x02,
      0x08, 0x1b, 0x01, 0x08, 0xe4, 0x00, 0x08, 0x42, 0x00, 0x15, 0x03, 0x04, 0x7e, 0x01, 0x16, 0x03, 0x10, 0x03,
      0x08, 0x91, 0x00, 0x0c, 0x01, 0x11, 0x30, 0x00, 0x01, 0x00, 0x04, 0x11, 0x31, 0x00, 0x00, 0x01, 0x10, 0x19,
      0x01, 0x04, 0x17, 0x00, 0x01, 0x00, 0x04, 0x02, 0x00, 0x01, 0xe0, 0x14, 0x00, 0x01, 0x11, 0x00, 0xe1, 0x17,
      0x04, 0x04, 0x04, 0xad, 0x01, 0x11, 0x30, 0x00, 0x16, 0x04, 0x06, 0xad, 0x01, 0x12, 0x30, 0x00, 0x11, 0x01,
      0xe1, 0x17, 0x04, 0x04, 0x04, 0xcb, 0x01, 0x11, 0x30, 0x00, 0x15, 0x04, 0x10, 0x04, 0x00, 0x03, 0x10, 0x18,
      0x04, 0x03, 0x0f, 0x04, 0x04, 0xcb, 0x01, 0x12, 0x30, 0x00, 0x11, 0x02, 0xe1, 0x17, 0x04, 0x04, 0x04, 0xdf,
      0x01, 0x11, 0x31, 0x00, 0x16, 0x04, 0x06, 0xdf, 0x01, 0x12, 0x31, 0x00, 0x11, 0x03, 0xe1, 0x17, 0x04, 0x04,
      0x04, 0xfd, 0x01, 0x11, 0x31, 0x00, 0x15, 0x04, 0x10, 0x04, 0x00, 0x03, 0x10, 0x18, 0x04, 0x03, 0x0f, 0x04,
      0x04, 0xfd, 0x01, 0x12, 0x31, 0x00, 0x0f, 0x02, 0x0f, 0x01, 0x0f, 0x00, 0xff]
  beyond := defaultMount_isBeyond
  below := by decide +kernel

theorem treasureFrame_yields : Yields treasureFrame frameProgram := by decide +kernel

/-- the registers of a new machine, but for where it goes on and for the flags -/
structure Cleared (rs : Registers) : Prop where
  a : rs.a = 0
  b : rs.b = 0
  c : rs.c = 0
  d : rs.d = 0
  m : rs.m = 0
  sp : rs.sp = Registers.stackStart

/-! ## The screen -/

/-- the stack while the screen is cleared: three registers saved by the frame, the address to go back to, and three
registers saved by the subroutine -/
def savedBytes : List (Word × Byte) :=
  [(0xf007, 0), (0xf006, 0), (0xf005, 0), (0xf004, 0x01), (0xf003, 0x6a), (0xf002, 0), (0xf001, 0), (0xf000, 0)]

/-- the next free byte of the stack then -/
def spareByte : Word := 0xf008

/-- the place on the screen that is cleared next -/
structure Clearing (row column : Byte) (known : Known) : Prop where
  a : known.registers.a = column
  b : known.registers.b = row
  sp : known.registers.sp = spareByte
  written : known.written = savedBytes

theorem spareByte_isNotLast : spareByte ≠ 0xffff := by decide

theorem spareByte_isFree : frameProgram.byte? spareByte = none := by decide +kernel

theorem spareByte_isFresh : savedBytes.filter (·.1 ≠ spareByte) = savedBytes := by decide

theorem inWindow_of_screen (place : Byte) : InWindow (Word.ofBytes place 0xe0) := by
  have hplace := place.toNat_lt
  have haddress := Word.toNat_ofBytes place 0xe0
  rw [show (0xe0 : Byte).toNat = 0xe0 from rfl] at haddress
  rw [InWindow, UInt16.le_iff_toNat_le, UInt16.le_iff_toNat_le, show windowStart.toNat = 0xe000 from rfl,
    show windowEnd.toNat = 0xefff from rfl]
  omega

theorem clear_place (row column : Byte) :
    Leads frameProgram (IsAt 0x127 (Clearing row column))
      (IsAt 0x139 fun known => Clearing row column known ∧ known.registers.d = 0xe0) := by
  rintro ⟨⟨a, b, c, d, m, ip, pastEnd, sp, zero, carry⟩, halting, written⟩ ⟨rfl, rfl, rfl, rfl, rfl, rfl, rfl⟩
  have hplace : Comes frameProgram
      ⟨⟨a, b, c, d, m, 0x127, false, spareByte, zero, carry⟩, false, savedBytes⟩ _ :=
    comes_of_after? (rfl : after? frameProgram 6 _ = some _)
  exact ⟨_, hplace, rfl, rfl, rfl, ⟨rfl, rfl, rfl, rfl⟩, rfl⟩

/-- a pixel is cleared, and the column counted -/
theorem clear_pixel (row column : Byte) :
    Leads frameProgram (IsAt 0x127 (Clearing row column)) (IsAt 0x13e (Clearing row (column + 1))) := by
  intro known h
  obtain ⟨next, hplace, hnext⟩ := clear_place row column known h
  have hwindow : InWindow ((next.registers.jump 0x13c).pair 2 3) := by
    show InWindow (Word.ofBytes next.registers.c next.registers.d)
    rw [hnext.holds.2]
    exact inWindow_of_screen _
  have hstore := next?_of_ser_window next.registers next.written
    (show frameProgram.instruction? 0x139 = some (.ser 2 3) from rfl) hwindow
  rw [← hnext.eq] at hstore
  obtain ⟨hplaced, -⟩ := hnext.holds
  exact ⟨_, (hplace.trans (comes_of_next? hstore)).trans (comes_of_after? (rfl : after? frameProgram 1 _ = some _)),
    rfl, rfl, rfl, congrArg (· + 1) hplaced.a, hplaced.b, hplaced.sp, hplaced.written⟩

/-- the column is compared with the width of the screen -/
theorem compare_column (row column : Byte) :
    Leads frameProgram (IsAt 0x13e (Clearing row column))
      (IsAt 0x148 fun known => Clearing row column known ∧ known.registers.zero = decide (column - 16 = 0)) := by
  rintro ⟨⟨a, b, c, d, m, ip, pastEnd, sp, zero, carry⟩, halting, written⟩ ⟨rfl, rfl, rfl, rfl, rfl, rfl, rfl⟩
  have hcompared : Comes frameProgram
      ⟨⟨a, b, c, d, m, 0x140, false, spareByte + 1, zero, carry⟩, false, (spareByte, a) :: savedBytes⟩
      ⟨⟨a - 16, b, c, 16, m, 0x146, false, spareByte + 1, decide (a - 16 = 0), decide (a < 16)⟩, false,
        (spareByte, a) :: savedBytes⟩ :=
    comes_of_after? (rfl : after? frameProgram 2 _ = some _)
  have hspared := Comes.spared ⟨a, b, c, d, m, 0, false, spareByte, zero, carry⟩
    ⟨a - 16, b, c, 16, m, 0, false, spareByte + 1, decide (a - 16 = 0), decide (a < 16)⟩
    (show frameProgram.instruction? 0x13e = some (.psh 0) from rfl)
    (show frameProgram.instruction? 0x146 = some (.pop 0) from rfl)
    spareByte_isNotLast spareByte_isFree spareByte_isFresh rfl rfl hcompared
  exact ⟨_, hspared, rfl, rfl, rfl, ⟨rfl, rfl, rfl, rfl⟩, rfl⟩

/-- the row is compared with the height of the screen -/
theorem compare_row (row column : Byte) :
    Leads frameProgram (IsAt 0x14d (Clearing row column))
      (IsAt 0x157 fun known => Clearing row column known ∧ known.registers.zero = decide (row - 16 = 0)) := by
  rintro ⟨⟨a, b, c, d, m, ip, pastEnd, sp, zero, carry⟩, halting, written⟩ ⟨rfl, rfl, rfl, rfl, rfl, rfl, rfl⟩
  have hcompared : Comes frameProgram
      ⟨⟨a, b, c, d, m, 0x14f, false, spareByte + 1, zero, carry⟩, false, (spareByte, b) :: savedBytes⟩
      ⟨⟨a, b - 16, c, 16, m, 0x155, false, spareByte + 1, decide (b - 16 = 0), decide (b < 16)⟩, false,
        (spareByte, b) :: savedBytes⟩ :=
    comes_of_after? (rfl : after? frameProgram 2 _ = some _)
  have hspared := Comes.spared ⟨a, b, c, d, m, 0, false, spareByte, zero, carry⟩
    ⟨a, b - 16, c, 16, m, 0, false, spareByte + 1, decide (b - 16 = 0), decide (b < 16)⟩
    (show frameProgram.instruction? 0x14d = some (.psh 1) from rfl)
    (show frameProgram.instruction? 0x155 = some (.pop 1) from rfl)
    spareByte_isNotLast spareByte_isFree spareByte_isFresh rfl rfl hcompared
  exact ⟨_, hspared, rfl, rfl, rfl, ⟨rfl, rfl, rfl, rfl⟩, rfl⟩

/-- what is left to be counted becomes less by one, and is compared with nothing left -/
theorem left_of_counted (count : Byte) :
    16 - (count + 1) = 16 - count - 1 ∧ decide (count + 1 - 16 = 0) = decide (16 - (count + 1) = 0) := by
  constructor
  · grind
  · rw [decide_eq_decide]
    grind

theorem clear_columns (row : Byte) :
    Leads frameProgram (IsAt 0x127 fun known => ∃ column, Clearing row column known)
      (IsAt 0x14b fun known => ∃ column, Clearing row column known) := by
  refine .countdown (fun rs => 16 - rs.a) (show frameProgram.instruction? 0x148 = _ from rfl) rfl (fun _ _ => rfl)
    (fun known target ⟨column, h⟩ => ⟨column, h.a, h.b, h.sp, h.written⟩) ?_
  rintro rs written ⟨column, hclearing⟩
  obtain ⟨next, hcomes, hnext⟩ := (clear_pixel row column).trans (compare_column row (column + 1))
    ⟨rs.jump 0x127, false, written⟩ ⟨rfl, rfl, rfl, hclearing⟩
  obtain ⟨hcounted, hzero⟩ := hnext.holds
  obtain ⟨hless, htest⟩ := left_of_counted column
  refine ⟨next, hcomes, ⟨hnext.ip, hnext.within, hnext.notHalting, column + 1, hcounted⟩, ?_, ?_⟩
  · rw [hcounted.a, hless, ← hclearing.a]
    rfl
  · rw [hzero, htest, hcounted.a]

/-- a row is cleared, and counted -/
theorem clear_row (row column : Byte) :
    Leads frameProgram (IsAt 0x124 (Clearing row column))
      (IsAt 0x14d fun known => ∃ column, Clearing (row + 1) column known) := by
  have hset : Leads frameProgram (IsAt 0x124 (Clearing row column))
      (IsAt 0x127 fun known => ∃ column, Clearing row column known) := by
    rintro ⟨⟨a, b, c, d, m, ip, pastEnd, sp, zero, carry⟩, halting, written⟩ ⟨rfl, rfl, rfl, rfl, rfl, rfl, rfl⟩
    have hset : Comes frameProgram ⟨⟨a, b, c, d, m, 0x124, false, spareByte, zero, carry⟩, false, savedBytes⟩ _ :=
      comes_of_after? (rfl : after? frameProgram 1 _ = some _)
    exact ⟨_, hset, rfl, rfl, rfl, 0, rfl, rfl, rfl, rfl⟩
  have hcount : Leads frameProgram (IsAt 0x14b fun known => ∃ column, Clearing row column known)
      (IsAt 0x14d fun known => ∃ column, Clearing (row + 1) column known) := by
    rintro ⟨⟨a, b, c, d, m, ip, pastEnd, sp, zero, carry⟩, halting, written⟩ ⟨rfl, rfl, rfl, _, rfl, rfl, rfl, rfl⟩
    have hcount : Comes frameProgram ⟨⟨a, b, c, d, m, 0x14b, false, spareByte, zero, carry⟩, false, savedBytes⟩ _ :=
      comes_of_after? (rfl : after? frameProgram 1 _ = some _)
    exact ⟨_, hcount, rfl, rfl, rfl, a, rfl, rfl, rfl, rfl⟩
  exact hset.trans ((clear_columns row).trans hcount)

theorem clear_rows :
    Leads frameProgram (IsAt 0x124 fun known => ∃ row column, Clearing row column known)
      (IsAt 0x15a fun known => ∃ row column, Clearing row column known) := by
  refine .countdown (fun rs => 16 - rs.b) (show frameProgram.instruction? 0x157 = _ from rfl) rfl (fun _ _ => rfl)
    (fun known target ⟨row, column, h⟩ => ⟨row, column, h.a, h.b, h.sp, h.written⟩) ?_
  rintro rs written ⟨row, column, hclearing⟩
  obtain ⟨mid, hcomes, hmid⟩ := clear_row row column ⟨rs.jump 0x124, false, written⟩ ⟨rfl, rfl, rfl, hclearing⟩
  obtain ⟨column', hmid'⟩ := hmid.holds
  obtain ⟨next, hmore, hnext⟩ := compare_row (row + 1) column' mid ⟨hmid.ip, hmid.within, hmid.notHalting, hmid'⟩
  obtain ⟨hcounted, hzero⟩ := hnext.holds
  obtain ⟨hless, htest⟩ := left_of_counted row
  refine ⟨next, hcomes.trans hmore, ⟨hnext.ip, hnext.within, hnext.notHalting, row + 1, column', hcounted⟩, ?_, ?_⟩
  · rw [hcounted.b, hless, ← hclearing.b]
    rfl
  · rw [hzero, htest, hcounted.b]

/-! ## The frame -/

set_option maxRecDepth 4000 in
/-- the frame begins with clearing the screen -/
theorem frame_clears {rs : Registers} (h : Cleared rs) :
    Comes frameProgram (frameProgram.starting rs) ⟨{ rs with sp := spareByte }.jump 0x124, false, savedBytes⟩ := by
  obtain ⟨a, b, c, d, m, ip, pastEnd, sp, zero, carry⟩ := rs
  obtain ⟨rfl, rfl, rfl, rfl, rfl, rfl⟩ := h
  refine comes_of_after? (show after? frameProgram 9 _ = _ from ?_)
  cbv

/-- the registers when the first treasure was read -/
def drawing : Known :=
  ⟨⟨0x32, 0, 0, 0xff, 2, 0xf9, false, 0xf008, false, true⟩, false,
    [(0xf007, 0), (0xf006, 0), (0xf005, 0), (0xf004, 0x01), (0xf003, 0x6d), (0xf002, 0), (0xf001, 0), (0xf000, 0)]⟩

set_option maxRecDepth 4000 in
/-- then it draws the treasures -/
theorem frame_draws {known : Known} (h : known.IsAt 0x15a fun known => ∃ row column, Clearing row column known) :
    Comes frameProgram known drawing := by
  obtain ⟨⟨a, b, c, d, m, ip, pastEnd, sp, zero, carry⟩, halting, written⟩ := known
  obtain ⟨rfl, rfl, rfl, row, column, rfl, rfl, rfl, rfl⟩ := h
  refine comes_of_after? (show after? frameProgram 13 _ = _ from ?_)
  cbv

/-- the stack is empty at the end, and the registers hold what they held -/
theorem drawing_stops :
    (drawing.end? frameProgram 600).map (·.registers) =
      some ⟨0, 0, 0, 0, 0, 0x204, false, Registers.stackStart, true, false⟩ := by
  decide +kernel

theorem frameProgram_ends : frameProgram.Ends Cleared := by
  intro rs hrs
  obtain ⟨last, hlast, hregisters⟩ := Option.map_eq_some_iff.1 drawing_stops
  obtain ⟨next, hcleared, hnext⟩ := clear_rows ⟨{ rs with sp := spareByte }.jump 0x124, false, savedBytes⟩
    ⟨rfl, rfl, rfl, rs.b, rs.a, rfl, rfl, rfl, rfl⟩
  have hdraws := (frame_clears hrs).trans (hcleared.trans (frame_draws hnext))
  refine ⟨last, hdraws.halts (halts_of_end? hlast), ?_⟩
  rw [hregisters]
  exact ⟨rfl, rfl, rfl, rfl, rfl, rfl⟩

end ByteMachine.Command.Benchmark
