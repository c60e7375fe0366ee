/-
The loops among the measured programs. Each comes to the instruction that stops the machine, whatever the registers hold
when it is started: a program sets up its own. Only the subroutine calls need to know where the stack is.

A body is followed from any registers by computation, and `Known.Leads.countdown` says that the loop around it is left.
-/
import Mathlib
import ByteMachine.Proofs.Forecast.Loops
import ByteMachine.Proofs.Workloads.Boards

namespace ByteMachine.Command.Benchmark

open Known Workloads

def anyRegisters (_ : Registers) : Prop := True

def anything (_ : Known) : Prop := True

def stackAtStart (rs : Registers) : Prop := rs.sp = Registers.stackStart

/-! ## A counter inside a counter -/

def tightProgram : Program where
  start := Assembly.defaultMount
  image := List.flatMap Instruction.encode
    [.num 2 200, .num 3 250, .inc 0, .dec 3, .jnz 0x16 0x00, .dec 2, .jnz 0x13 0x00, .hlt]
  beyond := defaultMount_isBeyond
  below := by decide

theorem tightLoop_yields : Yields tightLoop tightProgram := by decide +kernel

/-- the inner counter, which leaves the outer one alone -/
theorem tight_inner (c : Byte) : Leads tightProgram (IsAt 0x16 (·.registers.c = c)) (IsAt 0x1d (·.registers.c = c)) := by
  refine .countdown (·.d) (show tightProgram.instruction? 0x1a = _ from rfl) rfl (fun _ _ => rfl) (fun _ _ => id) ?_
  intro rs written hc
  have hcount : Comes tightProgram ⟨rs.jump 0x16, false, written⟩ _ :=
    comes_of_after? (rfl : after? tightProgram 2 _ = some _)
  exact ⟨_, hcount, ⟨rfl, rfl, rfl, hc⟩, rfl, rfl⟩

theorem tight_outer : Leads tightProgram (IsAt 0x13 anything) (IsAt 0x22 anything) := by
  refine .countdown (·.c) (show tightProgram.instruction? 0x1f = _ from rfl) rfl (fun _ _ => rfl) (fun _ _ => id) ?_
  intro rs written _
  have hset : Comes tightProgram ⟨rs.jump 0x13, false, written⟩ ⟨{ rs with d := 250 }.jump 0x16, false, written⟩ :=
    comes_of_after? (rfl : after? tightProgram 1 _ = some _)
  obtain ⟨rs', written', hinner, hc⟩ := (tight_inner rs.c).exists_registers { rs with d := 250 } written rfl
  have hcount := hset.trans (hinner.trans (comes_of_after? (rfl : after? tightProgram 1 _ = some _)))
  exact ⟨_, hcount, ⟨rfl, rfl, rfl, trivial⟩, congrArg (· - 1) hc, rfl⟩

theorem tightProgram_ends : tightProgram.Ends anyRegisters := by
  intro rs _
  have hset : Comes tightProgram (tightProgram.starting rs) ⟨{ rs with c := 200 }.jump 0x13, false, []⟩ :=
    comes_of_after? (rfl : after? tightProgram 1 _ = some _)
  obtain ⟨rs', written', houter, -⟩ := tight_outer.exists_registers { rs with c := 200 } [] trivial
  exact ⟨_, (hset.trans houter).halts ⟨_, .refl, rfl⟩, trivial⟩

/-! ## Rounds of arithmetic -/

def arithmeticProgram : Program where
  start := Assembly.defaultMount
  image := List.flatMap Instruction.encode
    [.num 2 250, .num 0 1, .num 1 2, .num 3 3, .add 0 1, .mul 0 3, .sub 0 1, .shl 1 3, .shr 0 3, .mov 1 0, .inc 1,
      .dec 2, .jnz 0x1c 0x00, .hlt]
  beyond := defaultMount_isBeyond
  below := by decide

theorem arithmeticMix_yields : Yields arithmeticMix arithmeticProgram := by decide +kernel

theorem arithmetic_rounds :
    Leads arithmeticProgram (IsAt 0x1c anything) (IsAt 0x35 anything) := by
  refine .countdown (·.c) (show arithmeticProgram.instruction? 0x32 = _ from rfl) rfl (fun _ _ => rfl)
    (fun _ _ => id) ?_
  intro rs written _
  exact ⟨_, comes_of_after? (rfl : after? arithmeticProgram 8 _ = some _), ⟨rfl, rfl, rfl, trivial⟩, rfl, rfl⟩

theorem arithmeticProgram_ends : arithmeticProgram.Ends anyRegisters := by
  intro rs _
  have hset : Comes arithmeticProgram (arithmeticProgram.starting rs)
      ⟨{ rs with a := 1, b := 2, c := 250, d := 3 }.jump 0x1c, false, []⟩ :=
    comes_of_after? (rfl : after? arithmeticProgram 4 _ = some _)
  obtain ⟨rs', written', hrounds, -⟩ :=
    arithmetic_rounds.exists_registers { rs with a := 1, b := 2, c := 250, d := 3 } [] trivial
  exact ⟨_, (hset.trans hrounds).halts ⟨_, .refl, rfl⟩, trivial⟩

/-! ## Calls of a subroutine -/

def callProgram : Program where
  start := Assembly.defaultMount
  image := List.flatMap Instruction.encode
    [.num 3 40, .num 2 250, .clc 0x24 0x00, .dec 2, .jnz 0x16 0x00, .dec 3, .jnz 0x13 0x00, .hlt, .ret]
  beyond := defaultMount_isBeyond
  below := by decide

theorem callOverhead_yields : Yields callOverhead callProgram := by decide +kernel

/-- a call and its return: the address pushed is popped again -/
theorem call_returns (rs : Registers) (written : List (Word × Byte)) (hsp : stackAtStart rs) :
    ∃ written', Comes callProgram ⟨rs.jump 0x16, false, written⟩ ⟨rs.jump 0x19, false, written'⟩ := by
  obtain ⟨a, b, c, d, m, ip, pastEnd, sp, zero, carry⟩ := rs
  obtain rfl : sp = Registers.stackStart := hsp
  refine ⟨(written.filter (·.1 ≠ 0xf001)).filter (·.1 ≠ 0xf000),
    comes_of_after? (show after? callProgram 2 _ = _ from ?_)⟩
  cbv

theorem call_inner (d : Byte) :
    Leads callProgram (IsAt 0x16 fun known => stackAtStart known.registers ∧ known.registers.d = d)
      (IsAt 0x1e fun known => stackAtStart known.registers ∧ known.registers.d = d) := by
  refine .countdown (·.c) (show callProgram.instruction? 0x1b = _ from rfl) rfl (fun _ _ => rfl) (fun _ _ => id) ?_
  intro rs written hkept
  obtain ⟨written', hcall⟩ := call_returns rs written hkept.1
  have hcount := hcall.trans (comes_of_after? (rfl : after? callProgram 1 _ = some _))
  exact ⟨_, hcount, ⟨rfl, rfl, rfl, hkept⟩, rfl, rfl⟩

theorem call_outer : Leads callProgram (IsAt 0x13 (stackAtStart ·.registers)) (IsAt 0x23 (stackAtStart ·.registers)) := by
  refine .countdown (·.d) (show callProgram.instruction? 0x20 = _ from rfl) rfl (fun _ _ => rfl) (fun _ _ => id) ?_
  intro rs written hsp
  have hset : Comes callProgram ⟨rs.jump 0x13, false, written⟩ ⟨{ rs with c := 250 }.jump 0x16, false, written⟩ :=
    comes_of_after? (rfl : after? callProgram 1 _ = some _)
  obtain ⟨rs', written', hinner, hsp', hd⟩ :=
    (call_inner rs.d).exists_registers { rs with c := 250 } written ⟨hsp, rfl⟩
  have hcount := hset.trans (hinner.trans (comes_of_after? (rfl : after? callProgram 1 _ = some _)))
  exact ⟨_, hcount, ⟨rfl, rfl, rfl, hsp'⟩, congrArg (· - 1) hd, rfl⟩

theorem callProgram_ends : callProgram.Ends stackAtStart := by
  intro rs hsp
  have hset : Comes callProgram (callProgram.starting rs) ⟨{ rs with d := 40 }.jump 0x13, false, []⟩ :=
    comes_of_after? (rfl : after? callProgram 1 _ = some _)
  obtain ⟨rs', written', houter, hsp'⟩ := call_outer.exists_registers { rs with d := 40 } [] hsp
  exact ⟨_, (hset.trans houter).halts ⟨_, .refl, rfl⟩, hsp'⟩

/-! ## Bytes stored and loaded -/

def memoryProgram : Program where
  start := Assembly.defaultMount
  image := List.flatMap Instruction.encode
    [.num 3 40, .num 0 0, .num 1 0x20, .mov 4 0, .ser 0 1, .ger 0 1, .inc 0, .jnz 0x19 0x00, .dec 3, .jnz 0x13 0x00,
      .hlt]
  beyond := defaultMount_isBeyond
  below := by decide

theorem memoryPasses_yields : Yields memoryPasses memoryProgram := by decide +kernel

/-- the page lies behind the program and before the window -/
theorem page_isFree (place : Byte) :
    ¬ InWindow (Word.ofBytes place 0x20) ∧ memoryProgram.byte? (Word.ofBytes place 0x20) = none := by
  have hplace := place.toNat_lt
  have haddress := Word.toNat_ofBytes place 0x20
  rw [show (0x20 : Byte).toNat = 0x20 from rfl] at haddress
  constructor
  · rintro ⟨hfirst, -⟩
    rw [UInt16.le_iff_toNat_le, show windowStart.toNat = 0xe000 from rfl] at hfirst
    omega
  · rw [Program.byte?, Memory.imageByte?_of_outside, Memory.imageByte?_of_outside]
    · rfl
    · right
      rw [show memoryProgram.start.toNat + memoryProgram.image.length = 0x2d from rfl]
      omega
    · right
      rw [show Machine.entryAddress.toNat + [Word.low memoryProgram.start, Word.high memoryProgram.start].length = 2
        from rfl]
      omega

/-- a byte is stored on the page and loaded again -/
theorem memory_cell (rs : Registers) (written : List (Word × Byte)) (hpage : rs.b = 0x20) :
    Comes memoryProgram ⟨rs.jump 0x19, false, written⟩
      ⟨{ rs with m := rs.a }.jump 0x22, false, (Word.ofBytes rs.a 0x20, rs.a) :: written⟩ := by
  obtain ⟨houtside, hfree⟩ := page_isFree rs.a
  have hmove : Comes memoryProgram ⟨rs.jump 0x19, false, written⟩ ⟨{ rs with m := rs.a }.jump 0x1c, false, written⟩ :=
    comes_of_after? (rfl : after? memoryProgram 1 _ = some _)
  have hpair : ∀ target, ({ rs with m := rs.a }.jump target).pair 0 1 = Word.ofBytes rs.a 0x20 := fun _ =>
    congrArg (Word.ofBytes rs.a) hpage
  have hstore := next?_of_ser_memory { rs with m := rs.a } written
    (show memoryProgram.instruction? 0x1c = some (.ser 0 1) from rfl) (by rw [hpair]; exact houtside)
    (by rw [hpair]; exact hfree)
  have hload := next?_of_ger_memory { rs with m := rs.a } ((Word.ofBytes rs.a 0x20, rs.a) :: written)
    (show memoryProgram.instruction? 0x1f = some (.ger 0 1) from rfl) (by rw [hpair]; exact houtside)
    (by rw [hpair, hfree, List.lookup_cons_self]; rfl)
  rw [hpair] at hstore
  exact hmove.trans ((comes_of_next? hstore).trans (comes_of_next? hload))

/-- the bytes of one page, which leave the number of passes alone -/
theorem memory_cells (d : Byte) :
    Leads memoryProgram (IsAt 0x19 fun known => known.registers.b = 0x20 ∧ known.registers.d = d)
      (IsAt 0x27 fun known => known.registers.b = 0x20 ∧ known.registers.d = d) := by
  -- the place on the page is counted up, so what is counted down is the number of bytes left
  refine .countdown (fun rs => 0 - rs.a) (show memoryProgram.instruction? 0x24 = _ from rfl) rfl (fun _ _ => rfl)
    (fun _ _ => id) ?_
  intro rs written hkept
  have hcount := (memory_cell rs written hkept.1).trans (comes_of_after? (rfl : after? memoryProgram 1 _ = some _))
  refine ⟨_, hcount, ⟨rfl, rfl, rfl, hkept⟩, ?_, ?_⟩
  · show 0 - (rs.a + 1) = 0 - rs.a - 1
    grind
  · show decide (rs.a + 1 = 0) = decide (0 - (rs.a + 1) = 0)
    rw [decide_eq_decide, UInt8.sub_eq_iff_eq_add, UInt8.zero_add, eq_comm]

theorem memory_passes : Leads memoryProgram (IsAt 0x13 anything) (IsAt 0x2c anything) := by
  refine .countdown (·.d) (show memoryProgram.instruction? 0x29 = _ from rfl) rfl (fun _ _ => rfl) (fun _ _ => id) ?_
  intro rs written _
  have hset : Comes memoryProgram ⟨rs.jump 0x13, false, written⟩
      ⟨{ rs with a := 0, b := 0x20 }.jump 0x19, false, written⟩ :=
    comes_of_after? (rfl : after? memoryProgram 2 _ = some _)
  obtain ⟨rs', written', hcells, -, hd⟩ :=
    (memory_cells rs.d).exists_registers { rs with a := 0, b := 0x20 } written ⟨rfl, rfl⟩
  have hcount := hset.trans (hcells.trans (comes_of_after? (rfl : after? memoryProgram 1 _ = some _)))
  exact ⟨_, hcount, ⟨rfl, rfl, rfl, trivial⟩, congrArg (· - 1) hd, rfl⟩

theorem memoryProgram_ends : memoryProgram.Ends anyRegisters := by
  intro rs _
  have hset : Comes memoryProgram (memoryProgram.starting rs) ⟨{ rs with d := 40 }.jump 0x13, false, []⟩ :=
    comes_of_after? (rfl : after? memoryProgram 1 _ = some _)
  obtain ⟨rs', written', hpasses, -⟩ := memory_passes.exists_registers { rs with d := 40 } [] trivial
  exact ⟨_, (hset.trans hpasses).halts ⟨_, .refl, rfl⟩, trivial⟩

end ByteMachine.Command.Benchmark
