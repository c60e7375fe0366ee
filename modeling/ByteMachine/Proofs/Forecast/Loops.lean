/-
Loops in forecasts. A loop that counts a byte and goes back until it comes to zero is left after 256 rounds at most,
whatever the byte was at first. What the loop does besides is up to its body, which is followed once, for any registers.

- `Known.IsAt`: where the machine goes on, and a property of what is known of it.
- `Known.Leads.loop`: a loop whose body counts down.
- `Known.Leads.countdown`: such a loop that ends with a test of the last result.
-/
import Mathlib.Tactic
import ByteMachine.Proofs.Forecast.Programs

namespace ByteMachine.Known

variable {program : Program}

/-! ## Steps from any registers -/

section Steps

variable {address : Word} {i : Instruction} {r : Byte} (rs : Registers) (written : List (Word × Byte))

/-- a step from where the image has the instruction -/
theorem next?_of_instruction? (h : program.instruction? address = some i) :
    next? program ⟨rs.jump address, false, written⟩ =
      ((Forecast.execute program.byte? i).run
        ⟨rs.jump (address + UInt16.ofNat i.encode.length), false, written⟩).bind fun result =>
          some (if result.2.halting then .halted else .paused, result.2) := by
  have hnext : next? program ⟨rs.jump address, false, written⟩ =
      (program.instruction? address).bind fun i =>
        ((Forecast.execute program.byte? i).run
          ⟨rs.jump (address + UInt16.ofNat i.encode.length), false, written⟩).bind fun result =>
            some (if result.2.halting then .halted else .paused, result.2) := rfl
  rw [hnext, h]
  rfl

/-- a test goes back unless the last result was zero -/
theorem next?_of_jnz {lo hi : Byte} (h : program.instruction? address = some (.jnz lo hi)) :
    next? program ⟨rs.jump address, false, written⟩ =
      some (.paused, ⟨rs.jump (if rs.zero then address + 3 else Word.ofBytes lo hi), false, written⟩) := by
  rw [next?_of_instruction? rs written h]
  obtain ⟨a, b, c, d, m, ip, pastEnd, sp, zero, carry⟩ := rs
  cases zero <;> rfl

theorem next?_of_psh (h : program.instruction? address = some (.psh r)) (hroom : rs.sp ≠ 0xffff)
    (hfree : program.byte? rs.sp = none) :
    next? program ⟨rs.jump address, false, written⟩ =
      some (.paused, ⟨{ rs with sp := rs.sp + 1 }.jump (address + 2), false,
        (rs.sp, (rs.jump (address + 2)).get r) :: written⟩) := by
  rw [next?_of_instruction? rs written h]
  show ((Forecast.push program.byte? _).run ⟨rs.jump (address + 2), false, written⟩).bind _ = _
  rw [Forecast.run_push hroom hfree]
  rfl

theorem next?_of_pop {value : Byte} (h : program.instruction? address = some (.pop r)) (hsome : rs.sp ≠ 0)
    (hvalue : (program.byte? (rs.sp - 1) <|> written.lookup (rs.sp - 1)) = some value) :
    next? program ⟨rs.jump address, false, written⟩ =
      some (.paused, ⟨({ rs with sp := rs.sp - 1 }.jump (address + 2)).set r value, false,
        written.filter (·.1 ≠ rs.sp - 1)⟩) := by
  rw [next?_of_instruction? rs _ h]
  show ((Forecast.pop program.byte? >>= Forecast.setRegister r).run ⟨rs.jump (address + 2), false, written⟩).bind _ = _
  rw [StateT.run_bind, Forecast.run_pop hsome hvalue]
  rfl

theorem next?_of_ser_window {lo hi : Byte} (h : program.instruction? address = some (.ser lo hi))
    (hwindow : InWindow ((rs.jump (address + 3)).pair lo hi)) :
    next? program ⟨rs.jump address, false, written⟩ = some (.paused, ⟨rs.jump (address + 3), false, written⟩) := by
  rw [next?_of_instruction? rs written h]
  show ((Forecast.store program.byte? ((rs.jump (address + 3)).pair lo hi)
    ((rs.jump (address + 3)).get memoryRegister)).run ⟨rs.jump (address + 3), false, written⟩).bind _ = _
  rw [Forecast.store, if_pos hwindow]
  rfl

theorem next?_of_ser_memory {lo hi : Byte} (h : program.instruction? address = some (.ser lo hi))
    (houtside : ¬ InWindow ((rs.jump (address + 3)).pair lo hi))
    (hfree : program.byte? ((rs.jump (address + 3)).pair lo hi) = none) :
    next? program ⟨rs.jump address, false, written⟩ =
      some (.paused, ⟨rs.jump (address + 3), false,
        ((rs.jump (address + 3)).pair lo hi, (rs.jump (address + 3)).get memoryRegister) :: written⟩) := by
  rw [next?_of_instruction? rs written h]
  show ((Forecast.store program.byte? ((rs.jump (address + 3)).pair lo hi)
    ((rs.jump (address + 3)).get memoryRegister)).run ⟨rs.jump (address + 3), false, written⟩).bind _ = _
  rw [Forecast.store, if_neg houtside, Forecast.putByte, hfree]
  rfl

theorem next?_of_ger_memory {lo hi value : Byte} (h : program.instruction? address = some (.ger lo hi))
    (houtside : ¬ InWindow ((rs.jump (address + 3)).pair lo hi))
    (hvalue : (program.byte? ((rs.jump (address + 3)).pair lo hi) <|>
      written.lookup ((rs.jump (address + 3)).pair lo hi)) = some value) :
    next? program ⟨rs.jump address, false, written⟩ =
      some (.paused, ⟨(rs.jump (address + 3)).set memoryRegister value, false, written⟩) := by
  rw [next?_of_instruction? rs written h]
  show ((Forecast.load program.byte? ((rs.jump (address + 3)).pair lo hi) >>=
    Forecast.setRegister memoryRegister).run ⟨rs.jump (address + 3), false, written⟩).bind _ = _
  rw [StateT.run_bind, Forecast.load, if_neg houtside, Forecast.run_byteAt, hvalue]
  rfl

/-- a register is kept on the stack while something else is done with it -/
theorem Comes.spared {back : Word} {value : Byte} (rs rs' : Registers) {written : List (Word × Byte)}
    (hpsh : program.instruction? address = some (.psh r)) (hpop : program.instruction? back = some (.pop r))
    (hroom : rs.sp ≠ 0xffff) (hfree : program.byte? rs.sp = none) (hfresh : written.filter (·.1 ≠ rs.sp) = written)
    (hvalue : (rs.jump (address + 2)).get r = value) (hsp : rs'.sp = rs.sp + 1)
    (hbody : Comes program ⟨{ rs with sp := rs.sp + 1 }.jump (address + 2), false, (rs.sp, value) :: written⟩
      ⟨rs'.jump back, false, (rs.sp, value) :: written⟩) :
    Comes program ⟨rs.jump address, false, written⟩
      ⟨({ rs' with sp := rs.sp }.jump (back + 2)).set r value, false, written⟩ := by
  have hback : rs'.sp - 1 = rs.sp := by rw [hsp, UInt16.add_sub_cancel]
  have hsome : rs'.sp ≠ 0 := by grind
  have hpush := next?_of_psh rs written hpsh hroom hfree
  have hread : (program.byte? (rs'.sp - 1) <|> ((rs.sp, value) :: written).lookup (rs'.sp - 1)) = some value := by
    rw [hback, hfree, List.lookup_cons_self]
    rfl
  have hlast := next?_of_pop rs' _ hpop hsome hread
  rw [hvalue] at hpush
  rw [hback, List.filter_cons_of_neg (by simp), hfresh] at hlast
  exact (comes_of_next? hpush).trans (hbody.trans (comes_of_next? hlast))

end Steps

/-! ## Loops -/

/-- the machine goes on at an address, and what is known has the property -/
structure IsAt (address : Word) (I : Known → Prop) (known : Known) : Prop where
  ip : known.registers.ip = address
  within : known.registers.pastEnd = false
  notHalting : known.halting = false
  holds : I known

theorem IsAt.eq {address : Word} {I : Known → Prop} {known : Known} (h : known.IsAt address I) :
    known = ⟨known.registers.jump address, false, known.written⟩ := by
  obtain ⟨⟨a, b, c, d, m, ip, pastEnd, sp, zero, carry⟩, halting, written⟩ := known
  obtain ⟨rfl, rfl, rfl, -⟩ := h
  rfl

/-- from whatever satisfies the one, steps lead to something that satisfies the other -/
def Leads (program : Program) (P Q : Known → Prop) : Prop :=
  ∀ known, P known → ∃ next, Comes program known next ∧ Q next

theorem Leads.trans {P Q R : Known → Prop} (h : Leads program P Q) (h' : Leads program Q R) : Leads program P R := by
  intro known hknown
  obtain ⟨mid, hcomes, hmid⟩ := h known hknown
  obtain ⟨next, hmore, hnext⟩ := h' mid hmid
  exact ⟨next, hcomes.trans hmore, hnext⟩

/-- the same from explicit registers -/
theorem Leads.exists_registers {entry exit : Word} {I J : Known → Prop}
    (h : Leads program (IsAt entry I) (IsAt exit J)) (rs : Registers) (written : List (Word × Byte))
    (hI : I ⟨rs.jump entry, false, written⟩) :
    ∃ (rs' : Registers) (written' : List (Word × Byte)),
      Comes program ⟨rs.jump entry, false, written⟩ ⟨rs'.jump exit, false, written'⟩ ∧
        J ⟨rs'.jump exit, false, written'⟩ := by
  obtain ⟨next, hcomes, hnext⟩ := h ⟨rs.jump entry, false, written⟩ ⟨rfl, rfl, rfl, hI⟩
  have hholds := hnext.holds
  rw [hnext.eq] at hcomes hholds
  exact ⟨next.registers, next.written, hcomes, hholds⟩

/-- **A loop that counts a byte down comes to its end.** The byte is tested after it was counted, so a loop that begins
with zero goes around 256 times. -/
theorem Leads.loop (counter : Known → Byte) {P Q : Known → Prop}
    (hbody : ∀ known, P known → ∃ next, Comes program known next ∧ counter next = counter known - 1 ∧
      (counter next ≠ 0 → P next) ∧ (counter next = 0 → Q next)) :
    Leads program P Q := by
  intro known hknown
  induction hrounds : (counter known - 1).toNat generalizing known with
  | zero =>
    obtain ⟨next, hnext, hcounter, -, hexit⟩ := hbody known hknown
    rw [← hcounter, ← UInt8.toNat_zero, UInt8.toNat_inj] at hrounds
    exact ⟨next, hnext, hexit hrounds⟩
  | succ rounds ih =>
    obtain ⟨next, hnext, hcounter, hagain, -⟩ := hbody known hknown
    rw [← hcounter] at hrounds
    have hne : counter next ≠ 0 := by
      intro hzero
      rw [hzero, UInt8.toNat_zero] at hrounds
      cases hrounds
    have hless : (counter next - 1).toNat = rounds := by
      rw [UInt8.toNat_sub_of_le _ _ (UInt8.le_iff_toNat_le.2 (by rw [hrounds]; exact Nat.succ_pos rounds)), hrounds]
      rfl
    obtain ⟨last, hlast, hQ⟩ := ih next (hagain hne) hless
    exact ⟨last, hnext.trans hlast, hQ⟩

/-- **A loop that ends with a test of its counter comes to what is after the test,** if its body leads to the test from
whatever has a property, and keeps the property. -/
theorem Leads.countdown {entry test : Word} {lo hi : Byte} {I : Known → Prop} (counter : Registers → Byte)
    (htest : program.instruction? test = some (.jnz lo hi)) (hentry : Word.ofBytes lo hi = entry)
    (hcounter : ∀ rs target, counter (rs.jump target) = counter rs)
    (hI : ∀ known target, I known → I ⟨known.registers.jump target, false, known.written⟩)
    (hbody : ∀ rs written, I ⟨rs.jump entry, false, written⟩ →
      ∃ next, Comes program ⟨rs.jump entry, false, written⟩ next ∧ next.IsAt test I ∧
        counter next.registers = counter rs - 1 ∧ next.registers.zero = decide (counter next.registers = 0)) :
    Leads program (IsAt entry I) (IsAt (test + 3) I) := by
  refine Leads.loop (fun known => counter known.registers) fun known hknown => ?_
  have hholds := hknown.holds
  rw [hknown.eq] at hholds
  obtain ⟨next, hcomes, hnext, hcounted, hzero⟩ := hbody known.registers known.written hholds
  rw [← hknown.eq] at hcomes
  have hjump := next?_of_jnz next.registers next.written htest
  rw [← hnext.eq, hzero, hentry] at hjump
  refine ⟨_, hcomes.trans (comes_of_next? hjump), (hcounter _ _).trans hcounted, fun hne => ?_, fun hexit => ?_⟩
  · rw [hcounter] at hne
    rw [decide_eq_false hne]
    exact ⟨rfl, rfl, rfl, hI _ _ hnext.holds⟩
  · rw [hcounter] at hexit
    rw [decide_eq_true hexit]
    exact ⟨rfl, rfl, rfl, hI _ _ hnext.holds⟩

end ByteMachine.Known
