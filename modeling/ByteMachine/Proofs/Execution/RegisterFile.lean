/-
The laws of the register file. A write to the register that a byte names is seen by a read through the same byte and by
no other one, so the halves of the two pointers are registers like all others; a byte that names none reads as zero, and
what is written there is lost.

- `Registers.get_set`, `Registers.pair_setPair_iff`: reads after writes, of one register and of two.
- `Registers.setPair_setPair_pair`: what two registers held is put back.
- `Board.inl_del_restores`: counting up two registers and down again.
- `registers_read_last_write`: the laws together.
-/
import Mathlib.Tactic
import ByteMachine.Proofs.Execution.Flags

namespace ByteMachine

/-! ## Bytes that name registers -/

namespace Register

/-- a byte up to eight names a register, and no other byte does -/
theorem eq_index_or_lt (i : Byte) : (∃ r : Register, i = r.index) ∨ 8 < i := by
  cases hr : ofIndex? i with
  | some r => exact .inl ⟨r, ofIndex?_eq_some_iff.1 hr⟩
  | none =>
    refine .inr (UInt8.lt_iff_toNat_lt.2 (Nat.lt_of_not_le fun hle => ?_))
    obtain ⟨n, hn⟩ : ∃ n, i = UInt8.ofNat n ∧ n ≤ 8 := ⟨i.toNat, UInt8.ofNat_toNat.symm, hle⟩
    obtain ⟨rfl, hn⟩ := hn
    interval_cases n <;> cases hr

theorem index_le (r : Register) : r.index ≤ 8 := by
  cases r <;> decide

theorem index_inj {r s : Register} : r.index = s.index ↔ r = s := by
  refine ⟨fun h => ?_, congrArg index⟩
  have hsome := ofIndex?_index r
  rw [h, ofIndex?_index] at hsome
  exact (Option.some.inj hsome).symm

theorem ofIndex?_of_lt {i : Byte} (h : 8 < i) : ofIndex? i = none := by
  cases hr : ofIndex? i with
  | none => rfl
  | some r =>
    rw [ofIndex?_eq_some_iff.1 hr] at h
    exact absurd h (UInt8.not_lt.2 r.index_le)

/-- the byte names a half of the instruction pointer -/
def IsIpHalf (i : Byte) : Prop := i = ipl.index ∨ i = iph.index

instance (i : Byte) : Decidable (IsIpHalf i) :=
  inferInstanceAs (Decidable (_ ∨ _))

end Register

open Register (IsIpHalf)

namespace Registers

variable {rs rs' : Registers} {i j : Byte}

/-! ## One register -/

theorem get_index (rs : Registers) (r : Register) : rs.get r.index = rs.read r := by
  simp [get]

theorem set_index (rs : Registers) (r : Register) (value : Byte) : rs.set r.index value = rs.write r value := by
  simp [set]

theorem get_of_lt (rs : Registers) (h : 8 < i) : rs.get i = 0 := by
  simp [get, Register.ofIndex?_of_lt h]

theorem set_of_lt (rs : Registers) (h : 8 < i) (value : Byte) : rs.set i value = rs := by
  simp [set, Register.ofIndex?_of_lt h]

/-- **Reads after a write.** The register that was written reads as the value, and all others read as before. -/
theorem get_set (rs : Registers) (i j value : Byte) :
    (rs.set i value).get j = if i = j ∧ j ≤ 8 then value else rs.get j := by
  rcases Register.eq_index_or_lt j with ⟨r, rfl⟩ | hj
  · rcases Register.eq_index_or_lt i with ⟨s, rfl⟩ | hi
    · rw [set_index, get_index, get_index, read_write]
      refine if_congr ?_ rfl rfl
      rw [Register.index_inj, and_iff_left r.index_le, eq_comm]
    · rw [rs.set_of_lt hi, if_neg]
      rintro ⟨rfl, hle⟩
      exact UInt8.not_lt.2 hle hi
  · rw [get_of_lt _ hj, get_of_lt _ hj, if_neg fun hsame => UInt8.not_lt.2 hsame.2 hj]

theorem pastEnd_set (rs : Registers) (i value : Byte) :
    (rs.set i value).pastEnd = if IsIpHalf i then false else rs.pastEnd := by
  rcases Register.eq_index_or_lt i with ⟨r, rfl⟩ | hi
  · rw [set_index]
    cases r <;> rfl
  · rw [rs.set_of_lt hi, if_neg]
    rintro (rfl | rfl) <;> exact absurd hi (by decide)

theorem ip_set (rs : Registers) (hi : ¬ IsIpHalf i) (value : Byte) : (rs.set i value).ip = rs.ip := by
  rcases Register.eq_index_or_lt i with ⟨r, rfl⟩ | hout
  · rw [set_index]
    cases r with
    | ipl => exact absurd (.inl rfl) hi
    | iph => exact absurd (.inr rfl) hi
    | _ => rfl
  · rw [rs.set_of_lt hout]

theorem sp_set (rs : Registers) (hlow : i ≠ Register.spl.index) (hhigh : i ≠ Register.sph.index) (value : Byte) :
    (rs.set i value).sp = rs.sp := by
  rcases Register.eq_index_or_lt i with ⟨r, rfl⟩ | hout
  · rw [set_index]
    cases r with
    | spl => exact absurd rfl hlow
    | sph => exact absurd rfl hhigh
    | _ => rfl
  · rw [rs.set_of_lt hout]

/-- what a write of a value through a byte makes of the registers -/
structure Overwrites (rs : Registers) (i value : Byte) (after : Registers) : Prop where
  /-- the register named reads as the value, and every other one as before -/
  get : ∀ j, after.get j = if i = j ∧ j ≤ 8 then value else rs.get j
  /-- through a byte above eight zero is read and nothing is written -/
  outside : 8 < i → rs.get i = 0 ∧ after = rs
  /-- each pointer changes through its own halves only -/
  ip : ¬ IsIpHalf i → after.ip = rs.ip
  sp : i ≠ Register.spl.index → i ≠ Register.sph.index → after.sp = rs.sp
  zero : after.zero = rs.zero
  carry : after.carry = rs.carry
  /-- the mark of the last address is cleared through a half of the instruction pointer -/
  pastEnd : after.pastEnd = if IsIpHalf i then false else rs.pastEnd

theorem overwrites_set (rs : Registers) (i value : Byte) : rs.Overwrites i value (rs.set i value) where
  get := fun j => rs.get_set i j value
  outside := fun hi => ⟨rs.get_of_lt hi, rs.set_of_lt hi value⟩
  ip := fun hi => rs.ip_set hi value
  sp := fun hlow hhigh => rs.sp_set hlow hhigh value
  zero := rs.zero_set i value
  carry := rs.carry_set i value
  pastEnd := rs.pastEnd_set i value

/-- registers are told apart by what is read, the flags and the mark -/
theorem ext_get (hget : ∀ i, rs.get i = rs'.get i) (hpastEnd : rs.pastEnd = rs'.pastEnd) (hzero : rs.zero = rs'.zero)
    (hcarry : rs.carry = rs'.carry) : rs = rs' := by
  have hread : ∀ r, rs.read r = rs'.read r := by
    intro r
    rw [← get_index, ← get_index, hget]
  have hip : rs.ip = rs'.ip := by
    rw [← Word.ofBytes_low_high rs.ip, ← Word.ofBytes_low_high rs'.ip]
    exact congrArg₂ Word.ofBytes (hread .ipl) (hread .iph)
  have hsp : rs.sp = rs'.sp := by
    rw [← Word.ofBytes_low_high rs.sp, ← Word.ofBytes_low_high rs'.sp]
    exact congrArg₂ Word.ofBytes (hread .spl) (hread .sph)
  obtain ⟨a, b, c, d, m, ip, pastEnd, sp, zero, carry⟩ := rs
  obtain ⟨a', b', c', d', m', ip', pastEnd', sp', zero', carry'⟩ := rs'
  obtain rfl : a = a' := hread .a
  obtain rfl : b = b' := hread .b
  obtain rfl : c = c' := hread .c
  obtain rfl : d = d' := hread .d
  obtain rfl : m = m' := hread .m
  subst hip hpastEnd hsp hzero hcarry
  rfl

/-! ## Two registers -/

theorem get_setPair (rs : Registers) (i j k : Byte) (value : Word) :
    (rs.setPair i j value).get k =
      if j = k ∧ k ≤ 8 then Word.high value else if i = k ∧ k ≤ 8 then Word.low value else rs.get k := by
  rw [setPair, get_set, get_set]

/-- a word is read back from two different registers, -/
theorem pair_setPair (rs : Registers) (hne : i ≠ j) (hi : i ≤ 8) (hj : j ≤ 8) (value : Word) :
    (rs.setPair i j value).pair i j = value := by
  rw [pair, get_setPair, get_setPair, if_neg fun h => hne h.1.symm, if_pos ⟨rfl, hi⟩, if_pos ⟨rfl, hj⟩,
    Word.ofBytes_low_high]

/-- and from no other two bytes -/
theorem pair_setPair_iff (rs : Registers) (i j : Byte) :
    (∀ value, (rs.setPair i j value).pair i j = value) ↔ i ≠ j ∧ i ≤ 8 ∧ j ≤ 8 := by
  refine ⟨fun h => ?_, fun ⟨hne, hi, hj⟩ => rs.pair_setPair hne hi hj⟩
  -- a word with two different bytes, neither of them zero
  have hlow : (rs.setPair i j 0x0102).get i = 2 := by
    have hword := congrArg Word.low (h 0x0102)
    rwa [pair, Word.low_ofBytes] at hword
  have hhigh : (rs.setPair i j 0x0102).get j = 1 := by
    have hword := congrArg Word.high (h 0x0102)
    rwa [pair, Word.high_ofBytes] at hword
  refine ⟨?_, UInt8.not_lt.1 fun hi => ?_, UInt8.not_lt.1 fun hj => ?_⟩
  · rintro rfl
    rw [hlow] at hhigh
    cases hhigh
  · rw [get_of_lt _ hi] at hlow
    cases hlow
  · rw [get_of_lt _ hj] at hhigh
    cases hhigh

/-- **What two registers held is put back** by writing it again, whatever was written to them in between. -/
theorem setPair_setPair_pair (rs : Registers) (hi : ¬ IsIpHalf i) (hj : ¬ IsIpHalf j) (value : Word) :
    (rs.setPair i j value).setPair i j (rs.pair i j) = rs := by
  refine ext_get (fun k => ?_) ?_ ?_ ?_
  · rw [get_setPair, get_setPair, pair, Word.high_ofBytes, Word.low_ofBytes]
    split_ifs with hhigh hlow
    · rw [hhigh.1]
    · rw [hlow.1]
    · rfl
  · simp only [setPair, pastEnd_set, if_neg hi, if_neg hj]
  · simp only [setPair, zero_set]
  · simp only [setPair, carry_set]

/-! ## Apart from the instruction pointer -/

/-- the registers and flags are the same, but for the instruction pointer -/
structure AgreeBesidesIp (rs rs' : Registers) : Prop where
  get : ∀ i, ¬ IsIpHalf i → rs'.get i = rs.get i
  zero : rs'.zero = rs.zero
  carry : rs'.carry = rs.carry

theorem AgreeBesidesIp.trans {rs'' : Registers} (h : rs.AgreeBesidesIp rs') (h' : rs'.AgreeBesidesIp rs'') :
    rs.AgreeBesidesIp rs'' :=
  ⟨fun i hi => (h'.get i hi).trans (h.get i hi), h'.zero.trans h.zero, h'.carry.trans h.carry⟩

theorem AgreeBesidesIp.pair (h : rs.AgreeBesidesIp rs') (hi : ¬ IsIpHalf i) (hj : ¬ IsIpHalf j) :
    rs'.pair i j = rs.pair i j :=
  congrArg₂ Word.ofBytes (h.get i hi) (h.get j hj)

theorem AgreeBesidesIp.setPair (h : rs.AgreeBesidesIp rs') (i j : Byte) (value : Word) :
    (rs.setPair i j value).AgreeBesidesIp (rs'.setPair i j value) := by
  refine ⟨fun k hk => ?_, ?_, ?_⟩
  · rw [get_setPair, get_setPair, h.get k hk]
  · simp only [Registers.setPair, zero_set, h.zero]
  · simp only [Registers.setPair, carry_set, h.carry]

theorem SameData.agreeBesidesIp (h : rs.SameData rs') (hsp : rs'.sp = rs.sp) : rs.AgreeBesidesIp rs' := by
  refine ⟨fun i hi => ?_, h.zero, h.carry⟩
  rcases Register.eq_index_or_lt i with ⟨r, rfl⟩ | hout
  · rw [get_index, get_index]
    cases r with
    | a => exact h.a
    | b => exact h.b
    | c => exact h.c
    | d => exact h.d
    | m => exact h.m
    | ipl => exact absurd (.inl rfl) hi
    | iph => exact absurd (.inr rfl) hi
    | spl => exact congrArg Word.low hsp
    | sph => exact congrArg Word.high hsp
  · rw [get_of_lt _ hout, get_of_lt _ hout]

theorem AgreeBesidesIp.read (h : rs.AgreeBesidesIp rs') (r : Register) (hr : ¬ IsIpHalf r.index) :
    rs'.read r = rs.read r := by
  rw [← get_index, ← get_index, h.get _ hr]

theorem AgreeBesidesIp.sameData (h : rs.AgreeBesidesIp rs') : rs.SameData rs' where
  a := h.read .a (by decide)
  b := h.read .b (by decide)
  c := h.read .c (by decide)
  d := h.read .d (by decide)
  m := h.read .m (by decide)
  zero := h.zero
  carry := h.carry

theorem AgreeBesidesIp.sp (h : rs.AgreeBesidesIp rs') : rs'.sp = rs.sp := by
  rw [← Word.ofBytes_low_high rs'.sp, ← Word.ofBytes_low_high rs.sp]
  exact congrArg₂ Word.ofBytes (h.read .spl (by decide)) (h.read .sph (by decide))

end Registers

theorem Machine.MovedOnly.agreeBesidesIp {before after : Machine} (h : before.MovedOnly after) :
    before.registers.AgreeBesidesIp after.registers :=
  h.data.agreeBesidesIp h.sp

/-! ## Counting up and down -/

namespace Board

variable {σ : Type} [Device σ] {board : Board σ} {i : Instruction} {lo hi : Byte} {f : Word → Word}

/-- a step that replaces the word in two registers: it does nothing else, apart from the fetch -/
theorem step_modifyPair (hnext : board.awake.nextInstruction? = some i)
    (hexecute : (execute i : Exec σ Unit) = Exec.modifyPair lo hi f) :
    (∃ exit, board.step.1 = .ok exit) ∧ board.step.2.machine.memory = board.machine.memory ∧
      ∃ rs, board.machine.registers.AgreeBesidesIp rs ∧
        board.step.2.machine.registers = rs.setPair lo hi (f (rs.pair lo hi)) := by
  have hmoved := board.movedOnly_reached i
  have hrun : (execute i).run (board.awake.reached i) = .ok () ((board.awake.reached i).withRegisters
      ((board.awake.reached i).machine.registers.setPair lo hi
        (f ((board.awake.reached i).machine.registers.pair lo hi)))) := by
    rw [hexecute]
    rfl
  rw [step_eq_of_some hnext, hrun]
  refine ⟨?_, ?_, _, hmoved.agreeBesidesIp, ?_⟩
  · rw [conclude]
    split
    · exact ⟨.halted, rfl⟩
    · exact ⟨.paused, rfl⟩
  · exact (@conclude_same _ _ (·.machine.memory) (fun _ _ _ => rfl) _ _).trans hmoved.memory
  · exact registers_conclude _ _

/-- **Counting up and down again** restores two different registers, and no other one has changed but the instruction
pointer. -/
theorem inl_del_restores (hne : lo ≠ hi) (hlo : lo ≤ 8) (hhi : hi ≤ 8) (hloIp : ¬ IsIpHalf lo) (hhiIp : ¬ IsIpHalf hi)
    (hinl : board.awake.nextInstruction? = some (.inl lo hi))
    (hdel : board.step.2.awake.nextInstruction? = some (.del lo hi)) :
    (∃ exit, board.step.1 = .ok exit) ∧ (∃ exit, board.step.2.step.1 = .ok exit) ∧
      board.machine.MovedOnly board.step.2.step.2.machine := by
  obtain ⟨hup, hmemoryUp, rs, hrs, hregistersUp⟩ := step_modifyPair hinl rfl
  obtain ⟨hdown, hmemoryDown, rs', hrs', hregistersDown⟩ := step_modifyPair hdel rfl
  -- the second step finds the word counted up by one
  have hword : rs'.pair lo hi - 1 = rs.pair lo hi := by
    rw [hrs'.pair hloIp hhiIp, hregistersUp, rs.pair_setPair hne hlo hhi, UInt16.add_sub_cancel]
  have hagree : board.machine.registers.AgreeBesidesIp board.step.2.step.2.machine.registers := by
    rw [hregistersDown, hword]
    rw [hregistersUp] at hrs'
    have hrestored := hrs'.setPair lo hi (rs.pair lo hi)
    rw [rs.setPair_setPair_pair hloIp hhiIp] at hrestored
    exact hrs.trans hrestored
  exact ⟨hup, hdown, hmemoryDown.trans hmemoryUp, hagree.sameData, hagree.sp⟩

end Board

/-- **Registers read as last written.** A write through a byte changes the register that the byte names, and clears the
mark of the last address if that is a half of the instruction pointer; it changes nothing else. Two bytes hold every word
iff they name two different registers. If neither is a half of the instruction pointer, to count such a word up and down
again leaves all as it was but for the instruction pointer, in whatever state the machine and its device are. -/
theorem registers_read_last_write (rs : Registers) (i j : Byte) :
    (∀ value, rs.Overwrites i value (rs.set i value)) ∧
      ((∀ value, (rs.setPair i j value).pair i j = value) ↔ i ≠ j ∧ i ≤ 8 ∧ j ≤ 8) ∧
      ∀ (σ : Type) [Device σ] (board : Board σ), i ≠ j → i ≤ 8 → j ≤ 8 → ¬ IsIpHalf i → ¬ IsIpHalf j →
        board.awake.nextInstruction? = some (.inl i j) → board.step.2.awake.nextInstruction? = some (.del i j) →
          (∃ exit, board.step.1 = .ok exit) ∧ (∃ exit, board.step.2.step.1 = .ok exit) ∧
            board.machine.MovedOnly board.step.2.step.2.machine :=
  ⟨rs.overwrites_set i, rs.pair_setPair_iff i j, fun _ _ _ hne hi hj hiIp hjIp hinl hdel =>
    Board.inl_del_restores hne hi hj hiIp hjIp hinl hdel⟩

/-- a machine with `inl spl c` and `del spl c` at address 0x1230, and the word 0x12ff in the two registers -/
def carrying : Board NoDevice :=
  ⟨{ Machine.initial with
      memory := Memory.zero.writeAll 0x1230 [0x1c, 0x07, 0x02, 0x1d, 0x07, 0x02]
      registers := { Registers.initial with ip := 0x1230, c := 0x12, sp := 0xf0ff }
      stopped := false }, ⟨⟩⟩

theorem carrying_is_restored :
    carrying.step.2.machine.registers.c = 0x13 ∧ carrying.step.2.machine.registers.sp = 0xf000 ∧
      carrying.step.2.step.2.machine.registers.c = 0x12 ∧ carrying.step.2.step.2.machine.registers.sp = 0xf0ff := by
  have hinl : carrying.awake.nextInstruction? = some (.inl 7 2) := by decide +kernel
  have hdel : carrying.step.2.awake.nextInstruction? = some (.del 7 2) := by decide +kernel
  obtain ⟨-, -, hcount⟩ := registers_read_last_write carrying.machine.registers 7 2
  obtain ⟨-, -, hmoved⟩ := hcount NoDevice carrying (by decide) (by decide) (by decide) (by decide) (by decide) hinl hdel
  exact ⟨by decide +kernel, by decide +kernel, hmoved.data.c, hmoved.sp⟩

end ByteMachine
