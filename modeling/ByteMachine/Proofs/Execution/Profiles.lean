/-
Counts that stop. No count goes beyond the greatest sixty-four-bit number. After any additions it is the exact sum of what
was added to it, or that number if the sum is greater; the total is the exact sum of the counts, or that number.

- `Profile.toNat_total`: the total against the exact sum.
- `Profile.toNat_get_addAll`, `Profile.toNat_total_addAll`: each count and the total after any additions.
- `Profile.sum_addAll`: all counts together, while they do not come to the greatest number.
- `Profile.counts_stop_at_limit`: any additions to an empty profile, in any order.
-/
import Mathlib.Tactic
import ByteMachine.Profile

namespace ByteMachine.Profile

def sum (p : Profile) : Nat := (Category.all.map fun category => (p.get category).toNat).sum

def addAll (p : Profile) : List (Category × UInt64) → Profile
  | [] => p
  | (category, amount) :: amounts => (p.add category amount).addAll amounts

/-- the exact sum of the amounts that are for a category -/
def amountFor (category : Category) : List (Category × UInt64) → Nat
  | [] => 0
  | (other, amount) :: amounts => (if category = other then amount.toNat else 0) + amountFor category amounts

theorem sum_eq (p : Profile) :
    p.sum = p.dataMove.toNat + p.controlFlow.toNat + p.stack.toNat + p.memory.toNat + p.arithmetic.toNat +
      p.halt.toNat := by
  simp only [sum, Category.all, List.map_cons, List.map_nil, List.sum_cons, List.sum_nil, get]
  omega

/-- **The total** is the exact sum of the counts, or the greatest sixty-four-bit number if that is smaller. -/
theorem toNat_total (p : Profile) : p.total.toNat = min 0xffffffffffffffff p.sum := by
  simp only [sum_eq, total, counts, Category.all, List.map_cons, List.map_nil, List.foldl_cons, List.foldl_nil,
    toNat_saturatingAdd, UInt64.toNat_zero, get]
  omega

theorem toNat_get_add (p : Profile) (category other : Category) (amount : UInt64) :
    ((p.add category amount).get other).toNat =
      min 0xffffffffffffffff ((p.get other).toNat + if other = category then amount.toNat else 0) := by
  have hcount := (p.get other).toNat_lt
  rw [get_add]
  split_ifs with h
  · rw [h, toNat_saturatingAdd]
  · omega

/-- **Each count** is the exact sum of what was added to it, or the greatest sixty-four-bit number. -/
theorem toNat_get_addAll (p : Profile) (amounts : List (Category × UInt64)) (category : Category) :
    ((p.addAll amounts).get category).toNat =
      min 0xffffffffffffffff ((p.get category).toNat + amountFor category amounts) := by
  induction amounts generalizing p with
  | nil =>
    have hcount := (p.get category).toNat_lt
    rw [addAll, amountFor]
    omega
  | cons first amounts ih =>
    obtain ⟨other, amount⟩ := first
    rw [addAll, ih, toNat_get_add, amountFor]
    omega

theorem addAll_append (p : Profile) (first second : List (Category × UInt64)) :
    p.addAll (first ++ second) = (p.addAll first).addAll second := by
  induction first generalizing p with
  | nil => rfl
  | cons head first ih => exact ih _

theorem get_le_sum (p : Profile) (category : Category) : (p.get category).toNat ≤ p.sum := by
  rw [sum_eq]
  cases category <;> simp only [get] <;> omega

theorem sum_add {p : Profile} {amount : UInt64} (h : p.sum + amount.toNat < 0x10000000000000000)
    (category : Category) : (p.add category amount).sum = p.sum + amount.toNat := by
  rw [sum_eq] at h
  rw [sum_eq, sum_eq]
  cases category <;> simp only [add, toNat_saturatingAdd] <;> omega

/-- nothing that is added is lost while the exact sum is a sixty-four-bit number -/
theorem sum_addAll {p : Profile} {amounts : List (Category × UInt64)}
    (h : p.sum + (amounts.map (·.2.toNat)).sum < 0x10000000000000000) :
    (p.addAll amounts).sum = p.sum + (amounts.map (·.2.toNat)).sum := by
  induction amounts generalizing p with
  | nil => rfl
  | cons first amounts ih =>
    rw [List.map_cons, List.sum_cons] at h ⊢
    have hfirst := @sum_add p first.2 (by omega) first.1
    rw [addAll, ih (by omega), hfirst, Nat.add_assoc]

/-! ## At the limit -/

theorem ext_get {p q : Profile} (h : ∀ category, p.get category = q.get category) : p = q := by
  cases p
  cases q
  exact congr (congr (congr (congr (congr (congrArg mk (h .dataMove)) (h .controlFlow)) (h .stack)) (h .memory))
    (h .arithmetic)) (h .halt)

/-- what one count loses at the limit is above the limit of the total as well -/
theorem toNat_total_add (p : Profile) (category : Category) (amount : UInt64) :
    (p.add category amount).total.toNat = min 0xffffffffffffffff (p.total.toNat + amount.toNat) := by
  rw [toNat_total, toNat_total, sum_eq, sum_eq]
  cases category <;> simp only [add, toNat_saturatingAdd] <;> omega

/-- **The total after any additions** is exact, or the greatest sixty-four-bit number. By induction on the additions: the
total before the rest of them says all that is needed of the counts. -/
theorem toNat_total_addAll (p : Profile) (amounts : List (Category × UInt64)) :
    (p.addAll amounts).total.toNat =
      min 0xffffffffffffffff (p.total.toNat + (amounts.map (·.2.toNat)).sum) := by
  induction amounts generalizing p with
  | nil =>
    have htotal := p.total.toNat_lt
    rw [addAll, List.map_nil, List.sum_nil]
    omega
  | cons first amounts ih =>
    rw [addAll, ih, toNat_total_add, List.map_cons, List.sum_cons]
    omega

theorem amountFor_eq_sum (category : Category) (amounts : List (Category × UInt64)) :
    amountFor category amounts = (amounts.map fun x => if category = x.1 then x.2.toNat else 0).sum := by
  induction amounts with
  | nil => rfl
  | cons first amounts ih => rw [amountFor, ih, List.map_cons, List.sum_cons]

theorem amountFor_of_perm {amounts reordered : List (Category × UInt64)} (h : reordered.Perm amounts)
    (category : Category) : amountFor category reordered = amountFor category amounts := by
  rw [amountFor_eq_sum, amountFor_eq_sum]
  exact (h.map _).sum_nat

theorem addAll_of_perm (p : Profile) {amounts reordered : List (Category × UInt64)} (h : reordered.Perm amounts) :
    p.addAll reordered = p.addAll amounts := by
  refine ext_get fun category => UInt64.toNat_inj.1 ?_
  rw [toNat_get_addAll, toNat_get_addAll, amountFor_of_perm h]

theorem get_le_get_add (p : Profile) (category other : Category) (amount : UInt64) :
    p.get other ≤ (p.add category amount).get other := by
  have hcount := (p.get other).toNat_lt
  rw [UInt64.le_iff_toNat_le, toNat_get_add]
  omega

theorem total_le_total_add (p : Profile) (category : Category) (amount : UInt64) :
    p.total ≤ (p.add category amount).total := by
  have htotal := p.total.toNat_lt
  rw [UInt64.le_iff_toNat_le, toNat_total_add]
  omega

/-- **The limit takes off what is above it and nothing else.** After any additions to the empty profile, each count is the
exact sum of the amounts that are for its category, or the greatest sixty-four-bit number if that is smaller, and the
total is the exact sum of all amounts, or that number. Any other order of the additions leads to the same profile, and no
addition to any profile lowers a count or the total. -/
theorem counts_stop_at_limit (amounts : List (Category × UInt64)) :
    (∀ category, ((empty.addAll amounts).get category).toNat = min 0xffffffffffffffff (amountFor category amounts)) ∧
      (empty.addAll amounts).total.toNat = min 0xffffffffffffffff (amounts.map (·.2.toNat)).sum ∧
      (∀ reordered, reordered.Perm amounts → empty.addAll reordered = empty.addAll amounts) ∧
      ∀ (p : Profile) category amount,
        (∀ other, p.get other ≤ (p.add category amount).get other) ∧ p.total ≤ (p.add category amount).total := by
  refine ⟨fun category => ?_, ?_, fun reordered h => addAll_of_perm empty h, fun p category amount => ?_⟩
  · rw [toNat_get_addAll, get_empty, UInt64.toNat_zero, Nat.zero_add]
  · have hempty : empty.total = 0 := rfl
    rw [toNat_total_addAll, hempty, UInt64.toNat_zero, Nat.zero_add]
  · exact ⟨fun other => p.get_le_get_add category other amount, p.total_le_total_add category amount⟩

/-- additions of which two together go over the limit -/
def overLimit : List (Category × UInt64) := [(.memory, 0xffffffffffffffff), (.stack, 3), (.memory, 1)]

theorem overLimit_stops :
    ((empty.addAll overLimit).get .memory).toNat = 0xffffffffffffffff ∧ ((empty.addAll overLimit).get .stack).toNat = 3 ∧
      (empty.addAll overLimit).total.toNat = 0xffffffffffffffff ∧
      empty.addAll overLimit.reverse = empty.addAll overLimit := by
  obtain ⟨hcounts, htotal, horder, -⟩ := counts_stop_at_limit overLimit
  exact ⟨hcounts .memory, hcounts .stack, htotal, horder _ overLimit.reverse_perm⟩

end ByteMachine.Profile
