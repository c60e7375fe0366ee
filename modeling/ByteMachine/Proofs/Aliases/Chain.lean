/-
Chains of links. Each element has a link to at most one other, so a start determines all that is reached from it. A chain
either ends at an element without a link, and then at that one only, or it never ends. It never ends if it comes back to
an element, since it then goes the same way for ever. More links leave a chain as it was, as far as it went.
-/
import Mathlib.Tactic

namespace ByteMachine.Chain

variable {α : Type}

/-- what the chain of a start has reached after a number of links, if it goes on for that long -/
def after (next : α → Option α) (start : α) : Nat → Option α
  | 0 => some start
  | n + 1 => (after next start n).bind next

/-- the chain of the start comes to the element -/
def Reaches (next : α → Option α) (start a : α) : Prop := ∃ n, after next start n = some a

def Endless (next : α → Option α) (start : α) : Prop := ∀ n, after next start n ≠ none

/-- the element is the first that the chain of the start visits twice -/
def FirstTwice (next : α → Option α) (start a : α) : Prop :=
  ∃ i j, i < j ∧ after next start i = some a ∧ after next start j = some a ∧
    ∀ k l, k < l → l < j → after next start k ≠ after next start l

variable {next : α → Option α} {start a b : α} {m n : Nat}

/-- the chain of an element is that of the next one, a link later -/
theorem after_succ_of_link (h : next a = some b) (n : Nat) : after next a (n + 1) = after next b n := by
  induction n with
  | zero => exact h
  | succ n ih => rw [after, ih, after]

theorem Reaches.cons {last : α} (h : Reaches next b last) (hlink : next a = some b) : Reaches next a last := by
  obtain ⟨n, hn⟩ := h
  exact ⟨n + 1, (after_succ_of_link hlink n).trans hn⟩

/-! ## Chains that end -/

theorem after_eq_none_of_le (h : after next start m = none) (hle : m ≤ n) : after next start n = none := by
  induction hle with
  | refl => exact h
  | step _ ih => rw [after, ih, Option.bind_none]

theorem after_succ_of_end (h : after next start n = some a) (hend : next a = none) :
    after next start (n + 1) = none := by
  rw [after, h, Option.bind_some, hend]

/-- a chain has one end -/
theorem end_unique (ha : Reaches next start a) (hb : Reaches next start b) (hendA : next a = none)
    (hendB : next b = none) : a = b := by
  obtain ⟨m, ha⟩ := ha
  obtain ⟨n, hb⟩ := hb
  rcases lt_trichotomy m n with hlt | rfl | hlt
  · have hnone := after_eq_none_of_le (after_succ_of_end ha hendA) hlt
    rw [hb] at hnone
    cases hnone
  · exact Option.some.inj (ha.symm.trans hb)
  · have hnone := after_eq_none_of_le (after_succ_of_end hb hendB) hlt
    rw [ha] at hnone
    cases hnone

theorem not_endless_of_end (h : Reaches next start a) (hend : next a = none) : ¬ Endless next start := by
  obtain ⟨n, h⟩ := h
  intro hendless
  exact hendless (n + 1) (after_succ_of_end h hend)

/-! ## Chains that come back -/

theorem after_add_congr (h : after next start m = after next start n) (steps : Nat) :
    after next start (m + steps) = after next start (n + steps) := by
  induction steps with
  | zero => exact h
  | succ steps ih => rw [← Nat.add_assoc, ← Nat.add_assoc, after, after, ih]

/-- a chain that comes back after some links is there again after as many more, any number of times -/
theorem after_add_mul (h : after next start m = after next start (m + n)) (times : Nat) :
    after next start (m + times * n) = after next start m := by
  induction times with
  | zero => rw [Nat.zero_mul, Nat.add_zero]
  | succ times ih =>
    calc after next start (m + (times + 1) * n)
        = after next start (m + n + times * n) := by congr 1; ring
      _ = after next start (m + times * n) := (after_add_congr h _).symm
      _ = after next start m := ih

theorem endless_of_firstTwice (h : FirstTwice next start a) : Endless next start := by
  obtain ⟨i, j, hlt, hi, hj, -⟩ := h
  obtain ⟨period, rfl⟩ := Nat.exists_eq_add_of_lt hlt
  intro n hnone
  have hback : after next start i = after next start (i + (period + 1)) := hi.trans hj.symm
  have hlater : after next start (i + n * (period + 1)) = none := by
    refine after_eq_none_of_le hnone ?_
    calc n = n * 1 := (Nat.mul_one n).symm
      _ ≤ n * (period + 1) := Nat.mul_le_mul_left n (Nat.le_add_left 1 period)
      _ ≤ i + n * (period + 1) := Nat.le_add_left _ i
  rw [after_add_mul hback, hi] at hlater
  cases hlater

/-- a chain has one element that it visits twice first -/
theorem firstTwice_unique (ha : FirstTwice next start a) (hb : FirstTwice next start b) : a = b := by
  obtain ⟨i, j, hij, hi, hj, hfirst⟩ := ha
  obtain ⟨k, l, hkl, hk, hl, hfirst'⟩ := hb
  rcases lt_trichotomy j l with hlt | rfl | hlt
  · exact absurd (hi.trans hj.symm) (hfirst' i j hij hlt)
  · exact Option.some.inj (hj.symm.trans hl)
  · exact absurd (hk.trans hl.symm) (hfirst k l hkl hlt)

/-! ## More links -/

section Longer

variable {next' : α → Option α}

/-- where no link is lost a chain goes on as before, as far as it went -/
theorem after_mono (hlinks : ∀ a b, next a = some b → next' a = some b) (h : after next start n = some a) :
    after next' start n = some a := by
  induction n generalizing a with
  | zero => exact h
  | succ n ih =>
    obtain ⟨b, hb, hlink⟩ := Option.bind_eq_some_iff.1 h
    rw [after, ih hb, Option.bind_some]
    exact hlinks b a hlink

theorem Reaches.mono (hlinks : ∀ a b, next a = some b → next' a = some b) (h : Reaches next start a) :
    Reaches next' start a := by
  obtain ⟨n, hn⟩ := h
  exact ⟨n, after_mono hlinks hn⟩

/-- an endless chain is not changed by more links -/
theorem after_eq_of_endless (hlinks : ∀ a b, next a = some b → next' a = some b) (h : Endless next start) :
    after next' start = after next start := by
  funext n
  obtain ⟨a, ha⟩ := Option.ne_none_iff_exists'.1 (h n)
  rw [ha, after_mono hlinks ha]

theorem FirstTwice.mono (hlinks : ∀ a b, next a = some b → next' a = some b) (h : FirstTwice next start a) :
    FirstTwice next' start a := by
  rwa [FirstTwice, after_eq_of_endless hlinks (endless_of_firstTwice h)]

end Longer

/-! ## Two chains in step -/

section Step

variable {β : Type} {R : α → β → Prop} {next' : β → Option β} {start' : β}

theorem rel_after (hnext : ∀ a b, R a b → Option.Rel R (next a) (next' b)) (h : R start start') (n : Nat) :
    Option.Rel R (after next start n) (after next' start' n) := by
  induction n with
  | zero => exact .some h
  | succ n ih =>
    rw [after, after]
    generalize after next start n = x at ih
    generalize after next' start' n = y at ih
    cases ih with
    | none => exact .none
    | some hab => exact hnext _ _ hab

theorem exists_after (hnext : ∀ a b, R a b → Option.Rel R (next a) (next' b)) (h : R start start')
    (ha : after next start n = some a) : ∃ b, R a b ∧ after next' start' n = some b := by
  have hrel := rel_after hnext h n
  rw [ha] at hrel
  generalize after next' start' n = y at hrel
  cases hrel with
  | some hab => exact ⟨_, hab, rfl⟩

theorem Reaches.rel (hnext : ∀ a b, R a b → Option.Rel R (next a) (next' b)) (h : R start start')
    (ha : Reaches next start a) : ∃ b, R a b ∧ Reaches next' start' b := by
  obtain ⟨n, ha⟩ := ha
  obtain ⟨b, hab, hb⟩ := exists_after hnext h ha
  exact ⟨b, hab, n, hb⟩

/-- elements that are the same on one side are the same on the other -/
theorem after_eq_iff (hR : Relator.BiUnique R) (hnext : ∀ a b, R a b → Option.Rel R (next a) (next' b))
    (h : R start start') : after next start m = after next start n ↔ after next' start' m = after next' start' n := by
  have hm := rel_after hnext h m
  have hn := rel_after hnext h n
  generalize after next start m = x at hm
  generalize after next start n = y at hn
  generalize after next' start' m = x' at hm
  generalize after next' start' n = y' at hn
  cases hm with
  | none => cases hn with
    | none => exact iff_of_true rfl rfl
    | some => exact iff_of_false nofun nofun
  | some hab => cases hn with
    | none => exact iff_of_false nofun nofun
    | some hab' =>
      rw [Option.some_inj, Option.some_inj]
      constructor
      · rintro rfl
        exact hR.2 hab hab'
      · rintro rfl
        exact hR.1 hab hab'

theorem FirstTwice.rel (hR : Relator.BiUnique R) (hnext : ∀ a b, R a b → Option.Rel R (next a) (next' b))
    (h : R start start') (ha : FirstTwice next start a) : ∃ b, R a b ∧ FirstTwice next' start' b := by
  obtain ⟨i, j, hij, hi, hj, hfirst⟩ := ha
  obtain ⟨b, hab, hb⟩ := exists_after hnext h hi
  refine ⟨b, hab, i, j, hij, hb, ?_, fun k l hkl hl heq => ?_⟩
  · rw [← hb]
    exact ((after_eq_iff hR hnext h).1 (hi.trans hj.symm)).symm
  · exact hfirst k l hkl hl ((after_eq_iff hR hnext h).2 heq)

end Step

end ByteMachine.Chain
