/-
Two lists in step: as long as each other, with related elements at each place (`List.Forall₂`). What is related to an
element is found by its place, and lists in step with a common one are in step with each other.
-/
import Mathlib.Data.List.Forall2

namespace ByteMachine.InStep

variable {α β γ : Type} {R : α → β → Prop} {S : α → γ → Prop} {as : List α} {bs : List β} {cs : List γ}

theorem exists_right (h : List.Forall₂ R as bs) {a : α} (ha : a ∈ as) : ∃ b ∈ bs, R a b := by
  induction h with
  | nil => exact absurd ha List.not_mem_nil
  | @cons a' b as bs hab _ ih =>
    rcases List.mem_cons.1 ha with rfl | ha
    · exact ⟨b, List.mem_cons_self, hab⟩
    · obtain ⟨b', hb', hab'⟩ := ih ha
      exact ⟨b', List.mem_cons_of_mem _ hb', hab'⟩

theorem exists_left (h : List.Forall₂ R as bs) {b : β} (hb : b ∈ bs) : ∃ a ∈ as, R a b :=
  exists_right h.flip hb

/-- what is in step with an element has the same place -/
theorem exists_getElem?_left (h : List.Forall₂ R as bs) {i : Nat} {b : β} (hb : bs[i]? = some b) :
    ∃ a, as[i]? = some a ∧ R a b := by
  induction h generalizing i with
  | nil => cases hb
  | @cons a b' as bs hab _ ih =>
    cases i with
    | zero =>
      obtain rfl := Option.some.inj hb
      exact ⟨a, rfl, hab⟩
    | succ i => exact ih hb

/-- what is in step with a list cut at an element is cut at the same place -/
theorem exists_split {before after : List β} {b : β} (h : List.Forall₂ R as (before ++ b :: after)) :
    ∃ first a rest, as = first ++ a :: rest ∧ List.Forall₂ R first before ∧ R a b := by
  induction before generalizing as with
  | nil =>
    obtain ⟨a, rest, hab, -, rfl⟩ := List.forall₂_cons_right_iff.1 h
    exact ⟨[], a, rest, rfl, .nil, hab⟩
  | cons b' before ih =>
    rw [List.cons_append] at h
    obtain ⟨a', as, hab', hrest, rfl⟩ := List.forall₂_cons_right_iff.1 h
    obtain ⟨first, a, rest, rfl, hfirst, hab⟩ := ih hrest
    exact ⟨a' :: first, a, rest, rfl, .cons hab' hfirst, hab⟩

theorem exists_of_imp (himp : ∀ a b, R a b → ∃ c, S a c) (h : List.Forall₂ R as bs) : ∃ cs, List.Forall₂ S as cs := by
  induction h with
  | nil => exact ⟨[], .nil⟩
  | cons hab _ ih =>
    obtain ⟨c, hac⟩ := himp _ _ hab
    obtain ⟨cs, hcs⟩ := ih
    exact ⟨c :: cs, .cons hac hcs⟩

theorem of_common {T : β → γ → Prop} (himp : ∀ a b c, R a b → S a c → T b c) (hR : List.Forall₂ R as bs)
    (hS : List.Forall₂ S as cs) : List.Forall₂ T bs cs := by
  induction hR generalizing cs with
  | nil =>
    rw [List.forall₂_nil_left_iff.1 hS]
    exact .nil
  | cons hab _ ih =>
    obtain ⟨c, cs, hac, hrest, rfl⟩ := List.forall₂_cons_left_iff.1 hS
    exact .cons (himp _ _ _ hab hac) (ih hrest)

theorem zip {T : α → β × γ → Prop} (himp : ∀ a b c, R a b → S a c → T a (b, c)) (hR : List.Forall₂ R as bs)
    (hS : List.Forall₂ S as cs) : List.Forall₂ T as (bs.zip cs) := by
  induction hR generalizing cs with
  | nil => exact .nil
  | cons hab _ ih =>
    obtain ⟨c, cs, hac, hrest, rfl⟩ := List.forall₂_cons_left_iff.1 hS
    exact .cons (himp _ _ _ hab hac) (ih hrest)

/-- what is in step with two lists end to end is cut in two -/
theorem exists_append {as' : List α} (h : List.Forall₂ R (as ++ as') bs) :
    ∃ first rest, bs = first ++ rest ∧ List.Forall₂ R as first ∧ List.Forall₂ R as' rest := by
  refine ⟨bs.take as.length, bs.drop as.length, (List.take_append_drop _ _).symm, ?_, ?_⟩
  · simpa using List.forall₂_take as.length h
  · simpa using List.forall₂_drop as.length h

/-- a list in step with groups laid end to end falls into groups itself -/
theorem exists_groups {T : β → γ → Prop} {f : α → List β} (h : List.Forall₂ T (as.flatMap f) cs) :
    ∃ groups : List (List γ), cs = groups.flatten ∧
      List.Forall₂ (fun a group => List.Forall₂ T (f a) group) as groups := by
  induction as generalizing cs with
  | nil => exact ⟨[], List.forall₂_nil_left_iff.1 h, .nil⟩
  | cons a as ih =>
    rw [List.flatMap_cons] at h
    obtain ⟨first, rest, rfl, hfirst, hrest⟩ := exists_append h
    obtain ⟨groups, rfl, hgroups⟩ := ih hrest
    exact ⟨first :: groups, rfl, .cons hfirst hgroups⟩

end ByteMachine.InStep
