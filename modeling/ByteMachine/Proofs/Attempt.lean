/-
Computations that end in a result or in a reason why there is none, taken apart: a chain of them has a result exactly
if every link has one.
-/
import Mathlib.Tactic

namespace ByteMachine.Attempt

variable {ε ε' α β : Type}

@[simp] theorem ok_bind (a : α) (f : α → Except ε β) : (Except.ok a >>= f) = f a := rfl

@[simp] theorem error_bind (e : ε) (f : α → Except ε β) : (Except.error e >>= f) = Except.error e := rfl

theorem bind_eq_ok_iff {x : Except ε α} {f : α → Except ε β} {b : β} :
    (x >>= f) = .ok b ↔ ∃ a, x = .ok a ∧ f a = .ok b := by
  cases x <;> simp

theorem bind_eq_error_iff {x : Except ε α} {f : α → Except ε β} {e : ε} :
    (x >>= f) = .error e ↔ x = .error e ∨ ∃ a, x = .ok a ∧ f a = .error e := by
  cases x <;> simp

theorem mapError_eq_ok_iff {x : Except ε α} {f : ε → ε'} {a : α} : x.mapError f = .ok a ↔ x = .ok a := by
  cases x <;> simp [Except.mapError]

theorem mapError_eq_error_iff {x : Except ε α} {f : ε → ε'} {e : ε'} :
    x.mapError f = .error e ↔ ∃ reason, x = .error reason ∧ f reason = e := by
  cases x <;> simp [Except.mapError]

theorem map_eq_ok_iff {x : Except ε α} {f : α → β} {b : β} : x.map f = .ok b ↔ ∃ a, x = .ok a ∧ f a = b := by
  cases x <;> simp [Except.map]

theorem toOption_eq_some_iff {x : Except ε α} {a : α} : x.toOption = some a ↔ x = .ok a := by
  cases x <;> simp [Except.toOption]

theorem exists_ok_of_isSome {x : Except ε α} (h : x.toOption.isSome) : ∃ a, x = .ok a := by
  cases x with
  | error e => cases h
  | ok a => exact ⟨a, rfl⟩

theorem mapM_eq_ok_iff {f : α → Except ε β} {as : List α} {bs : List β} :
    as.mapM f = .ok bs ↔ List.Forall₂ (fun a b => f a = .ok b) as bs := by
  induction as generalizing bs with
  | nil =>
    rw [List.mapM_nil, List.forall₂_nil_left_iff]
    exact ⟨fun h => (Except.ok.inj h).symm, fun h => h ▸ rfl⟩
  | cons a as ih =>
    rw [List.mapM_cons, bind_eq_ok_iff, List.forall₂_cons_left_iff]
    constructor
    · rintro ⟨b, hb, h⟩
      obtain ⟨bs', hbs, h⟩ := bind_eq_ok_iff.1 h
      exact ⟨b, bs', hb, ih.1 hbs, (Except.ok.inj h).symm⟩
    · rintro ⟨b, bs', hb, hbs, rfl⟩
      exact ⟨b, hb, bind_eq_ok_iff.2 ⟨bs', ih.2 hbs, rfl⟩⟩

theorem exists_mapM_eq_ok_iff {f : α → Except ε β} {as : List α} :
    (∃ bs, as.mapM f = .ok bs) ↔ ∀ a ∈ as, ∃ b, f a = .ok b := by
  induction as with
  | nil => simp [pure, Except.pure]
  | cons a as ih =>
    rw [List.forall_mem_cons, ← ih, List.mapM_cons]
    constructor
    · rintro ⟨bs, h⟩
      obtain ⟨b, hb, h⟩ := bind_eq_ok_iff.1 h
      obtain ⟨bs', hbs, -⟩ := bind_eq_ok_iff.1 h
      exact ⟨⟨b, hb⟩, bs', hbs⟩
    · rintro ⟨⟨b, hb⟩, bs, hbs⟩
      exact ⟨b :: bs, bind_eq_ok_iff.2 ⟨b, hb, bind_eq_ok_iff.2 ⟨bs, hbs, rfl⟩⟩⟩

theorem forM_eq_ok_iff {f : α → Except ε Unit} {as : List α} : as.forM f = .ok () ↔ ∀ a ∈ as, f a = .ok () := by
  induction as with
  | nil => simp [pure, Except.pure]
  | cons a as ih =>
    rw [List.forM_eq_forM] at ih ⊢
    rw [List.forM_cons, bind_eq_ok_iff, List.forall_mem_cons]
    constructor
    · rintro ⟨⟨⟩, ha, has⟩
      exact ⟨ha, ih.1 has⟩
    · rintro ⟨ha, has⟩
      exact ⟨(), ha, ih.2 has⟩

/-! ## First errors -/

/-- a check of all elements fails as the first of them that fails -/
theorem forM_eq_error_iff {f : α → Except ε Unit} {as : List α} {e : ε} :
    as.forM f = .error e ↔
      ∃ before a after, as = before ++ a :: after ∧ (∀ b ∈ before, f b = .ok ()) ∧ f a = .error e := by
  induction as with
  | nil => simp [pure, Except.pure]
  | cons a as ih =>
    rw [List.forM_eq_forM] at ih ⊢
    rw [List.forM_cons]
    cases ha : f a with
    | error e' =>
      rw [error_bind]
      constructor
      · rintro ⟨⟩
        exact ⟨[], a, as, rfl, by simp, ha⟩
      · rintro ⟨before, b, after, hsplit, hbefore, hb⟩
        cases before with
        | nil =>
          obtain ⟨rfl, -⟩ := List.cons.inj hsplit
          exact ha.symm.trans hb
        | cons c before =>
          obtain ⟨rfl, -⟩ := List.cons.inj hsplit
          rw [hbefore a List.mem_cons_self] at ha
          cases ha
    | ok u =>
      rw [ok_bind, ih]
      constructor
      · rintro ⟨before, b, after, rfl, hbefore, hb⟩
        exact ⟨a :: before, b, after, rfl, List.forall_mem_cons.2 ⟨ha, hbefore⟩, hb⟩
      · rintro ⟨before, b, after, hsplit, hbefore, hb⟩
        cases before with
        | nil =>
          obtain ⟨rfl, -⟩ := List.cons.inj hsplit
          rw [ha] at hb
          cases hb
        | cons c before =>
          obtain ⟨rfl, hrest⟩ := List.cons.inj hsplit
          exact ⟨before, b, after, hrest, (List.forall_mem_cons.1 hbefore).2, hb⟩

/-- a computation on all elements is a check of all elements before it is anything else -/
theorem mapM_eq_error_iff {f : α → Except ε β} {as : List α} {e : ε} :
    as.mapM f = .error e ↔
      ∃ before a after, as = before ++ a :: after ∧ (∀ b ∈ before, ∃ c, f b = .ok c) ∧ f a = .error e := by
  have hcheck : as.mapM f = .error e ↔ as.forM (fun a => (f a).map fun _ => ()) = .error e := by
    induction as with
    | nil => simp [pure, Except.pure]
    | cons a as ih =>
      rw [List.forM_eq_forM] at ih ⊢
      rw [List.mapM_cons, List.forM_cons]
      cases ha : f a with
      | error e' => simp [Except.map]
      | ok b =>
        have hdone : (Except.ok b : Except ε β).map (fun _ => ()) = .ok () := rfl
        rw [ok_bind, hdone, ok_bind, ← ih]
        cases as.mapM f <;> simp [pure, Except.pure]
  have hok : ∀ b, (f b).map (fun _ => ()) = .ok () ↔ ∃ c, f b = .ok c := by
    intro b
    cases f b <;> simp [Except.map]
  have herror : ∀ b, (f b).map (fun _ => ()) = .error e ↔ f b = .error e := by
    intro b
    cases f b <;> simp [Except.map]
  simp only [hcheck, forM_eq_error_iff, hok, herror]

/-! ## How a computation ends -/

/-- the computation ends in an error that has a property, or in a result that has another -/
inductive Ends (E : ε → Prop) (P : α → Prop) : Except ε α → Prop
  | error {e : ε} : E e → Ends E P (.error e)
  | ok {a : α} : P a → Ends E P (.ok a)

section Ends

variable {E : ε → Prop} {P : α → Prop} {Q : β → Prop} {x : Except ε α}

theorem Ends.of_error {e : ε} (h : Ends E P (.error e)) : E e := by
  cases h with
  | error he => exact he

theorem Ends.of_ok {a : α} (h : Ends E P (.ok a)) : P a := by
  cases h with
  | ok ha => exact ha

theorem Ends.mono (h : Ends E P x) {F : ε → Prop} {R : α → Prop} (herror : ∀ e, E e → F e) (hok : ∀ a, P a → R a) :
    Ends F R x := by
  cases h with
  | error he => exact .error (herror _ he)
  | ok ha => exact .ok (hok _ ha)

theorem Ends.bind (h : Ends E P x) {f : α → Except ε β} (hf : ∀ a, P a → Ends E Q (f a)) : Ends E Q (x >>= f) := by
  cases h with
  | error he => exact .error he
  | ok ha => exact hf _ ha

theorem Ends.forM {as : List α} {f : α → Except ε Unit} (hf : ∀ a ∈ as, Ends E (fun _ => True) (f a)) :
    Ends E (fun _ => True) (as.forM f) := by
  cases hends : as.forM f with
  | ok u => exact .ok trivial
  | error e =>
    obtain ⟨before, a, after, rfl, -, ha⟩ := forM_eq_error_iff.1 hends
    have he := hf a (by simp)
    rw [ha] at he
    exact .error he.of_error

theorem Ends.mapM {as : List α} {f : α → Except ε β} (hf : ∀ a ∈ as, Ends E (fun _ => True) (f a)) :
    Ends E (fun _ => True) (as.mapM f) := by
  cases hends : as.mapM f with
  | ok bs => exact .ok trivial
  | error e =>
    obtain ⟨before, a, after, rfl, -, ha⟩ := mapM_eq_error_iff.1 hends
    have he := hf a (by simp)
    rw [ha] at he
    exact .error he.of_error

end Ends

/-! ## Two computations -/

/-- the computations end alike: both in an error or both in a result, and the errors, or the results, are related -/
inductive Agree (E : ε → ε' → Prop) (R : α → β → Prop) : Except ε α → Except ε' β → Prop
  | error {e : ε} {e' : ε'} : E e e' → Agree E R (.error e) (.error e')
  | ok {a : α} {b : β} : R a b → Agree E R (.ok a) (.ok b)

/-- both fail, for whatever reasons, or the results are related -/
abbrev AgreeOn (R : α → β → Prop) : Except ε α → Except ε' β → Prop := Agree (fun _ _ => True) R

section Agree

variable {α' β' : Type} {E : ε → ε' → Prop} {R : α → α' → Prop} {S : β → β' → Prop} {x : Except ε α} {x' : Except ε' α'}

theorem Agree.mono (h : Agree E R x x') {F : ε → ε' → Prop} {T : α → α' → Prop} (herror : ∀ e e', E e e' → F e e')
    (hok : ∀ a a', R a a' → T a a') : Agree F T x x' := by
  cases h with
  | error he => exact .error (herror _ _ he)
  | ok ha => exact .ok (hok _ _ ha)

theorem Agree.on (h : Agree E R x x') : AgreeOn R x x' := h.mono (fun _ _ _ => trivial) fun _ _ => id

/-- the related results are those of the computations -/
theorem Agree.strengthen (h : Agree E R x x') : Agree E (fun a a' => R a a' ∧ x = .ok a ∧ x' = .ok a') x x' := by
  cases h with
  | error he => exact .error he
  | ok ha => exact .ok ⟨ha, rfl, rfl⟩

theorem Agree.trans (h : Agree E R x x') {ε'' α'' : Type} {F : ε' → ε'' → Prop} {T : α' → α'' → Prop}
    {x'' : Except ε'' α''} (h' : Agree F T x' x'') : Agree (Relation.Comp E F) (Relation.Comp R T) x x'' := by
  cases h with
  | error he =>
    cases h' with
    | error he' => exact .error ⟨_, he, he'⟩
  | ok ha =>
    cases h' with
    | ok ha' => exact .ok ⟨_, ha, ha'⟩

theorem Agree.bind (h : Agree E R x x') {f : α → Except ε β} {f' : α' → Except ε' β'}
    (hf : ∀ a a', R a a' → Agree E S (f a) (f' a')) : Agree E S (x >>= f) (x' >>= f') := by
  cases h with
  | error he => exact .error he
  | ok ha => exact hf _ _ ha

theorem Agree.mapError (h : Agree E R x x') {δ δ' : Type} {F : δ → δ' → Prop} {f : ε → δ} {f' : ε' → δ'}
    (hf : ∀ e e', E e e' → F (f e) (f' e')) : Agree F R (x.mapError f) (x'.mapError f') := by
  cases h with
  | error he => exact .error (hf _ _ he)
  | ok ha => exact .ok ha

/-- computations with the same results have the same results -/
theorem Agree.eq_ok_iff {x' : Except ε' α} (h : Agree E (· = ·) x x') {a : α} : x = .ok a ↔ x' = .ok a := by
  cases h with
  | error => exact iff_of_false nofun nofun
  | ok ha => rw [ha]; simp

theorem Agree.forM {as : List α} {as' : List α'} (h : List.Forall₂ R as as') {f : α → Except ε Unit}
    {f' : α' → Except ε' Unit} (hf : ∀ a a', R a a' → Agree E (· = ·) (f a) (f' a')) :
    Agree E (· = ·) (as.forM f) (as'.forM f') := by
  induction h with
  | nil => exact .ok rfl
  | cons ha _ ih =>
    simp only [List.forM_eq_forM] at ih ⊢
    rw [List.forM_cons, List.forM_cons]
    exact (hf _ _ ha).bind fun _ _ _ => ih

theorem Agree.mapM {as : List α} {as' : List α'} (h : List.Forall₂ R as as') {f : α → Except ε β}
    {f' : α' → Except ε' β'} (hf : ∀ a a', R a a' → Agree E S (f a) (f' a')) :
    Agree E (List.Forall₂ S) (as.mapM f) (as'.mapM f') := by
  induction h with
  | nil => exact .ok .nil
  | cons ha _ ih =>
    rw [List.mapM_cons, List.mapM_cons]
    exact (hf _ _ ha).bind fun _ _ hb => ih.bind fun _ _ hbs => .ok (.cons hb hbs)

end Agree

end ByteMachine.Attempt
