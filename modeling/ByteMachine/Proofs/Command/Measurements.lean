/-
Measurements by a steady clock, which moves by the same step between any two readings. It is read once when the work
starts, once in each test whether the time is over, the last one included, and once more for the total. So the work is
repeated once for every multiple of the step that is shorter than the time, and the total is two steps longer than that.

- `EndsIn`: the rounds of a loop, up to the one that ends it.
- `Work.Returns`: work that does not panic, however often it is done.
- `run_measure`: what a piece of work is measured at, whatever the step.
- `measurement_is_steady`: by a step shorter than the time the work is repeated at least once, thirty-two bits hold the
  number of repetitions, and the average is the one over all of them.
- `run_of_returns`, `run_line?_tooSlowly`: by such a step there is a line on every piece of work, and by a longer one there
  is none on the first.
-/
import Mathlib.Tactic
import Mathlib.Algebra.Order.Floor.Div
import ByteMachine.Command.Benchmark

namespace ByteMachine.Command.Benchmark

/-! ## Rounds of a loop -/

section Rounds

variable {α β : Type} {round : α → StateM Steady (α ⊕ β)} {count : Nat} {state : α} {clock clock' : Steady} {result : β}

theorem run_bind_of_run {action : StateM Steady α} {value : α} (f : α → StateM Steady β)
    (h : action.run clock = (value, clock')) : (action >>= f).run clock = (f value).run clock' := by
  rw [StateT.run_bind, h]
  rfl

/-- `count` rounds of a loop go on and the one after them ends it with the result; each round starts with the clock that
the one before it left -/
inductive EndsIn (round : α → StateM Steady (α ⊕ β)) : (count : Nat) → α → Steady → β → Steady → Prop
  | last {state : α} {clock clock' : Steady} {result : β} :
      (round state).run clock = (.inr result, clock') → EndsIn round 0 state clock result clock'
  | next {count : Nat} {state state' : α} {clock clock' clock'' : Steady} {result : β} :
      (round state).run clock = (.inl state', clock') → EndsIn round count state' clock' result clock'' →
        EndsIn round (count + 1) state clock result clock''

/-- a loop comes to the result of its last round -/
theorem EndsIn.run_repeatM [Nonempty β] (h : EndsIn round count state clock result clock') :
    (repeatM round state).run clock = (result, clock') := by
  induction h with
  | last hround =>
    rw [repeatM_eq_of_monadTail, repeatM.body, run_bind_of_run _ hround]
    rfl
  | next hround _ ih => rw [repeatM_eq_of_monadTail, repeatM.body, run_bind_of_run _ hround, ih]

end Rounds

/-! ## Doing the work again -/

section Repeating

variable {σ : Type} (work : Work σ) (state : σ)

/-- the work does not panic, however often it is done from the state on -/
def Work.Returns : Prop := ∀ count, (rehearse work count state).isSome = true

/-- what the last of a number of repetitions says that it executed -/
def cyclesAfter : (count : Nat) → Option Nat
  | 0 => none
  | count + 1 => ((rehearse work count state).bind work).bind Prod.fst

/-- how far the work has come from a state after a number of repetitions -/
def Progress.after? (count : Nat) : Option (Progress σ) :=
  (rehearse work count state).map (⟨count, cyclesAfter work state count, ·⟩)

theorem rehearse_add (first second : Nat) :
    rehearse work (first + second) state = (rehearse work first state).bind (rehearse work second) := by
  induction first generalizing state with
  | zero => rw [Nat.zero_add, rehearse, Option.bind_some]
  | succ first ih =>
    rw [Nat.succ_add, rehearse, rehearse]
    cases work state with
    | none => rfl
    | some done => exact ih done.2

theorem rehearse_succ (count : Nat) :
    rehearse work (count + 1) state = (rehearse work count state).bind fun state => (work state).map Prod.snd := by
  rw [rehearse_add]
  congr 1
  funext state
  rw [rehearse]
  cases work state <;> rfl

theorem Progress.next?_after? (count : Nat) :
    (Progress.after? work state count).bind (·.next? work) = Progress.after? work state (count + 1) := by
  rw [after?, after?, rehearse_succ, cyclesAfter]
  cases rehearse work count state with
  | none => rfl
  | some before =>
    rw [Option.map_some, Option.bind_some, Option.bind_some, Option.bind_some, next?]
    cases work before <;> rfl

variable {work state}

/-- work returns if something that holds of its state is kept each time that it is done -/
theorem Work.returns_of_kept {P : σ → Prop}
    (hkept : ∀ before, P before → ∃ cycles next, work before = some (cycles, next) ∧ P next) (h : P state) :
    Work.Returns work state := by
  intro count
  induction count generalizing state with
  | zero => rfl
  | succ count ih =>
    obtain ⟨cycles, next, hwork, hnext⟩ := hkept state h
    rw [rehearse, hwork]
    exact ih hnext

theorem Work.Returns.exists_rehearse (h : Work.Returns work state) (count : Nat) :
    ∃ next, rehearse work count state = some next ∧ Work.Returns work next := by
  obtain ⟨next, hnext⟩ := Option.isSome_iff_exists.1 (h count)
  refine ⟨next, hnext, fun more => ?_⟩
  have hmore := h (count + more)
  rwa [rehearse_add, hnext] at hmore

end Repeating

/-! ## Averages -/

section Averages

variable {m : Measurement}

/-- nothing is lost if thirty-two bits hold the number of repetitions -/
theorem Measurement.average?_eq_some (hpos : 0 < m.iterations) (hlt : m.iterations < 2 ^ 32) :
    m.average? = some (m.total / m.iterations) := by
  have hdivisor : m.iterations.toUInt32.toNat = m.iterations := UInt32.toNat_ofNat_of_lt' hlt
  have hne : m.iterations.toUInt32 ≠ 0 := fun hzero => by
    rw [hzero] at hdivisor
    exact absurd hdivisor.symm (Nat.ne_of_gt hpos)
  simp only [average?, if_neg hne, hdivisor]

/-- there is no average exactly if the thirty-two bits are all zero -/
theorem Measurement.average?_eq_none_iff : m.average? = none ↔ 2 ^ 32 ∣ m.iterations := by
  have hdivisor : m.iterations.toUInt32 = 0 ↔ 2 ^ 32 ∣ m.iterations := by
    rw [← UInt32.toNat_inj, Nat.dvd_iff_mod_eq_zero]
    exact Iff.of_eq (congrArg (· = 0) UInt32.toNat_ofNat')
  rw [← hdivisor]
  by_cases hzero : m.iterations.toUInt32 = 0 <;> simp [average?, hzero]

end Averages

/-! ## Readings -/

variable {base step : Nat}

@[simp] theorem Steady.later_later (clock : Steady) (first second : Nat) :
    (clock.later first).later second = clock.later (first + second) := by
  simp only [Steady.later, Nat.add_assoc]

@[simp] theorem Steady.run_now (clock : Steady) :
    (Steady.now base step).run clock = (base + clock.readings * step, clock.later 1) := rfl

@[simp] theorem Steady.run_print (clock : Steady) (text : String) :
    (Steady.print text).run clock = ((), { clock with report := clock.report ++ text }) := rfl

/-- the time between two readings -/
theorem Steady.elapsed (clock : Steady) (count : Nat) :
    base + (clock.later count).readings * step - (base + clock.readings * step) = count * step := by
  rw [Steady.later, Nat.add_mul]
  omega

/-! ## The repetitions -/

/-- how many repetitions there are by a clock with the step -/
def repetitions (step : Nat) : Nat := duration ⌈/⌉ step - 1

/-- the time is over at the first reading after the repetitions, and not before -/
theorem repetitions_spec (hstep : 0 < step) :
    repetitions step * step < duration ∧ duration ≤ (repetitions step + 1) * step := by
  have hceil (count : Nat) : duration ⌈/⌉ step ≤ count ↔ duration ≤ count * step := by
    rw [ceilDiv_le_iff_le_mul hstep, Nat.mul_comm]
  have hpos : 0 < duration ⌈/⌉ step := by
    by_contra hzero
    have hover := (hceil 0).1 (by omega)
    rw [Nat.zero_mul] at hover
    exact absurd hover (by decide)
  rw [repetitions, Nat.sub_add_cancel hpos]
  refine ⟨?_, (hceil _).1 le_rfl⟩
  by_contra hover
  have hfewer := (hceil (duration ⌈/⌉ step - 1)).2 (Nat.not_lt.1 hover)
  omega

theorem repetitions_pos (hstep : 0 < step) (hshort : step < duration) : 0 < repetitions step := by
  obtain ⟨-, hover⟩ := repetitions_spec hstep
  by_contra hzero
  rw [Nat.eq_zero_of_not_pos hzero] at hover
  omega

/-- a step takes a nanosecond at least, so there are no more repetitions than nanoseconds -/
theorem repetitions_lt (hstep : 0 < step) : repetitions step < 2 ^ 32 :=
  calc repetitions step
    _ ≤ repetitions step * step := Nat.le_mul_of_pos_right _ hstep
    _ < duration := (repetitions_spec hstep).1
    _ < 2 ^ 32 := by decide

/-! ## A measurement -/

section Measuring

variable {σ : Type} (work : Work σ) (state : σ) (clock : Steady)

theorem run_repeatOnce (count : Nat) (progress : Progress σ) :
    (repeatOnce (Steady.now base step) work (base + clock.readings * step) progress).run (clock.later count) =
      (if count * step < duration then
          match progress.next? work with
          | some next => .inl next
          | none => .inr none
        else .inr (some progress), clock.later (count + 1)) := by
  rw [repeatOnce, run_bind_of_run _ (Steady.run_now _), Steady.later_later, Steady.elapsed]
  split
  · cases progress.next? work <;> rfl
  · rfl

variable {work state}

/-- the loop from the round before which `first` repetitions are done; the induction is on those that are left -/
theorem endsIn_from {count : Nat} (hgoing : count * step < duration) (hover : duration ≤ (count + 1) * step)
    (hreturns : Work.Returns work state) {first left : Nat} (hcount : first + left = count) {progress last : Progress σ}
    (hprogress : Progress.after? work state first = some progress) (hlast : Progress.after? work state count = some last) :
    EndsIn (repeatOnce (Steady.now base step) work (base + clock.readings * step)) left progress
      (clock.later (first + 1)) (some last) (clock.later (count + 2)) := by
  induction left generalizing first progress with
  | zero =>
    obtain rfl : first = count := hcount
    obtain rfl := Option.some.inj (hprogress.symm.trans hlast)
    refine .last ?_
    rw [run_repeatOnce, if_neg (Nat.not_lt.2 hover)]
  | succ left ih =>
    have hround : (first + 1) * step < duration :=
      (Nat.mul_le_mul_right step (by omega : first + 1 ≤ count)).trans_lt hgoing
    obtain ⟨next, hafter⟩ : ∃ next, Progress.after? work state (first + 1) = some next := by
      obtain ⟨after, hrehearse, -⟩ := hreturns.exists_rehearse (first + 1)
      rw [Progress.after?, hrehearse]
      exact ⟨_, rfl⟩
    have hnext : progress.next? work = some next := by
      rw [← hafter, ← Progress.next?_after?, hprogress, Option.bind_some]
    refine .next ?_ (ih (by omega : first + 1 + left = count) hafter)
    rw [run_repeatOnce, if_pos hround, hnext]

def measured (work : Work σ) (state : σ) (step : Nat) : Measurement where
  iterations := repetitions step
  total := (repetitions step + 2) * step
  cycles := (rehearse work warmUps state).bind fun warm => cyclesAfter work warm (repetitions step)

/-- the repetitions of a measurement, after the clock was read at the start -/
theorem endsIn_repetitions (hstep : 0 < step) (hreturns : Work.Returns work state) :
    ∃ first last, rehearse work warmUps state = some first ∧
      rehearse work (warmUps + repetitions step) state = some last ∧
      EndsIn (repeatOnce (Steady.now base step) work (base + clock.readings * step)) (repetitions step)
        ⟨0, none, first⟩ (clock.later 1)
        (some ⟨repetitions step, (measured work state step).cycles, last⟩) (clock.later (repetitions step + 2)) := by
  obtain ⟨hgoing, hover⟩ := repetitions_spec hstep
  obtain ⟨first, hfirst, hwarm⟩ := hreturns.exists_rehearse warmUps
  obtain ⟨last, hlast, -⟩ := hwarm.exists_rehearse (repetitions step)
  refine ⟨first, last, hfirst, by rw [rehearse_add, hfirst, Option.bind_some, hlast], ?_⟩
  rw [measured, hfirst, Option.bind_some]
  refine endsIn_from clock hgoing hover hwarm (Nat.zero_add _) rfl ?_
  rw [Progress.after?, hlast, Option.map_some]

theorem run_measure (hstep : 0 < step) (hreturns : Work.Returns work state) :
    (measure (Steady.now base step) work state).run clock =
      (some (measured work state step), clock.later (repetitions step + 3)) := by
  obtain ⟨first, last, hfirst, -, hends⟩ := @endsIn_repetitions base step σ work state clock hstep hreturns
  have hloop : (repeatWork (Steady.now base step) work (base + clock.readings * step) ⟨0, none, first⟩).run
      (clock.later 1) = _ := hends.run_repeatM
  rw [measure, hfirst]
  dsimp only
  rw [run_bind_of_run _ (Steady.run_now _), run_bind_of_run _ hloop]
  dsimp only
  rw [run_bind_of_run _ (Steady.run_now _), StateT.run_pure, Steady.elapsed, Steady.later_later]
  rfl

theorem average?_measured (hstep : 0 < step) (hshort : step < duration) :
    (measured work state step).average? =
      some ((measured work state step).total / (measured work state step).iterations) :=
  Measurement.average?_eq_some (repetitions_pos hstep hshort) (repetitions_lt hstep)

end Measuring

/-! ## Steps shorter than the time -/

/-- what a piece of work is measured at by a clock that starts at `base` and moves by the step -/
structure IsSteady {σ : Type} (base step : Nat) (work : Work σ) (state : σ) (clock : Steady) (m : Measurement) :
    Prop where
  /-- the clock is read when the work starts, in each test and for the total -/
  run : (measure (Steady.now base step) work state).run clock = (some m, clock.later (m.iterations + 3))
  /-- after five calls of the work, as many rounds go on as there are repetitions, each with one call -/
  ends : ∃ first last, rehearse work 5 state = some first ∧ rehearse work (5 + m.iterations) state = some last ∧
    EndsIn (repeatOnce (Steady.now base step) work (base + clock.readings * step)) m.iterations
      ⟨0, none, first⟩ (clock.later 1) (some ⟨m.iterations, m.cycles, last⟩) (clock.later (m.iterations + 2))
  iterations : m.iterations = (2 * 10 ^ 9) ⌈/⌉ step - 1
  total : m.total = (m.iterations + 2) * step
  /-- the instructions are those of the last call -/
  cycles : ∃ before last, rehearse work (4 + m.iterations) state = some before ∧ work before = some (m.cycles, last)
  one_le : 1 ≤ m.iterations
  le : m.iterations ≤ 2 ^ 32 - 1
  narrowed : m.iterations.toUInt32.toNat = m.iterations
  average : m.average? = some (m.total / m.iterations)

/-- the last call of a measurement -/
theorem exists_lastCall {σ : Type} {work : Work σ} {state : σ} (hreturns : Work.Returns work state)
    (hpos : 0 < repetitions step) :
    ∃ before last, rehearse work (4 + repetitions step) state = some before ∧
      work before = some ((measured work state step).cycles, last) := by
  obtain ⟨count, hcount⟩ : ∃ count, repetitions step = count + 1 := Nat.exists_eq_add_one.2 hpos
  obtain ⟨first, hfirst, hwarm⟩ := hreturns.exists_rehearse warmUps
  obtain ⟨before, hbefore, hcall⟩ := hwarm.exists_rehearse count
  obtain ⟨⟨cycles, last⟩, hlast⟩ : ∃ done, work before = some done := by
    have honce := hcall 1
    rw [rehearse_succ] at honce
    cases hwork : work before with
    | none => simp [rehearse, hwork] at honce
    | some done => exact ⟨done, rfl⟩
  have hcalls : 4 + (count + 1) = warmUps + count := by
    rw [warmUps]
    omega
  refine ⟨before, last, ?_, ?_⟩
  · rw [hcount, hcalls, rehearse_add, hfirst, Option.bind_some, hbefore]
  · rw [measured, hfirst, Option.bind_some, hcount, cyclesAfter, hbefore, Option.bind_some, hlast, Option.bind_some]

/-- **Every measurement by a steady clock ends,** if the step is shorter than two seconds and the work returns, in the
round for the first multiple of the step that is not. Thirty-two bits hold the number of repetitions before it, which is
not zero, and the average is the total divided by it. -/
theorem measurement_is_steady {σ : Type} (base : Nat) {step : Nat} (hstep : 0 < step) (hshort : step < 2 * 10 ^ 9)
    (work : Work σ) (state : σ) (hreturns : Work.Returns work state) (clock : Steady) :
    ∃ m, IsSteady base step work state clock m := by
  have hpos := repetitions_pos hstep hshort
  have hlt := repetitions_lt hstep
  refine ⟨measured work state step, ?_⟩
  constructor
  case run => exact run_measure clock hstep hreturns
  case ends => exact endsIn_repetitions clock hstep hreturns
  case iterations => rfl
  case total => rfl
  case cycles => exact exists_lastCall hreturns hpos
  case one_le => exact hpos
  case le => exact Nat.le_sub_one_of_lt hlt
  case narrowed => exact UInt32.toNat_ofNat_of_lt' hlt
  case average => exact average?_measured hstep hshort

/-- work that counts how often it is done -/
def countedCalls : Work Nat := fun calls => some (some (calls + 1), calls + 1)

theorem countedCalls_is_steady :
    Work.Returns countedCalls 0 ∧
      (measure (Steady.now 7 666666667) countedCalls 0).run ⟨4, ""⟩ = (some ⟨2, 2666666668, some 7⟩, ⟨9, ""⟩) ∧
      Measurement.average? ⟨2, 2666666668, some 7⟩ = some 1333333334 := by
  have hreturns : Work.Returns countedCalls 0 :=
    Work.returns_of_kept (fun _ _ => ⟨_, _, rfl, trivial⟩ : ∀ calls, True → _) trivial
  obtain ⟨m, hm⟩ := measurement_is_steady 7 (by decide : 0 < 666666667) (by decide) countedCalls 0 hreturns ⟨4, ""⟩
  have hiterations : m.iterations = 2 := hm.iterations.trans (by decide)
  have htotal : m.total = 2666666668 := by rw [hm.total, hiterations]
  have hcycles : m.cycles = some 7 := by
    obtain ⟨before, last, hbefore, hcall⟩ := hm.cycles
    rw [hiterations] at hbefore
    obtain rfl : 6 = before := Option.some.inj hbefore
    exact (Prod.mk.inj (Option.some.inj hcall)).1.symm
  obtain rfl : m = ⟨2, 2666666668, some 7⟩ := by
    obtain ⟨iterations, total, cycles⟩ := m
    rw [Measurement.mk.injEq]
    exact ⟨hiterations, htotal, hcycles⟩
  exact ⟨hreturns, hm.run, hm.average⟩

/-! ## The whole command -/

/-- there is a state to start in, and the work returns from there on -/
def Workload.Returns (workload : Workload) : Prop :=
  ∃ start, workload.start? = some start ∧ Work.Returns workload.work start

/-- the line of the report on a workload by a clock with the step -/
def steadyRow (step : Nat) (workload : Workload) : String :=
  workload.start?.elim "" fun start =>
    let m := measured workload.work start step
    row workload.title m (m.total / m.iterations)

theorem run_line? (hstep : 0 < step) (hshort : step < duration) {workload : Workload} (hreturns : workload.Returns)
    (clock : Steady) :
    (line? (Steady.now base step) workload).run clock =
      (some (steadyRow step workload), clock.later (repetitions step + 3)) := by
  obtain ⟨start, hstart, hwork⟩ := hreturns
  rw [line?, steadyRow, hstart]
  dsimp only
  rw [run_bind_of_run _ (run_measure clock hstep hwork), Option.bind_some, average?_measured hstep hshort]
  rfl

theorem run_reportOn (hstep : 0 < step) (hshort : step < duration) {workloads : List Workload}
    (hreturns : ∀ workload ∈ workloads, workload.Returns) (clock : Steady) :
    (reportOn (Steady.now base step) Steady.print workloads).run clock =
      (0, ⟨clock.readings + workloads.length * (repetitions step + 3),
        clock.report ++ String.join (workloads.map (steadyRow step)) ++ "\n"⟩) := by
  induction workloads generalizing clock with
  | nil =>
    rw [reportOn, run_bind_of_run _ (Steady.run_print _ _), List.length_nil, Nat.zero_mul, List.map_nil,
      String.join_nil, String.append_empty]
    rfl
  | cons workload rest ih =>
    obtain ⟨hfirst, hrest⟩ := List.forall_mem_cons.1 hreturns
    rw [reportOn, run_bind_of_run _ (run_line? hstep hshort hfirst clock)]
    dsimp only
    rw [run_bind_of_run _ (Steady.run_print _ _), ih hrest, List.length_cons, Nat.succ_mul, List.map_cons,
      String.join_cons]
    -- the type of the pairs is hidden under `Id`, so no simp lemma splits the equation
    refine congrArg (Prod.mk 0) ?_
    simp only [Steady.later, Steady.mk.injEq, String.append_assoc, and_true]
    omega

/-- the report of the command by every step shorter than the time, if all work returns -/
theorem run_of_returns (hstep : 0 < step) (hshort : step < duration)
    (hreturns : ∀ workload ∈ workloads, workload.Returns) (clock : Steady) :
    (run (Steady.now base step) Steady.print).run clock =
      (0, ⟨clock.readings + workloads.length * (repetitions step + 3),
        clock.report ++ heading ++ String.join (workloads.map (steadyRow step)) ++ "\n"⟩) := by
  rw [run, run_bind_of_run _ (Steady.run_print _ _)]
  exact run_reportOn hstep hshort hreturns _

/-- the report ends at a piece of work that has no line -/
theorem run_reportOn_of_none {workload : Workload} {rest : List Workload} {clock clock' : Steady}
    (hline : (line? (Steady.now base step) workload).run clock = (none, clock')) :
    (reportOn (Steady.now base step) Steady.print (workload :: rest)).run clock = (101, clock') := by
  rw [reportOn, run_bind_of_run _ hline]
  rfl

/-- by a step that is not shorter than the time the time is over before the work is done, so there is nothing to divide
by -/
theorem run_line?_tooSlowly (hlong : duration ≤ step) {workload : Workload} (hreturns : workload.Returns)
    (clock : Steady) :
    (line? (Steady.now base step) workload).run clock = (none, clock.later 3) := by
  obtain ⟨start, hstart, hwork⟩ := hreturns
  have hstep : 0 < step := (by decide : 0 < duration).trans_le hlong
  have hnone : repetitions step = 0 := by
    have hgoing := (repetitions_spec hstep).1.trans_le hlong
    exact Nat.lt_one_iff.1 (Nat.lt_of_mul_lt_mul_right (by rwa [Nat.one_mul]))
  have haverage : (measured workload.work start step).average? = none := by
    rw [Measurement.average?_eq_none_iff, measured, hnone]
    exact dvd_zero _
  rw [line?, hstart]
  dsimp only
  rw [run_bind_of_run _ (run_measure clock hstep hwork), Option.bind_some, haverage, hnone]
  rfl

end ByteMachine.Command.Benchmark
