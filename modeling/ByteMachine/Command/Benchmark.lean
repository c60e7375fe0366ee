/-
The benchmark command: do a piece of work again and again for two seconds, and report how long it took each time. The
clock is an action that tells the time in nanoseconds. It is read when the work starts, before each repetition to see
whether the two seconds are over, and once more at the end. Work that does not come to its end as it should panics, and
then the command fails at once; nothing else but the clock ends the repetitions.
-/
import ByteMachine.Assembly.Image
import ByteMachine.Command.Workloads
import ByteMachine.Machine.Run
import ByteMachine.Screen
import ByteMachine.Text.Fixed

namespace ByteMachine.Command.Benchmark

/-- how long a piece of work is repeated, in nanoseconds -/
def duration : Nat := 2000000000

/-- how often a piece of work is done before the clock is read -/
def warmUps : Nat := 5

/-- what was measured: the number of repetitions, the time they took together in nanoseconds, and the number of
instructions of the last one, if it executes any -/
structure Measurement where
  iterations : Nat
  total : Nat
  cycles : Option Nat
  deriving DecidableEq, Repr

namespace Measurement

/-- the time of one repetition in nanoseconds, rounded down. The time is divided by what thirty-two bits hold of the
number of repetitions, and if that is zero there is no average. -/
def average? (m : Measurement) : Option Nat :=
  let divisor := m.iterations.toUInt32
  if divisor = 0 then none else some (m.total / divisor.toNat)

end Measurement

/-- a piece of work: it changes a state, and says how many instructions it executed, if it executes any; or it panics -/
abbrev Work (σ : Type) := σ → Option (Option Nat × σ)

def rehearse {σ : Type} (work : Work σ) : Nat → σ → Option σ
  | 0, state => some state
  | count + 1, state => do
    let (_, state) ← work state
    rehearse work count state

/-- how far the work has come: the number of repetitions, the number of instructions of the last one, and the state -/
structure Progress (σ : Type) where
  iterations : Nat
  cycles : Option Nat
  state : σ

def Progress.next? {σ : Type} (work : Work σ) (progress : Progress σ) : Option (Progress σ) := do
  let (cycles, state) ← work progress.state
  return ⟨progress.iterations + 1, cycles, state⟩

section Timed

variable {m : Type → Type} [Monad m] {σ : Type} (now : m Nat) (work : Work σ)

/-- do the work once more, unless the time since the start is over; if it panics there is nothing to go on with -/
def repeatOnce (start : Nat) (progress : Progress σ) : m (Progress σ ⊕ Option (Progress σ)) := do
  if (← now) - start < duration then
    match progress.next? work with
    | some progress => return .inl progress
    | none => return .inr none
  else return .inr (some progress)

/-- repeat the work until the time since the start is over; if the clock does not move, this never ends -/
def repeatWork (start : Nat) (progress : Progress σ) : m (Option (Progress σ)) :=
  repeatM (repeatOnce now work start) progress

/-- measure a piece of work by a clock, unless it panics -/
def measure (state : σ) : m (Option Measurement) := do
  match rehearse work warmUps state with
  | none => return none
  | some state =>
    let start ← now
    match ← repeatWork now work start ⟨0, none, state⟩ with
    | none => return none
    | some progress =>
      let stop ← now
      return some ⟨progress.iterations, stop - start, progress.cycles⟩

end Timed

/-! ## The work -/

/-- assemble a source text, which must be accepted; the state holds the text and the number of bytes made so far -/
def assembling : Work (String × Nat) := fun (source, size) => do
  let assembly ← (assemble source Assembly.defaultMount).toOption
  return (none, source, size + assembly.bytes.length)

/-- a board whose machine holds a program, if its source text is accepted and its image fits -/
def boardFor? {σ : Type} (source : String) (device : σ) : Option (Board σ) := do
  let assembly ← (assemble source Assembly.defaultMount).toOption
  let machine ← (Machine.initial.load assembly.mount assembly.bytes).toOption
  return ⟨machine, device⟩

/-- run the program of a board to its end, which must be a stop of the machine -/
def running {σ : Type} [Device σ] : Work (Board σ) := fun board =>
  let before := board.machine.cycles.toNat
  match board.run none with
  | (.ok .halted, board) => some (some (board.machine.cycles.toNat - before), board)
  | _ => none

/-- a piece of work, with the title that it is reported under and the state that it starts in, if there is one -/
structure Workload where
  title : String
  State : Type
  work : Work State
  start? : Option State

open Workloads in
def workloads : List Workload :=
  [⟨"assemble(treasure)", _, assembling, some (text treasureFrame, 0)⟩,
    ⟨"tight_loop(50K)", _, running, boardFor? (text tightLoop) NoDevice.mk⟩,
    ⟨"arithmetic_mix(250)", _, running, boardFor? (text arithmeticMix) NoDevice.mk⟩,
    ⟨"call_overhead(10K)", _, running, boardFor? (text callOverhead) NoDevice.mk⟩,
    ⟨"mem_load_store(10K)", _, running, boardFor? (text memoryPasses) NoDevice.mk⟩,
    ⟨"treasure_frame", _, running, boardFor? (text treasureFrame) Screen.initial⟩]

/-! ## The report -/

/-- the line of a piece of work with the time of one repetition -/
def row (title : String) (m : Measurement) (average : Nat) : String :=
  let perRun := average.toUInt64.toFloat
  let perInstruction := match m.cycles with
    | some cycles =>
      if cycles = 0 then "       -"
      else Text.alignRight ' ' 8 (Text.fixed 1 (perRun / cycles.toUInt64.toFloat))
    | none => "       -"
  let cycles := match m.cycles with
    | some cycles => toString cycles
    | none => "-"
  "  " ++ Text.alignLeft 30 title ++ " " ++ Text.alignRight ' ' 7 (toString m.iterations) ++ " iters " ++
    Text.alignRight ' ' 10 (Text.fixed 3 (perRun / 1000.0)) ++ " us/iter " ++
    Text.alignRight ' ' 12 cycles ++ " cycles  " ++ perInstruction ++ " ns/instr\n"

def heading : String :=
  "CPU Benchmarks (each runs for >= 2s)\n\n" ++
    "  " ++ Text.alignLeft 30 "benchmark" ++ " " ++ Text.alignRight ' ' 7 "iters" ++ "       " ++
    Text.alignRight ' ' 14 "avg time" ++ " " ++ Text.alignRight ' ' 12 "cycles/run" ++ "        " ++
    Text.alignRight ' ' 10 "ns/instr" ++ "\n" ++
    "  " ++ Text.copies '-' 88 ++ "\n"

section Reporting

variable {m : Type → Type} [Monad m] (now : m Nat) (print : String → m Unit)

/-- the line on a piece of work, measured by a clock; there is none if the work panics, or its measurement has no
average -/
def line? (workload : Workload) : m (Option String) := do
  match workload.start? with
  | none => return none
  | some start =>
    let measured? ← measure now workload.work start
    return measured?.bind fun measured => measured.average?.map (row workload.title measured)

/-- measure one piece of work after the other and report on each, and say with which code to exit. A piece of work that
has no line ends the report. -/
def reportOn : List Workload → m Nat
  | [] => do
    print "\n"
    return 0
  | workload :: rest => do
    match ← line? now workload with
    | some line =>
      print line
      reportOn rest
    | none => return 101

/-- measure all pieces of work by a clock and report on them; `print` is given the report piece by piece -/
def run : m Nat := do
  print heading
  reportOn now print workloads

end Reporting

/-! ## A steady clock -/

/-- a clock that has been read some number of times, and the report so far -/
structure Steady where
  readings : Nat
  report : String
  deriving DecidableEq, Inhabited, Repr

/-- the clock after some more readings -/
def Steady.later (clock : Steady) (count : Nat) : Steady := { clock with readings := clock.readings + count }

/-- read a clock that starts at `base` and moves by the same step between any two readings -/
def Steady.now (base step : Nat) : StateM Steady Nat := do
  let clock ← get
  set (clock.later 1)
  return base + clock.readings * step

def Steady.print (text : String) : StateM Steady Unit :=
  modify fun clock => { clock with report := clock.report ++ text }

/-- the report by a clock that moves by the same step between any two readings -/
def steadyReport (step : Nat) : String :=
  ((run (Steady.now 0 step) Steady.print).run ⟨0, ""⟩).2.report

end ByteMachine.Command.Benchmark
