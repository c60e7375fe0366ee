/-
The report on all measured programs. Each piece of work returns, however often it is done: every source text is accepted,
every image is loaded, and every program comes to the instruction that stops the machine. So the report depends on the
clock alone.

- `workloads_return`: no piece of work panics.
- `run_reports`: by a step shorter than the time there is a line on every piece of work.
- `run_fails`: by any other the command fails at the first.
-/
import Mathlib.Tactic
import ByteMachine.Proofs.Workloads.Frame
import ByteMachine.Proofs.Workloads.Loops

namespace ByteMachine.Command.Benchmark

variable {base step : Nat}

/-- **No piece of work panics,** however often it is done. -/
theorem workloads_return : ∀ workload ∈ workloads, workload.Returns := by
  have hcleared : Cleared Registers.initial := ⟨rfl, rfl, rfl, rfl, rfl, rfl⟩
  simp only [workloads, List.forall_mem_cons]
  refine ⟨?_, ?_, ?_, ?_, ?_, ?_, nofun⟩
  · exact Workload.returns_of_yields treasureFrame_yields _
  · exact Workload.returns_of_ends NoDevice.mute tightLoop_yields tightProgram_ends trivial trivial _
  · exact Workload.returns_of_ends NoDevice.mute arithmeticMix_yields arithmeticProgram_ends trivial trivial _
  · exact Workload.returns_of_ends NoDevice.mute callOverhead_yields callProgram_ends rfl trivial _
  · exact Workload.returns_of_ends NoDevice.mute memoryPasses_yields memoryProgram_ends trivial trivial _
  · exact Workload.returns_of_ends Screen.mute treasureFrame_yields frameProgram_ends hcleared rfl _

/-- **By every step shorter than the time the command succeeds,** and its report has a line on every piece of work. -/
theorem run_reports (hstep : 0 < step) (hshort : step < duration) (clock : Steady) :
    (run (Steady.now base step) Steady.print).run clock =
      (0, ⟨clock.readings + workloads.length * (repetitions step + 3),
        clock.report ++ heading ++ String.join (workloads.map (steadyRow step)) ++ "\n"⟩) :=
  run_of_returns hstep hshort workloads_return clock

/-- by a step that is not shorter than the time the command fails, with nothing reported but the heading -/
theorem run_fails (hlong : duration ≤ step) (clock : Steady) :
    (run (Steady.now base step) Steady.print).run clock =
      (101, ⟨clock.readings + 3, clock.report ++ heading⟩) := by
  obtain ⟨workload, rest, hworkloads⟩ : ∃ workload rest, workloads = workload :: rest := ⟨_, _, rfl⟩
  have hreturns : workload.Returns := workloads_return workload (by rw [hworkloads]; exact List.mem_cons_self)
  rw [run, run_bind_of_run _ (Steady.run_print _ _), hworkloads,
    run_reportOn_of_none (run_line?_tooSlowly hlong hreturns _)]
  rfl

end ByteMachine.Command.Benchmark
