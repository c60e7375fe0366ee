/-
Memory under the window. The device answers there, so loads, stores and fetches do not see that memory. Pushes and pops do,
and only a pop brings a byte from it to where a program can tell.

- `Board.SameButShadow`: two boards that are equal except for the memory under the window.
- `Board.shadow_is_invisible`: steps and runs of two such boards, as long as nothing is popped from under the window.
-/
import Mathlib.Tactic
import ByteMachine.Proofs.Execution.Routing
import ByteMachine.Proofs.Running.Budgets
import ByteMachine.Screen

namespace ByteMachine

variable {σ : Type}

namespace Board

/-- the boards are equal except for bytes of memory under the window -/
structure SameButShadow (s t : Board σ) : Prop where
  device : s.device = t.device
  registers : s.machine.registers = t.machine.registers
  halting : s.machine.halting = t.machine.halting
  stopped : s.machine.stopped = t.machine.stopped
  profile : s.machine.profile = t.machine.profile
  shown : ∀ address, ¬ InWindow address → s.machine.memory.read address = t.machine.memory.read address

variable [Device σ]

/-- the instruction that the next step executes, if there is one, pops no byte from under the window -/
def PopsInSight (board : Board σ) : Prop :=
  ∀ i ∈ board.awake.nextInstruction?, ∀ address ∈ i.popped board.awake.machine.registers.sp, ¬ InWindow address

instance (board : Board σ) : Decidable board.PopsInSight :=
  -- not a search through all words, which is an instance too
  haveI (i : Instruction) : Decidable (∀ address ∈ i.popped board.awake.machine.registers.sp, ¬ InWindow address) :=
    List.decidableBAll _ _
  Option.decidableForallMem board.awake.nextInstruction?

/-- the board after some steps; a machine that stopped starts again from its entry point -/
def after (board : Board σ) : (count : Nat) → Board σ
  | 0 => board
  | count + 1 => board.step.2.after count

/-- what each of some steps comes to, and what the device sees of it -/
def history (board : Board σ) : (count : Nat) → List (Except Fault Exit × List Access)
  | 0 => []
  | count + 1 => (board.step.1, board.accesses) :: board.step.2.history count

/-! ## One step -/

/-- only a pop tells the boards apart -/
theorem semblance_sameButShadow : Semblance (SameButShadow (σ := σ)) where
  registers h := h.registers
  shown h := h.shown
  profile h := h.profile
  withRegisters h registers := { h with registers := rfl }
  written h address value := { h with
    shown := fun other houtside => by
      simp only [withMemory, Memory.read_write]
      rw [h.shown other houtside] }
  withProfile h profile := { h with profile := rfl }
  withHalting h := { h with halting := rfl }
  answer h offset := by rw [h.device]
  read h offset := { h with device := congrArg (fun device => (Device.read device offset).2) h.device }
  write h offset value := { h with device := congrArg (Device.write · offset value) h.device }

variable {s t : Board σ}

omit [Device σ] in
/-- the entry point is not under the window -/
theorem SameButShadow.entry_eq (h : s.SameButShadow t) : s.machine.entry = t.machine.entry := by
  have hlow := h.shown Machine.entryAddress (by decide)
  have hhigh := h.shown (Machine.entryAddress + 1) (by decide)
  rw [Machine.entry, Machine.entry, Memory.readWord, Memory.readWord, hlow, hhigh]

omit [Device σ] in
theorem SameButShadow.awake (h : s.SameButShadow t) : s.awake.SameButShadow t.awake := by
  cases hstopped : s.machine.stopped with
  | false =>
    rw [awake_of_going hstopped, awake_of_going (h.stopped ▸ hstopped)]
    exact h
  | true =>
    rw [Board.awake, Board.awake, Machine.awake, Machine.awake, if_pos hstopped, if_pos (h.stopped ▸ hstopped)]
    exact { h with
      registers := congrArg₂ Registers.jump h.registers h.entry_eq
      stopped := rfl }

/-- **A step that pops nothing from under the window** comes to the same, on boards that are the same again. -/
theorem SameButShadow.step (h : s.SameButShadow t) (hpops : s.PopsInSight) :
    s.step.1 = t.step.1 ∧ s.step.2.SameButShadow t.step.2 := by
  have hcycle : SameEnd SameButShadow (fun _ => True) (Exec.cycle.run s.awake) (Exec.cycle.run t.awake) := by
    have hfetched := Exec.alike_fetchInstruction semblance_sameButShadow s.awake t.awake h.awake
    have hends := Exec.fetchInstruction_ends s.awake
    rw [Exec.cycle, EStateM.run_bind, EStateM.run_bind]
    generalize Exec.fetchInstruction.run s.awake = fetched at hfetched hends
    generalize Exec.fetchInstruction.run t.awake = fetched' at hfetched
    cases hfetched with
    | error hcause h => exact .error hcause h
    | @ok i s' t' h' =>
      obtain ⟨hnext, rfl⟩ := Exec.nextInstruction?_of_ok hends
      exact Exec.execute_alike_of_popped semblance_sameButShadow (fun _ => trivial) i h' fun address hpopped =>
        h'.shown address (hpops i hnext address hpopped)
  have hip : s.awake.machine.registers.ip = t.awake.machine.registers.ip := by rw [h.awake.registers]
  rw [step_eq, step_eq, ← hip]
  exact hcycle.conclude _ (fun h => h.halting) fun h _ => { h with halting := rfl, stopped := rfl }

/-! ## Steps and runs -/

/-- a device that keeps a record sees the same instructions -/
theorem popsInSight_recording (board : Board (Recorded σ)) :
    board.PopsInSight ↔ (board.mapDevice Recorded.device).PopsInSight := by
  have hnext := deviceMap_recorded.nextInstruction? board.awake
  have hawake : board.awake.mapDevice Recorded.device = (board.mapDevice Recorded.device).awake := rfl
  rw [hawake] at hnext
  rw [PopsInSight, PopsInSight, hnext]
  rfl

theorem SameButShadow.accesses_eq (h : s.SameButShadow t) (hpops : s.PopsInSight) : s.accesses = t.accesses := by
  have hrecording : s.recording.SameButShadow t.recording :=
    { h with device := congrArg (Recorded.mk · #[]) h.device }
  have hpops' : s.recording.PopsInSight := (popsInSight_recording s.recording).2 hpops
  rw [accesses, accesses, (hrecording.step hpops').2.device]

/-- the hypothesis about the steps of a run, after the first of them -/
theorem popsInSight_next {count : Nat} (h : ∀ k < count + 1, (s.after k).PopsInSight) :
    s.PopsInSight ∧ ∀ k < count, (s.step.2.after k).PopsInSight :=
  ⟨h 0 (Nat.zero_lt_succ _), fun k hk => h (k + 1) (Nat.succ_lt_succ hk)⟩

theorem SameButShadow.history_eq {count : Nat} (h : s.SameButShadow t)
    (hpops : ∀ k < count, (s.after k).PopsInSight) :
    s.history count = t.history count ∧ (s.after count).SameButShadow (t.after count) := by
  induction count generalizing s t with
  | zero => exact ⟨rfl, h⟩
  | succ count ih =>
    obtain ⟨hfirst, hrest⟩ := popsInSight_next hpops
    obtain ⟨hresult, hnext⟩ := h.step hfirst
    obtain ⟨hhistory, hafter⟩ := ih hnext hrest
    refine ⟨?_, hafter⟩
    rw [history, history, hresult, h.accesses_eq hfirst, hhistory]

theorem SameButShadow.stepsWithin {budget : Nat} (h : s.SameButShadow t)
    (hpops : ∀ k < budget, (s.after k).PopsInSight) :
    (stepsWithin Board.step budget s).1 = (stepsWithin Board.step budget t).1 ∧
      (stepsWithin Board.step budget s).2.SameButShadow (stepsWithin Board.step budget t).2 := by
  induction budget generalizing s t with
  | zero => exact ⟨rfl, h⟩
  | succ budget ih =>
    obtain ⟨hfirst, hrest⟩ := popsInSight_next hpops
    obtain ⟨hresult, hnext⟩ := h.step hfirst
    rcases paused_or_ended Board.step s with ⟨s', hpaused⟩ | hended
    · have hpaused' : t.step = (.ok .paused, t.step.2) := Prod.ext (by rw [← hresult, hpaused]) rfl
      rw [stepsWithin_succ_of_paused hpaused, stepsWithin_succ_of_paused hpaused']
      rw [hpaused] at hnext hrest
      exact ih hnext hrest
    · rw [stepsWithin_succ_of_ended hended, stepsWithin_succ_of_ended (hresult ▸ hended)]
      exact ⟨hresult, hnext⟩

theorem popsInSight_after_awake (board : Board σ) (count : Nat) :
    (board.awake.after count).PopsInSight ↔ (board.after count).PopsInSight := by
  cases count with
  | zero => rw [after, after, PopsInSight, PopsInSight, awake_awake]
  | succ count => rw [after, after, step_awake]

theorem SameButShadow.run {budget : Nat} (h : s.SameButShadow t) (hpops : ∀ k < budget, (s.after k).PopsInSight) :
    (s.run (some budget)).1 = (t.run (some budget)).1 ∧
      (s.run (some budget)).2.SameButShadow (t.run (some budget)).2 := by
  rw [run_some, run_some]
  exact h.awake.stepsWithin fun k hk => (popsInSight_after_awake s k).2 (hpops k hk)

theorem after_mapDevice (board : Board (Recorded σ)) (count : Nat) :
    (board.after count).mapDevice Recorded.device = (board.mapDevice Recorded.device).after count := by
  induction count generalizing board with
  | zero => rfl
  | succ count ih =>
    rw [after, ih, after, deviceMap_recorded.step]
    rfl

/-- what two boards come to in as many steps, taken one by one and in a run with that budget -/
structure GoAlike (count : Nat) (s t : Board σ) : Prop where
  history : s.history count = t.history count
  after : (s.after count).SameButShadow (t.after count)
  result : (s.run (some count)).1 = (t.run (some count)).1
  accesses : (s.recording.run (some count)).2.device.accesses = (t.recording.run (some count)).2.device.accesses
  board : (s.run (some count)).2.SameButShadow (t.run (some count)).2

/-- **Memory under the window is invisible.** Two boards that are equal except for bytes of memory under the window come to
the same results with the same accesses of the device, and are equal again except for such bytes, after any number of
steps in which no byte is popped from under the window. -/
theorem shadow_is_invisible (count : Nat) (s t : Board σ) (hsame : s.SameButShadow t)
    (hpops : ∀ k < count, (s.after k).PopsInSight) : GoAlike count s t := by
  have hrecording : s.recording.SameButShadow t.recording :=
    { hsame with device := congrArg (Recorded.mk · #[]) hsame.device }
  have hpops' : ∀ k < count, (s.recording.after k).PopsInSight := by
    intro k hk
    rw [popsInSight_recording, after_mapDevice]
    exact hpops k hk
  obtain ⟨hhistory, hafter⟩ := hsame.history_eq hpops
  obtain ⟨hresult, hboard⟩ := hsame.run hpops
  exact ⟨hhistory, hafter, hresult, congrArg Recorded.accesses (hrecording.run hpops').2.device, hboard⟩

/-- a new machine with a screen and a byte under the window; the program loads `m` from there, pushes it, pops it into `b`
and stops -/
def shadowed (value : Byte) : Board Screen :=
  ⟨{ Machine.initial with
      memory := (Memory.zero.writeAll 0 [0x10, 0x00] |>.writeAll 0x10
        [0x11, 0x01, 0xe1, 0x10, 0x04, 0x0f, 0x01, 0xff]).write 0xe101 value }, Screen.initial⟩

theorem shadowed_goes_alike :
    (shadowed 1).machine.memory.read 0xe101 = 1 ∧ (shadowed 2).machine.memory.read 0xe101 = 2 ∧
      (shadowed 1).history 5 = (shadowed 2).history 5 ∧
      ((shadowed 1).history 5).map Prod.fst = [.ok .paused, .ok .paused, .ok .paused, .ok .halted, .ok .paused] := by
  have hsame : (shadowed 1).SameButShadow (shadowed 2) := by
    refine ⟨rfl, rfl, rfl, rfl, rfl, fun address houtside => ?_⟩
    have hne : address ≠ 0xe101 := by
      rintro rfl
      exact houtside (by decide)
    simp only [shadowed, Memory.read_write, if_neg hne]
  have hpops : ∀ k < 5, ((shadowed 1).after k).PopsInSight := by decide +kernel
  exact ⟨Memory.read_write _ _ _ _, Memory.read_write _ _ _ _, (shadow_is_invisible 5 _ _ hsame hpops).history,
    by decide +kernel⟩

end Board

end ByteMachine
