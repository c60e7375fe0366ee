/-
Where accesses go. In a step the device sees a read for each byte that is fetched from the window, and then at most one
access to the byte at a computed address. Memory changes where an instruction pushes, wherever that is, and where it
stores, unless that is in the window.

- `DeviceMap.viewAll`, `DeviceMap.fetches`: a device that keeps a record answers as it would without.
- `Board.step_handles`: memory and device after a step, by the instruction that is fetched.
- `Board.step_routes`: every access and every change of memory in a step.
-/
import Mathlib.Tactic
import ByteMachine.Proofs.Execution.Alike
import ByteMachine.Proofs.Execution.Effects
import ByteMachine.Proofs.Execution.Views

namespace ByteMachine

variable {σ τ : Type}

/-! ## Accesses -/

def Access.offset : Access → Word
  | read offset _ => offset
  | write offset _ => offset

/-- a read for each of the bytes seen from an address on that lies in the window -/
def windowReads (address : Word) : List Byte → List Access
  | [] => []
  | value :: values =>
    (if InWindow address then [.read (address - windowStart) value] else []) ++ windowReads (address + 1) values

/-- the offset of an address in the window is below the size of the window -/
theorem toNat_offset_lt {address : Word} (h : InWindow address) : (address - windowStart).toNat < 0x1000 := by
  obtain ⟨hfirst, hlast⟩ := h
  rw [UInt16.le_iff_toNat_le] at hfirst hlast
  rw [UInt16.toNat_sub_of_le _ _ (UInt16.le_iff_toNat_le.2 hfirst)]
  simp only [windowStart, windowEnd, UInt16.reduceToNat] at hfirst hlast ⊢
  omega

theorem offset_of_mem_windowReads {address : Word} {values : List Byte} {access : Access}
    (h : access ∈ windowReads address values) : access.offset.toNat < 0x1000 := by
  induction values generalizing address with
  | nil => cases h
  | cons value values ih =>
    rw [windowReads, List.mem_append] at h
    rcases h with hfirst | hrest
    · split_ifs at hfirst with hwindow
      · obtain rfl := List.mem_singleton.1 hfirst
        exact toNat_offset_lt hwindow
      · cases hfirst
    · exact ih hrest

/-- the addresses of the bytes of memory that an instruction may change, as the registers are when it is executed; one
after the last is no address -/
def Instruction.touched (rs : Registers) (i : Instruction) : List Nat :=
  match i with
  | psh _ => [rs.sp.toNat]
  | clc _ _ | clr _ _ => [rs.sp.toNat, rs.sp.toNat + 1]
  | i =>
    match i.dataUse? rs with
    | some (.store address _) => if InWindow address then [] else [address.toNat]
    | _ => []

namespace Board

/-- the board with a device that also keeps a record, which is empty -/
def recording (board : Board σ) : Board (Recorded σ) := ⟨board.machine, board.device, #[]⟩

variable [Device σ]

/-- the accesses that the device sees in a step -/
def accesses (board : Board σ) : List Access := board.recording.step.2.device.accesses.toList

/-- the access of an instruction to the byte at a computed address, if that is in the window -/
def dataAccesses (board : Board σ) (i : Instruction) : List Access :=
  match i.dataUse? board.machine.registers with
  | some (.load address) =>
    if InWindow address then
      [.read (address - windowStart) (Device.read board.device (address - windowStart)).1]
    else []
  | some (.store address value) => if InWindow address then [.write (address - windowStart) value] else []
  | none => []

/-- the access of the instruction that is fetched, on the board on which it is executed -/
def nextDataAccesses (board : Board σ) : List Access :=
  match board.nextInstruction? with
  | some i => (board.reached i).dataAccesses i
  | none => []

end Board

/-! ## Devices that keep a record -/

section Views

variable [Device σ] [Device τ] {f : σ → τ} (memory : Memory)

namespace DeviceMap

theorem view (hf : DeviceMap f) (device : σ) (address : Word) :
    memory.view (f device) address = (memory.view device address).map id f := by
  unfold Memory.view
  split
  · exact hf.read device _
  · rfl

theorem viewAll (hf : DeviceMap f) (device : σ) (address : Word) (count : Nat) :
    memory.viewAll (f device) address count = (memory.viewAll device address count).map id f := by
  induction count generalizing device address with
  | zero => rfl
  | succ count ih =>
    rw [Memory.viewAll_succ, Memory.viewAll_succ, hf.view]
    simp only [Prod.map_fst, Prod.map_snd, id_eq, ih]
    rfl

theorem fetches (hf : DeviceMap f) (board : Board σ) : (board.mapDevice f).fetches = board.fetches.map id f := by
  have hfirst := hf.view board.machine.memory board.device board.machine.registers.ip
  simp only [Board.fetches, Board.mapDevice, Board.room, hfirst, Prod.map_fst, id_eq]
  exact hf.viewAll _ _ _ _

theorem nextInstruction? (hf : DeviceMap f) (board : Board σ) :
    (board.mapDevice f).nextInstruction? = board.nextInstruction? := by
  rw [Board.nextInstruction?, hf.fetches, Board.nextInstruction?]
  rfl

end DeviceMap

theorem deviceMap_recorded : DeviceMap (Recorded.device : Recorded σ → σ) where
  read _ _ := rfl
  write _ _ _ := rfl

theorem accesses_view (recorded : Recorded σ) (address : Word) :
    (memory.view recorded address).2.accesses.toList =
      recorded.accesses.toList ++ windowReads address [(memory.view recorded address).1] := by
  rw [Memory.view, windowReads, windowReads, List.append_nil]
  split
  · exact Array.toList_push
  · exact (List.append_nil _).symm

/-- each byte that is seen in the window is read from the device -/
theorem accesses_viewAll (recorded : Recorded σ) (address : Word) (count : Nat) :
    (memory.viewAll recorded address count).2.accesses.toList =
      recorded.accesses.toList ++ windowReads address (memory.viewAll recorded address count).1 := by
  induction count generalizing recorded address with
  | zero => exact (List.append_nil _).symm
  | succ count ih =>
    rw [Memory.viewAll_succ]
    simp only [ih, accesses_view, windowReads, List.append_nil, List.append_assoc]

end Views

/-! ## Memory and device after a step -/

namespace Board

theorem sameStore_conclude (start : Word) (ends : EStateM.Result Fault.Cause (Board σ) Unit) :
    (Exec.last ends).SameStore (conclude start ends).2 := by
  cases ends with
  | error cause after => exact ⟨rfl, rfl⟩
  | ok value after =>
    by_cases hhalting : after.machine.halting = true
    · rw [conclude, if_pos hhalting]
      exact ⟨rfl, rfl⟩
    · rw [conclude, if_neg hhalting]
      exact .refl after

variable [Device σ] {board : Board σ}

theorem fetches_eq_viewAll (board : Board σ) :
    board.fetches =
      board.machine.memory.viewAll board.device board.machine.registers.ip board.fetches.1.length := by
  rw [fetches, Memory.length_viewAll]

/-- nothing but fetching is done if there is no instruction -/
theorem FetchEnds.sameStore {cause : Fault.Cause} {after : Board σ} (h : board.FetchEnds (.error cause after)) :
    (board.withDevice board.fetches.2).SameStore after := by
  have hfetches := board.fetches_eq_viewAll
  cases h with
  | unknown hfetched _ =>
    rw [hfetched] at hfetches
    rw [hfetches]
    exact ⟨rfl, rfl⟩
  | cut hfetched _ hroom =>
    rw [hfetched, List.length_cons, hroom] at hfetches
    rw [hfetches]
    exact ⟨rfl, rfl⟩
  | past hfetched _ =>
    rw [hfetched] at hfetches
    rw [hfetches]
    exact ⟨rfl, rfl⟩

/-- the board after the bytes at the instruction pointer are fetched and the instruction, if they are one, did with memory
and device what it does -/
def handledNext (board : Board σ) : Board σ :=
  match board.nextInstruction? with
  | some i => (board.reached i).handled i
  | none => board.withDevice board.fetches.2

/-- **A step does with memory and device what the fetch and the instruction do.** -/
theorem step_handles (board : Board σ) : board.awake.handledNext.SameStore board.step.2 := by
  rw [step_eq]
  refine .trans ?_ (sameStore_conclude _ _)
  cases hnext : board.awake.nextInstruction? with
  | some i =>
    rw [handledNext, hnext, Exec.run_cycle_of_some hnext]
    exact Exec.execute_handles i _
  | none =>
    obtain ⟨cause, after, hends, hrun⟩ := Exec.run_cycle_of_none hnext
    rw [handledNext, hnext, hrun]
    exact hends.sameStore

end Board

/-! ## Changes of memory -/

/-- bytes are pushed from the stack pointer on, without wrapping -/
theorem Memory.toNat_of_read_pushAll_ne {memory : Memory} {sp address : Word} {values : List Byte}
    (h : (memory.pushAll sp values).read address ≠ memory.read address) :
    ∃ n < values.length, address.toNat = sp.toNat + n := by
  induction values generalizing memory sp with
  | nil => exact absurd rfl h
  | cons value values ih =>
    rw [Memory.pushAll] at h
    split_ifs at h with hsp
    · exact absurd rfl h
    · by_cases hrest : ((memory.write sp value).pushAll (sp + 1) values).read address =
          (memory.write sp value).read address
      · rw [hrest, Memory.read_write] at h
        by_cases haddress : address = sp
        · exact ⟨0, Nat.zero_lt_succ _, by rw [haddress, Nat.add_zero]⟩
        · rw [if_neg haddress] at h
          exact absurd rfl h
      · obtain ⟨n, hn, haddress⟩ := ih hrest
        have hnext : (sp + 1).toNat = sp.toNat + 1 := by
          have hbound := sp.toNat_lt
          rw [← UInt16.toNat_inj, show (0xffff : Word).toNat = 0xffff from rfl] at hsp
          rw [UInt16.toNat_add, UInt16.toNat_one]
          omega
        exact ⟨n + 1, Nat.succ_lt_succ hn, by omega⟩

namespace Board

variable [Device σ] {board : Board σ} {i : Instruction} {address : Word}

theorem touched_of_store {rs : Registers} {stored : Word} {value : Byte}
    (h : i.dataUse? rs = some (.store stored value)) :
    i.touched rs = if InWindow stored then [] else [stored.toNat] := by
  cases i with
  | sec lo hi => simp only [Instruction.touched, h]
  | ser lo hi => simp only [Instruction.touched, h]
  | ofs reg offset => simp only [Instruction.touched, h]
  | ofg reg offset => simp [Instruction.dataUse?] at h
  | _ => cases h

theorem memory_load_handled {loaded : Word} (h : i.dataUse? board.machine.registers = some (.load loaded)) :
    (board.handled i).machine.memory = board.machine.memory := by
  rw [handled, h]
  rfl

theorem mem_touched_of_read_stored_ne {value : Byte} {stored : Word}
    (h : (board.stored stored value).machine.memory.read address ≠ board.machine.memory.read address) :
    address.toNat ∈ if InWindow stored then [] else [stored.toNat] := by
  rw [Board.stored] at h
  split_ifs at h ⊢ with hwindow
  · exact absurd rfl h
  · by_contra hne
    refine h ((Memory.read_write _ _ _ _).trans (if_neg ?_))
    rintro rfl
    exact hne (List.mem_singleton_self _)

/-- **An instruction changes no other bytes of memory.** -/
theorem mem_touched_of_read_handled_ne
    (h : (board.handled i).machine.memory.read address ≠ board.machine.memory.read address) :
    address.toNat ∈ i.touched board.machine.registers := by
  cases huse : i.dataUse? board.machine.registers with
  | some use =>
    cases use with
    | load loaded => exact absurd (by rw [memory_load_handled huse]) h
    | store stored value =>
      rw [handled, huse] at h
      rw [touched_of_store huse]
      exact mem_touched_of_read_stored_ne h
  | none =>
    rw [handled, huse] at h
    obtain ⟨n, hn, haddress⟩ := Memory.toNat_of_read_pushAll_ne h
    have htwo : ∀ m : Nat, n < 2 → m + n ∈ [m, m + 1] := by
      intro m hn
      rw [List.mem_cons, List.mem_singleton]
      omega
    rw [haddress]
    cases i with
    | psh reg =>
      obtain rfl : n = 0 := Nat.lt_one_iff.1 hn
      exact List.mem_singleton_self _
    | clc lo hi => exact htwo _ hn
    | clr lo hi => exact htwo _ hn
    | _ => exact absurd hn (Nat.not_lt_zero n)

theorem length_touched_le (i : Instruction) (rs : Registers) : (i.touched rs).length ≤ 2 := by
  unfold Instruction.touched
  repeat' split
  all_goals simp

/-- memory under the window changes by pushes only -/
theorem opcode_of_mem_touched {rs : Registers} (h : address.toNat ∈ i.touched rs) (hwindow : InWindow address) :
    i.opcode = .psh ∨ i.opcode = .clc ∨ i.opcode = .clr := by
  unfold Instruction.touched at h
  split at h
  · exact .inl rfl
  · exact .inr (.inl rfl)
  · exact .inr (.inr rfl)
  · split at h
    · split_ifs at h with hstored
      · cases h
      · rw [List.mem_singleton, UInt16.toNat_inj] at h
        exact absurd (h ▸ hwindow) hstored
    · cases h

/-! ## Steps -/

theorem length_dataAccesses_le (board : Board σ) (i : Instruction) : (board.dataAccesses i).length ≤ 1 := by
  unfold dataAccesses
  repeat' split
  all_goals simp

theorem length_nextDataAccesses_le (board : Board σ) : board.nextDataAccesses.length ≤ 1 := by
  unfold nextDataAccesses
  split
  · exact length_dataAccesses_le _ _
  · exact Nat.zero_le 1

theorem offset_of_mem_dataAccesses {access : Access} (h : access ∈ board.dataAccesses i) :
    access.offset.toNat < 0x1000 := by
  unfold dataAccesses at h
  split at h
  · split_ifs at h with hwindow
    · obtain rfl := List.mem_singleton.1 h
      exact toNat_offset_lt hwindow
    · cases h
  · split_ifs at h with hwindow
    · obtain rfl := List.mem_singleton.1 h
      exact toNat_offset_lt hwindow
    · cases h
  · cases h

theorem offset_of_mem_nextDataAccesses {access : Access} (h : access ∈ board.nextDataAccesses) :
    access.offset.toNat < 0x1000 := by
  unfold nextDataAccesses at h
  split at h
  · exact offset_of_mem_dataAccesses h
  · cases h

theorem accesses_handled (board : Board (Recorded σ)) (i : Instruction) :
    (board.handled i).device.accesses.toList =
      board.device.accesses.toList ++ (board.mapDevice Recorded.device).dataAccesses i := by
  have huse : i.dataUse? (board.mapDevice Recorded.device).machine.registers =
      i.dataUse? board.machine.registers := rfl
  rw [handled, dataAccesses, huse]
  cases i.dataUse? board.machine.registers with
  | none => exact (List.append_nil _).symm
  | some use =>
    cases use with
    | load address =>
      refine (accesses_view board.machine.memory board.device address).trans ?_
      by_cases hwindow : InWindow address
      · simp only [windowReads, Memory.view, if_pos hwindow]
        rfl
      · simp only [windowReads, if_neg hwindow, List.append_nil]
    | store address value =>
      by_cases hwindow : InWindow address
      · simp only [stored, if_pos hwindow]
        exact Array.toList_push
      · simp only [stored, if_neg hwindow]
        exact (List.append_nil _).symm

/-- what the device sees of a step -/
theorem accesses_eq (board : Board σ) :
    board.accesses =
      windowReads board.awake.machine.registers.ip board.awake.fetches.1 ++ board.awake.nextDataAccesses := by
  have hplain : board.recording.awake.mapDevice Recorded.device = board.awake := rfl
  have hnext := deviceMap_recorded.nextInstruction? board.recording.awake
  have hbytes : board.awake.fetches.1 = board.recording.awake.fetches.1 :=
    congrArg Prod.fst (deviceMap_recorded.fetches board.recording.awake)
  have hdevice : board.awake.fetches.2 = board.recording.awake.fetches.2.device :=
    congrArg Prod.snd (deviceMap_recorded.fetches board.recording.awake)
  -- the record is empty when the fetch begins
  have hfetched : board.recording.awake.fetches.2.accesses.toList =
      windowReads board.awake.machine.registers.ip board.awake.fetches.1 := by
    rw [hbytes]
    exact (accesses_viewAll _ _ _ _).trans (List.nil_append _)
  rw [hplain] at hnext
  rw [accesses, board.recording.step_handles.device, handledNext, nextDataAccesses, ← hnext]
  cases board.awake.nextInstruction? with
  | none => exact hfetched.trans (List.append_nil _).symm
  | some i =>
    have hreached : (board.recording.awake.reached i).mapDevice Recorded.device = board.awake.reached i := by
      rw [reached, reached, hdevice]
      rfl
    refine (accesses_handled _ i).trans ?_
    rw [hreached]
    exact congrArg (· ++ _) hfetched

theorem exists_touched (board : Board σ) (address : Word)
    (h : board.step.2.machine.memory.read address ≠ board.machine.memory.read address) :
    ∃ i, board.awake.nextInstruction? = some i ∧ address.toNat ∈ i.touched (board.awake.reached i).machine.registers := by
  rw [board.step_handles.memory, handledNext] at h
  cases hnext : board.awake.nextInstruction? with
  | none =>
    rw [hnext] at h
    exact absurd (congrArg (·.read address) (memory_awake board)) h
  | some i =>
    rw [hnext] at h
    refine ⟨i, rfl, mem_touched_of_read_handled_ne fun heq => h ?_⟩
    exact heq.trans (congrArg (·.read address) (memory_awake board))

/-- where the accesses and the changes of memory of a step go -/
structure Routes (board : Board σ) : Prop where
  /-- the step is the same with a device that keeps a record -/
  recorded : board.recording.step.map id (mapDevice Recorded.device) = board.step
  /-- what is fetched is an instruction, or a part of one and the step ends in a fault -/
  fetched : board.awake.FetchEnds (Exec.fetchInstruction.run board.awake)
  accesses : board.accesses =
    windowReads board.awake.machine.registers.ip board.awake.fetches.1 ++ board.awake.nextDataAccesses
  atMostOne : board.awake.nextDataAccesses.length ≤ 1
  offsets : ∀ access ∈ board.accesses, access.offset.toNat < 0x1000
  changes : ∀ address, board.step.2.machine.memory.read address ≠ board.machine.memory.read address →
    ∃ i, board.awake.nextInstruction? = some i ∧ address.toNat ∈ i.touched (board.awake.reached i).machine.registers ∧
      (InWindow address → i.opcode = .psh ∨ i.opcode = .clc ∨ i.opcode = .clr)
  atMostTwo : ∃ addresses : List Nat, addresses.length ≤ 2 ∧
    ∀ address, board.step.2.machine.memory.read address ≠ board.machine.memory.read address →
      address.toNat ∈ addresses

/-- **Every access is routed.** -/
theorem step_routes (board : Board σ) : board.Routes where
  recorded := (deviceMap_recorded.step board.recording).symm
  fetched := Exec.fetchInstruction_ends board.awake
  accesses := board.accesses_eq
  atMostOne := board.awake.length_nextDataAccesses_le
  offsets := by
    intro access h
    rw [accesses_eq, List.mem_append] at h
    rcases h with hfetched | hdata
    · exact offset_of_mem_windowReads hfetched
    · exact offset_of_mem_nextDataAccesses hdata
  changes := by
    intro address h
    obtain ⟨i, hnext, htouched⟩ := board.exists_touched address h
    exact ⟨i, hnext, htouched, opcode_of_mem_touched htouched⟩
  atMostTwo := by
    cases hnext : board.awake.nextInstruction? with
    | none =>
      refine ⟨[], Nat.zero_le 2, fun address h => ?_⟩
      obtain ⟨i, hsome, -⟩ := board.exists_touched address h
      rw [hnext] at hsome
      cases hsome
    | some i =>
      refine ⟨_, length_touched_le i (board.awake.reached i).machine.registers, fun address h => ?_⟩
      obtain ⟨j, hsome, htouched⟩ := board.exists_touched address h
      rw [hnext] at hsome
      obtain rfl := Option.some.inj hsome
      exact htouched

end Board

end ByteMachine
