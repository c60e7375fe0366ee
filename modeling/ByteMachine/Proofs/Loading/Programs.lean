/-
Loading a program. The image is put into memory, and after it its address as the entry point, which lies at the first
two addresses whatever else is there.

`load_keeps_image`: an assembled image can always be loaded where it is mounted. What lies from address 2 on is then as
it was assembled, and the entry point is the mount address; only an image with bytes below address 2 can lose them.
-/
import Mathlib.Tactic
import ByteMachine.Machine.Board
import ByteMachine.Proofs.Layout.Room
import ByteMachine.Proofs.Loading.Bytes

namespace ByteMachine

namespace Machine

variable {machine loaded : Machine} {start : Word} {image : List Byte}

/-- the machine with the image, its address at the entry point, and stopped -/
def withProgram (machine : Machine) (start : Word) (image : List Byte) : Machine :=
  { machine with
    memory := (machine.memory.writeAll start image).writeAll entryAddress [Word.low start, Word.high start]
    stopped := true }

theorem run_copyImage :
    (copyImage start image).run machine =
      if start.toNat + image.length ≤ Memory.size then
        .ok () { machine with memory := machine.memory.writeAll start image }
      else .error ⟨0, .outOfRange (start.toNat + image.length)⟩ machine := by
  by_cases hfits : start.toNat + image.length ≤ Memory.size
  · simp only [copyImage, if_pos hfits]
    rfl
  · simp only [copyImage, if_neg hfits]
    rfl

/-- an image that fits is loaded; any other is refused, and the machine is then left as it was -/
theorem run_loadProgram :
    (loadProgram start image).run machine =
      if start.toNat + image.length ≤ Memory.size then .ok () (machine.withProgram start image)
      else .error ⟨0, .outOfRange (start.toNat + image.length)⟩ machine := by
  rw [loadProgram, EStateM.run_bind, run_copyImage]
  by_cases hfits : start.toNat + image.length ≤ Memory.size
  · rw [if_pos hfits, if_pos hfits]
    rfl
  · rw [if_neg hfits, if_neg hfits]

theorem run_loadProgram_eq_ok_iff :
    (loadProgram start image).run machine = .ok () loaded ↔
      start.toNat + image.length ≤ Memory.size ∧ machine.withProgram start image = loaded := by
  rw [run_loadProgram]
  by_cases hfits : start.toNat + image.length ≤ Memory.size <;> simp [hfits]

theorem run_loadProgram_eq_error_iff {fault : Fault} {left : Machine} :
    (loadProgram start image).run machine = .error fault left ↔
      Memory.size < start.toNat + image.length ∧ fault = ⟨0, .outOfRange (start.toNat + image.length)⟩ ∧
        left = machine := by
  rw [run_loadProgram]
  by_cases hfits : start.toNat + image.length ≤ Memory.size
  · simp [hfits]
  · simp [hfits, eq_comm, Nat.not_le.1 hfits]

theorem load_eq_ok_iff :
    machine.load start image = .ok loaded ↔
      start.toNat + image.length ≤ Memory.size ∧ machine.withProgram start image = loaded := by
  rw [← run_loadProgram_eq_ok_iff, load]
  cases (loadProgram start image).run machine <;> simp

theorem exists_load (machine : Machine) (hfits : start.toNat + image.length ≤ Memory.size) :
    ∃ loaded, machine.load start image = .ok loaded :=
  ⟨_, load_eq_ok_iff.2 ⟨hfits, rfl⟩⟩

theorem memory_of_load (h : machine.load start image = .ok loaded) :
    loaded.memory =
      (machine.memory.writeAll start image).writeAll entryAddress [Word.low start, Word.high start] := by
  obtain ⟨-, rfl⟩ := load_eq_ok_iff.1 h
  rfl

theorem entry_fits (low high : Byte) : entryAddress.toNat + [low, high].length ≤ Memory.size := by
  simp [entryAddress, Memory.size]

/-- the entry point lies at the first two addresses, low byte first -/
theorem holds_entry_of_load (h : machine.load start image = .ok loaded) :
    loaded.memory.Holds 0 [Word.low start, Word.high start] := by
  rw [memory_of_load h]
  exact Memory.holds_writeAll (entry_fits _ _)

theorem entry_of_load (h : machine.load start image = .ok loaded) : loaded.entry = start := by
  have hentry := holds_entry_of_load h
  have hlow : loaded.memory.read entryAddress = Word.low start := hentry 0 (Nat.zero_lt_succ 1)
  have hhigh : loaded.memory.read (entryAddress + 1) = Word.high start := hentry 1 (Nat.lt_succ_self 1)
  rw [entry, Memory.readWord, hlow, hhigh, Word.ofBytes_low_high]

/-- beyond the entry point, the image is there -/
theorem read_of_load (h : machine.load start image = .ok loaded) {i : Nat} (hi : i < image.length)
    (hbeyond : 2 ≤ start.toNat + i) : loaded.memory.read (UInt16.ofNat (start.toNat + i)) = image[i] := by
  have hfits := (load_eq_ok_iff.1 h).1
  have haddress : (UInt16.ofNat (start.toNat + i)).toNat = start.toNat + i :=
    Nat.mod_eq_of_lt (by rw [Memory.size] at hfits; omega)
  rw [memory_of_load h, Memory.read_writeAll_of_outside (entry_fits _ _) (.inr (by rw [haddress]; exact hbeyond))]
  exact Memory.holds_writeAll hfits i hi

/-- the two addresses of the entry point hold zero if the program starts at one of them -/
theorem read_of_load_below (h : machine.load start image = .ok loaded) {i : Nat} (hbelow : start.toNat + i < 2) :
    loaded.memory.read (UInt16.ofNat (start.toNat + i)) = 0 := by
  have hentry := holds_entry_of_load h
  obtain hstart | hstart : start = 0 ∨ start = 1 := by
    rw [← UInt16.toNat_inj, ← UInt16.toNat_inj, UInt16.toNat_zero, UInt16.toNat_one]
    omega
  · subst hstart
    obtain rfl | rfl : i = 0 ∨ i = 1 := by rw [UInt16.toNat_zero] at hbelow; omega
    · exact hentry 0 (by decide)
    · exact hentry 1 (by decide)
  · subst hstart
    obtain rfl : i = 0 := by rw [UInt16.toNat_one] at hbelow; omega
    exact hentry 1 (by decide)

end Machine

/-- **A load leaves the program as it was assembled, except below address 2.** The image of a source text can be loaded
where it is mounted, and the mount address is then the entry point. Each of its bytes from address 2 on is in memory. So
the whole image is, exactly if it has no other byte than zero below address 2. -/
theorem load_keeps_image (source : String) (mount : Word) (assembly : Assembly)
    (h : assemble source mount = .ok assembly) (machine : Machine) :
    ∃ loaded, machine.load mount assembly.bytes = .ok loaded ∧ loaded.entry = mount ∧
      (∀ i (hi : i < assembly.bytes.length), 2 ≤ mount.toNat + i →
        loaded.memory.read (UInt16.ofNat (mount.toNat + i)) = assembly.bytes[i]) ∧
      (loaded.memory.Holds mount.toNat assembly.bytes ↔
        ∀ i (hi : i < assembly.bytes.length), mount.toNat + i < 2 → assembly.bytes[i] = 0) := by
  obtain ⟨loaded, hload⟩ := machine.exists_load (Layout.bytes_fit h)
  refine ⟨loaded, hload, Machine.entry_of_load hload, fun i hi => Machine.read_of_load hload hi, ?_⟩
  constructor
  · intro hholds i hi hbelow
    rw [← hholds i hi]
    exact Machine.read_of_load_below hload hbelow
  · intro hzero i hi
    by_cases hbeyond : 2 ≤ mount.toNat + i
    · exact Machine.read_of_load hload hi hbeyond
    · rw [hzero i hi (by omega)]
      exact Machine.read_of_load_below hload (by omega)

/-- an image whose first byte is zero, for the second address of the entry point -/
def zeroFirst : String := "dat 0 7"

theorem zeroFirst_is_kept :
    ∃ assembly, assemble zeroFirst 1 = .ok assembly ∧ assembly.bytes = [0, 7] ∧
      ∃ loaded, Machine.initial.load 1 assembly.bytes = .ok loaded ∧ loaded.entry = 1 ∧
        loaded.memory.Holds 1 [0, 7] := by
  have hbytes : (assemble zeroFirst 1).map (·.bytes) = .ok [0, 7] := by decide +kernel
  obtain ⟨assembly, h, hassembled⟩ := Attempt.map_eq_ok_iff.1 hbytes
  obtain ⟨loaded, hload, hentry, -, hkept⟩ := load_keeps_image _ _ _ h Machine.initial
  rw [hassembled] at hkept
  refine ⟨assembly, h, hassembled, loaded, hload, hentry, hkept.2 fun i hi hbelow => ?_⟩
  obtain rfl : i = 0 := by rw [UInt16.toNat_one] at hbelow; omega
  rfl

/-- an instruction at address 0 is accepted, and its byte is lost to the entry point -/
theorem haltAtZero_is_overwritten :
    ∃ assembly, assemble "hlt" 0 = .ok assembly ∧ assembly.bytes = [0xff] ∧
      ∃ loaded, Machine.initial.load 0 assembly.bytes = .ok loaded ∧ loaded.memory.read 0 = 0 ∧
        ¬ loaded.memory.Holds 0 assembly.bytes := by
  have hbytes : (assemble "hlt" 0).map (·.bytes) = .ok [0xff] := by decide +kernel
  obtain ⟨assembly, h, hassembled⟩ := Attempt.map_eq_ok_iff.1 hbytes
  obtain ⟨loaded, hload⟩ := Machine.initial.exists_load (Layout.bytes_fit h)
  have hlost := Machine.read_of_load_below (i := 0) hload (by decide)
  rw [show UInt16.ofNat ((0 : Word).toNat + 0) = 0 from rfl] at hlost
  refine ⟨assembly, h, hassembled, loaded, hload, hlost, fun hholds => ?_⟩
  rw [hassembled] at hholds
  have hkept := hholds 0 Nat.zero_lt_one
  rw [show UInt16.ofNat (0 + 0) = 0 from rfl, hlost] at hkept
  exact absurd hkept (by decide)

end ByteMachine
