/-
The files that the assembler command leaves. A command that fails changes no file. One that succeeds without being asked
for help has done a job: it has read the text of its input, assembled it at the mount it was asked for, and written the
image to its output, and all else is as it was.

- `Job`: the work that arguments ask for and that can be done.
- `run_writes_output_only`: the exit code and the files of every command.
-/
import Mathlib.Tactic
import ByteMachine.Proofs.Command.Settings
import ByteMachine.Proofs.Files.Contents

namespace ByteMachine.Command.Assembler

open FileName (HasStem)

variable {files after : FileTree} {input output name program : String} {arguments rest : List String} {options : Options}
  {settings : List Setting} {directory : Location} {assembly : Assembly}

/-! ## The output -/

/-- the image goes to the file that the last output path names; without one, to the file in the directory of the input
that has the stem of the input and the extension of images -/
def GoesTo (files : FileTree) (input : String) (settings : List Setting) (directory : Location) (name : String) : Prop :=
  match (outputs settings).getLast? with
  | some path => files.Names path directory name
  | none => ∃ source kept, files.Names input directory source ∧ HasStem source kept ∧ name = kept ++ ".bin"

def Options.outputFor (options : Options) (input : String) : String := options.output.getD (defaultOutput input)

/-- the input itself is a file in a directory, and its name has one stem; so the output path names what it should -/
theorem goesTo_iff {content : List Byte} (hinput : files.lookup input = .ok (.file content))
    (houtput : options.output = (outputs settings).getLast?) :
    GoesTo files input settings directory name ↔ files.Names (options.outputFor input) directory name := by
  rw [GoesTo, Options.outputFor, houtput]
  cases (outputs settings).getLast? with
  | some path => rfl
  | none =>
    obtain ⟨place, source, hsource, -⟩ := FileTree.lookup_eq_file_iff.1 hinput
    have hdefault := hsource.withExtension (by decide : "bin" ≠ "") (by decide)
    have hextension : "." ++ "bin" = ".bin" := rfl
    rw [String.append_assoc, hextension, ← defaultOutput] at hdefault
    rw [Option.getD_none]
    constructor
    · rintro ⟨source', kept, hnames, hstem, rfl⟩
      obtain ⟨rfl, rfl⟩ := hsource.unique hnames
      rw [← hstem.stem_eq]
      exact hdefault
    · intro hnames
      obtain ⟨rfl, rfl⟩ := hdefault.unique hnames
      exact ⟨source, _, hsource, FileName.hasStem_stem source, rfl⟩

/-- the directory of a path that names something is not missing -/
theorem missingDirectory?_of_names (h : files.Names output directory name) : missingDirectory? files output = none := by
  rw [missingDirectory?, Option.filter_eq_none_iff]
  intro above habove hmissing
  rw [Bool.and_eq_true, decide_eq_true_eq, Bool.not_eq_true'] at hmissing
  rw [h.pathExists habove hmissing.1] at hmissing
  cases hmissing.2

/-! ## Compiling a file -/

/-- the text of the input, its image, and the files after it was written -/
structure Compiles (files : FileTree) (input : String) (options : Options) (source : String) (assembly : Assembly)
    (after : FileTree) : Prop where
  reads : files.readText input = .ok source
  assembles : assemble source options.mount = .ok assembly
  writes : files.writeFile (options.outputFor input) assembly.bytes = .ok after

theorem assembleFile_eq_some_iff {mount : Word} :
    (assembleFile files input mount).1 = some assembly ↔
      ∃ source, files.readText input = .ok source ∧ assemble source mount = .ok assembly := by
  rw [assembleFile]
  cases files.readText input with
  | error reason => simp
  | ok source => cases hassembled : assemble source mount <;> simp [hassembled]

theorem compile_of_compiles {source : String} (h : Compiles files input options source assembly after) :
    (compile files input options).code = 0 ∧ (compile files input options).files = after := by
  have hthere : files.pathExists input = true := by
    obtain ⟨content, hlookup, -⟩ := FileTree.readText_eq_ok_iff.1 h.reads
    rw [FileTree.pathExists, hlookup]
    rfl
  have hdirectory : missingDirectory? files (options.outputFor input) = none := by
    obtain ⟨directory, name, hnames, -⟩ := FileTree.writeFile_eq_ok_iff.1 h.writes
    exact missingDirectory?_of_names hnames
  have himage := assembleFile_eq_some_iff.2 ⟨source, h.reads, h.assembles⟩
  have hwritten := h.writes
  rw [Options.outputFor] at hdirectory hwritten
  obtain ⟨messages, hassembled⟩ : ∃ messages, assembleFile files input options.mount = (some assembly, messages) :=
    ⟨_, Prod.ext himage rfl⟩
  simp [compile, hthere, hdirectory, hassembled, hwritten]

theorem compile_eq_failure_or_compiles (files : FileTree) (input : String) (options : Options) :
    (∃ messages, compile files input options = .failure files messages) ∨
      ∃ source assembly after, Compiles files input options source assembly after := by
  rw [compile]
  split
  · exact .inl ⟨_, rfl⟩
  · dsimp only
    split
    next => exact .inl ⟨_, rfl⟩
    next =>
      split
      next => exact .inl ⟨_, rfl⟩
      next assembly messages hassembled =>
        obtain ⟨source, hreads, hassembles⟩ := assembleFile_eq_some_iff.1 (congrArg Prod.fst hassembled)
        split
        next => exact .inl ⟨_, rfl⟩
        next after hwrites => exact .inr ⟨source, assembly, after, hreads, hassembles, hwrites⟩

/-! ## All commands -/

/-- a job that the arguments ask for and that can be done: the input reads as a text that has an image at the mount
asked for, and where the image goes is no directory -/
structure Job (files : FileTree) (arguments : List String) where
  input : String
  rest : List String
  settings : List Setting
  source : String
  assembly : Assembly
  directory : Location
  name : String
  isAsked : arguments = input :: rest
  notHelp : asksForHelp input = false
  gives : Gives rest settings
  reads : files.readText input = .ok source
  assembles : assemble source (mountOf settings) = .ok assembly
  goesTo : GoesTo files input settings directory name
  notDirectory : files.find? (directory.child name) ≠ some .directory

theorem Job.compiles (job : Job files arguments) :
    Compiles files job.input (job.settings.foldl Setting.apply Options.default) job.source job.assembly
      (files.put (job.directory.child job.name) (.file job.assembly.bytes)) := by
  obtain ⟨houtput, hmount⟩ := @foldl_apply_default job.settings
  obtain ⟨content, hinput, -⟩ := FileTree.readText_eq_ok_iff.1 job.reads
  refine ⟨job.reads, by rw [hmount, job.assembles], FileTree.writeFile_eq_ok_iff.2 ⟨_, _, ?_, job.notDirectory, rfl⟩⟩
  exact (goesTo_iff hinput houtput).1 job.goesTo

/-- what is compiled is a job -/
theorem exists_job_of_compiles {source : String} (hnotHelp : asksForHelp input = false) (hgives : Gives rest settings)
    (h : Compiles files input (settings.foldl Setting.apply Options.default) source assembly after) :
    Nonempty (Job files (input :: rest)) := by
  obtain ⟨houtput, hmount⟩ := @foldl_apply_default settings
  obtain ⟨content, hinput, -⟩ := FileTree.readText_eq_ok_iff.1 h.reads
  obtain ⟨directory, name, hnames, hfree, -⟩ := FileTree.writeFile_eq_ok_iff.1 h.writes
  exact ⟨⟨input, rest, settings, source, assembly, directory, name, rfl, hnotHelp, hgives, h.reads,
    by rw [← hmount, h.assembles], (goesTo_iff hinput houtput).2 hnames, hfree⟩⟩

theorem run_of_gives (hnotHelp : asksForHelp input = false) (hgives : Gives rest settings) :
    run program (input :: rest) files = compile files input (settings.foldl Setting.apply Options.default) := by
  have hread := read_eq_ok_iff.2 ⟨settings, hgives, @rfl _ (settings.foldl Setting.apply Options.default)⟩
  simp [run, hnotHelp, hread]

/-- the three ends of a command: a failure, the help text, a job -/
theorem run_cases (program : String) (arguments : List String) (files : FileTree) :
    (∃ messages, run program arguments files = .failure files messages) ∨
      (arguments.head?.any asksForHelp = true ∧ run program arguments files = ⟨0, "", [note (help program)], files⟩) ∨
      Nonempty (Job files arguments) := by
  cases arguments with
  | nil => exact .inl ⟨_, rfl⟩
  | cons input rest =>
    by_cases hhelp : asksForHelp input = true
    · exact .inr (.inl ⟨hhelp, by rw [run, if_pos hhelp]⟩)
    · have hnotHelp : asksForHelp input = false := by simpa using hhelp
      cases hread : optionTable.read Options.default rest with
      | error e => exact .inl ⟨_, by rw [run, if_neg hhelp, hread]⟩
      | ok options =>
        obtain ⟨settings, hgives, rfl⟩ := read_eq_ok_iff.1 hread
        rw [run_of_gives hnotHelp hgives]
        rcases compile_eq_failure_or_compiles files input (settings.foldl Setting.apply Options.default) with
          hfailure | ⟨source, assembly, after, hcompiles⟩
        · exact .inl hfailure
        · exact .inr (.inr (exists_job_of_compiles hnotHelp hgives hcompiles))

theorem Job.run_eq (program : String) (job : Job files arguments) :
    (run program arguments files).code = 0 ∧
      (run program arguments files).files = files.put (job.directory.child job.name) (.file job.assembly.bytes) := by
  have hrun := (congrArg (run program · files) job.isAsked).trans (run_of_gives job.notHelp job.gives)
  rw [hrun]
  exact compile_of_compiles job.compiles

/-- **All or nothing:** a command that fails changes no file, and neither does one that is asked for help. Any other does
a job: it makes or rewrites its output, which then holds the image of the input and reads as that, and nothing else. -/
theorem run_writes_output_only (program : String) (arguments : List String) (files : FileTree) :
    ((run program arguments files).code ≠ 0 → (run program arguments files).files = files) ∧
      (arguments.head?.any asksForHelp = true →
        (run program arguments files).code = 0 ∧ (run program arguments files).files = files) ∧
      ((run program arguments files).code = 0 → arguments.head?.any asksForHelp = false →
        Nonempty (Job files arguments)) ∧
      ∀ job : Job files arguments, (run program arguments files).code = 0 ∧
        files.Wrote (job.directory.child job.name) job.assembly.bytes (run program arguments files).files ∧
        ∀ path, files.Names path job.directory job.name →
          (run program arguments files).files.lookup path = .ok (.file job.assembly.bytes) := by
  refine ⟨fun hcode => ?_, fun hhelp => ?_, fun hcode hnotHelp => ?_, fun job => ?_⟩
  · rcases run_cases program arguments files with ⟨messages, hfailure⟩ | ⟨-, hhelp⟩ | ⟨⟨job⟩⟩
    · rw [hfailure]
      rfl
    · rw [hhelp]
    · exact absurd (job.run_eq program).1 hcode
  · cases arguments with
    | nil => cases hhelp
    | cons input rest =>
      have hinput : asksForHelp input = true := hhelp
      rw [run, if_pos hinput]
      exact ⟨rfl, rfl⟩
  · rcases run_cases program arguments files with ⟨messages, hfailure⟩ | ⟨hhelp, -⟩ | hjob
    · rw [hfailure] at hcode
      cases hcode
    · rw [hhelp] at hnotHelp
      cases hnotHelp
    · exact hjob
  · obtain ⟨hcode, hfiles⟩ := job.run_eq program
    have hwrote := @FileTree.wrote_put files _ job.assembly.bytes job.notDirectory
    rw [hfiles]
    exact ⟨hcode, hwrote, fun path hnames => hwrote.lookup_eq hnames⟩

/-- one file with one instruction -/
def oneSource : FileTree := FileTree.empty.addEntry "p.asm" (.file [0x68, 0x6c, 0x74])

/-- its image for another address -/
def mountedJob : Job oneSource ["p.asm", "-m", "0x20"] where
  input := "p.asm"
  rest := ["-m", "0x20"]
  settings := [.mount 0x20]
  source := "hlt"
  assembly := ⟨[0xff], 0x20, []⟩
  directory := ⟨.above 0, []⟩
  name := "p.bin"
  isAsked := rfl
  notHelp := rfl
  gives := .cons (.mount (by simp) rfl) .nil
  reads := by decide +kernel
  assembles := by decide +kernel
  goesTo := ⟨"p.asm", "p", ⟨⟨rfl, by decide, by decide⟩, rfl, [], by decide, rfl⟩,
    FileName.hasStem_stem "p.asm", rfl⟩
  notDirectory := by decide +kernel

theorem oneSource_is_compiled :
    (run "assembler" ["p.asm", "-o", "out/p.bin"] oneSource).files = oneSource ∧
      (run "assembler" ["--help"] oneSource).files = oneSource ∧
      Nonempty (Job oneSource ["p.asm"]) ∧
      oneSource.Wrote ⟨.above 0, ["p.bin"]⟩ [0xff] (run "assembler" ["p.asm", "-m", "0x20"] oneSource).files :=
  ⟨(run_writes_output_only _ _ _).1 (by decide +kernel),
    ((run_writes_output_only _ _ _).2.1 rfl).2,
    (run_writes_output_only "assembler" _ _).2.2.1 (by decide +kernel) rfl,
    ((run_writes_output_only _ _ _).2.2.2 mountedJob).2.1⟩

end ByteMachine.Command.Assembler
