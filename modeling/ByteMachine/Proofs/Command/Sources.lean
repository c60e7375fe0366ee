/-
What becomes of the input of the assembler command if no output is asked for. The image goes beside it under its stem with
the extension of images, so the input stays as it was, with one exception: an input that has this extension itself is its
own output, and no check stands before the write that replaces the text by its image.

- `run_keeps_source`: the input after a command that succeeds.
- `imageName_is_overwritten`: a text that is lost.
-/
import Mathlib.Tactic
import ByteMachine.Proofs.Command.Images

namespace ByteMachine.Command.Assembler

open FileName (HasStem)

variable {files : FileTree} {input program : String} {arguments : List String}

/-- the path ends in a name that has the extension of images after something else -/
def HasImageExtension (path : String) : Prop :=
  ∃ front, front ≠ "" ∧ (FileTree.pieces path).getLast? = some (front ++ ".bin")

theorem not_hasImageExtension {name : String} (hname : (FileTree.pieces input).getLast? = some name)
    (hlast : name.toList.getLast? ≠ some 'n') : ¬HasImageExtension input := by
  rintro ⟨front, -, himage⟩
  rw [hname, Option.some.injEq] at himage
  rw [himage] at hlast
  simp at hlast

theorem not_hasImageExtension_of_help (h : asksForHelp input = true) : ¬HasImageExtension input := by
  rw [asksForHelp, Bool.or_eq_true, decide_eq_true_eq, decide_eq_true_eq] at h
  rcases h with rfl | rfl
  · exact @not_hasImageExtension _ "--help" (by decide) (by decide)
  · exact @not_hasImageExtension _ "-h" (by decide) (by decide)

/-- a job without an output option writes beside its input -/
theorem Job.goesBeside (job : Job files arguments) (hshort : "-o" ∉ arguments.tail) (hlong : "--output" ∉ arguments.tail) :
    ∃ source kept, files.Names job.input job.directory source ∧ HasStem source kept ∧ job.name = kept ++ ".bin" := by
  have houtputs : outputs job.settings = [] := by
    rw [List.eq_nil_iff_forall_not_mem]
    intro path hpath
    have hrest : arguments.tail = job.rest := by rw [congrArg List.tail job.isAsked, List.tail_cons]
    rcases job.gives.mem_of_output hpath with hoption | hoption
    · exact hshort (hrest ▸ hoption)
    · exact hlong (hrest ▸ hoption)
  have hgoes := job.goesTo
  rw [GoesTo, houtputs] at hgoes
  exact hgoes

/-- it is its own output exactly if it has the extension of images -/
theorem hasImageExtension_iff {directory : Location} {source kept : String} (h : files.Names input directory source)
    (hstem : HasStem source kept) : HasImageExtension input ↔ kept ++ ".bin" = source := by
  rw [HasImageExtension, FileTree.getLast?_pieces_of_names h]
  have hkept := hstem.append_eq_iff h.isName (by decide : '.' ∉ "bin".toList)
  rw [String.append_assoc] at hkept
  have hextension : ".bin" = "." ++ "bin" := rfl
  rw [hextension, hkept]
  simp only [Option.some.injEq, String.append_assoc]

/-- **The input stays** if no output option is given and the command succeeds, unless it has the extension of images: then
it holds its own image. -/
theorem run_keeps_source (program : String) (arguments : List String) (files : FileTree) (hshort : "-o" ∉ arguments.tail)
    (hlong : "--output" ∉ arguments.tail) (hcode : (run program arguments files).code = 0) :
    ∃ input rest, arguments = input :: rest ∧
      (¬HasImageExtension input → (run program arguments files).files.lookup input = files.lookup input) ∧
      (HasImageExtension input → ∃ job : Job files arguments, job.input = input ∧
        (run program arguments files).files.lookup input = .ok (.file job.assembly.bytes)) := by
  rcases run_cases program arguments files with ⟨messages, hfailure⟩ | ⟨hhelp, hrun⟩ | ⟨⟨job⟩⟩
  · rw [hfailure] at hcode
    cases hcode
  · cases arguments with
    | nil => cases hhelp
    | cons input rest =>
      refine ⟨input, rest, rfl, fun _ => by rw [hrun], fun himage => ?_⟩
      exact absurd himage (not_hasImageExtension_of_help hhelp)
  · obtain ⟨source, kept, hnames, hstem, hname⟩ := job.goesBeside hshort hlong
    have himage := hasImageExtension_iff hnames hstem
    rw [← hname] at himage
    have hwrote := @FileTree.wrote_put files _ job.assembly.bytes job.notDirectory
    rw [← (job.run_eq program).2] at hwrote
    refine ⟨job.input, job.rest, job.isAsked, fun hother => ?_, fun hsame => ⟨job, rfl, ?_⟩⟩
    · refine hwrote.lookup_other hnames fun hplace => ?_
      exact hother (himage.2 (Location.child_inj.1 hplace).2.symm)
    · exact hwrote.lookup_eq (himage.1 hsame ▸ hnames)

theorem oneSource_is_kept :
    (run "assembler" ["p.asm", "-l"] oneSource).files.lookup "p.asm" = oneSource.lookup "p.asm" := by
  obtain ⟨input, rest, harguments, hkept, -⟩ :=
    run_keeps_source "assembler" ["p.asm", "-l"] oneSource (by decide) (by decide) (by decide +kernel)
  cases harguments
  exact hkept (@not_hasImageExtension _ "p.asm" (by decide) (by decide))

/-- one text under the name of an image -/
def imageName : FileTree := FileTree.empty.addEntry "p.bin" (.file [0x68, 0x6c, 0x74])

theorem imageName_is_overwritten :
    (run "assembler" ["p.bin"] imageName).code = 0 ∧
      imageName.lookup "p.bin" = .ok (.file [0x68, 0x6c, 0x74]) ∧
      (run "assembler" ["p.bin"] imageName).files.lookup "p.bin" = .ok (.file [0xff]) := by
  decide +kernel

end ByteMachine.Command.Assembler
