/-
The end of the address space. A line is rejected for want of room exactly if its bytes go beyond the last address, or if
it declares a label where no address is left; what else is wrong with it, or with a later line, does not matter
(`Draft.add_of_exceeds`). An image may fill the address space up to its last byte, and then no label comes after it.

- `OutOfRoom`: the first line of a text that there is no room for, counted in bytes of the lines before it.
- `Assembly.Fits`: an image ends within the address space, and no address of a name has come round to zero.
- `assemble_stops_at_last_address`: both for every text and every mount address.
-/
import Mathlib.Tactic
import ByteMachine.Proofs.Diagnostics.Concerns
import ByteMachine.Proofs.Layout.Room
import ByteMachine.Proofs.Relocation.Assembly

namespace ByteMachine

open Layout

def Statement.emitted (statements : List Statement) : Nat := (statements.map size).sum

namespace Layout

variable {space : Space} {first : Nat} {statements : List Statement}

theorem length_sites (space : Space) (statement : Statement) : (space.sites statement).length = statement.size := by
  cases statement <;> simp [Space.sites, Statement.size]

theorem length_sites_lay (space : Space) (first : Nat) (statements : List Statement) :
    ((lay space first statements).flatMap Line.sites).length = Statement.emitted statements := by
  induction statements generalizing space first with
  | nil => rfl
  | cons statement statements ih =>
    rw [lay, List.flatMap_cons, List.length_append, ih, Line.sites, length_sites]
    rfl

/-- the lines of a layout are its statements, each after the bytes of those before it -/
theorem mem_lay_iff {line : Line} :
    line ∈ lay space first statements ↔
      ∃ before after, statements = before ++ line.statement :: after ∧ line.space = before.foldl Space.after space ∧
        line.address = first + Statement.emitted before := by
  induction statements generalizing space first with
  | nil => simp [lay]
  | cons statement statements ih =>
    rw [lay, List.mem_cons, ih, length_sites]
    constructor
    · intro h
      rcases h with rfl | ⟨before, after, rfl, hspace, haddress⟩
      · exact ⟨[], statements, rfl, rfl, rfl⟩
      · refine ⟨statement :: before, after, rfl, hspace, ?_⟩
        rw [haddress, Nat.add_assoc]
        rfl
    · intro h
      obtain ⟨before, after, hsplit, hspace, haddress⟩ := h
      cases before with
      | nil =>
        obtain ⟨rfl, rfl⟩ := List.cons.inj hsplit
        obtain ⟨space', address, statement⟩ := line
        obtain rfl : space' = space := hspace
        obtain rfl : address = first := haddress
        exact .inl rfl
      | cons _ before =>
        obtain ⟨rfl, hrest⟩ := List.cons.inj hsplit
        refine .inr ⟨before, after, hrest, hspace, ?_⟩
        rw [haddress, Nat.add_assoc]
        rfl

theorem declares_of_declared {line : Line} {name : String} (h : line.statement.declared = some name) :
    line.declares = some (line.space.path ++ plain [name]) := by
  obtain ⟨space, address, statement⟩ := line
  cases statement with
  | label name' visibility =>
    obtain rfl := Option.some.inj h
    rfl
  | subroutine name' visibility =>
    obtain rfl := Option.some.inj h
    rfl
  | _ => cases h

/-- an address in the table is that of a label in its line -/
theorem exists_line_of_mem_tableOf {lines : List Line} {route : Route} {value : Nat}
    (h : (route, .address value) ∈ tableOf lines) :
    ∃ line ∈ lines, line.address = value ∧ line.statement.declared.isSome := by
  obtain ⟨⟨space, address, statement⟩, hline, hmem⟩ := List.mem_flatMap.1 h
  obtain ⟨rfl, -⟩ := address_mem_bindings hmem value
  refine ⟨_, hline, rfl, ?_⟩
  cases statement with
  | label name visibility => rfl
  | subroutine name visibility => rfl
  | _ => simp [Line.bindings, Space.bindings] at hmem

end Layout

/-- an address that is written out was one of a word -/
theorem Binding.Means.exists_word {symbols : SymbolTable} {binding : Binding} {value : Nat}
    (h : binding.Means symbols (.address value)) : ∃ address : Word, address.toNat = value := by
  cases h with
  | address word => exact ⟨word, rfl⟩

/-! ## Lines without room -/

/-- the texts before are accepted, and there is no room for the next text, which says the statement -/
structure OutOfRoom (texts : List String) (mount : Word) (before : List String) (text : String)
    (statements : List Statement) (statement : Statement) : Prop where
  line : ∃ after, texts = before ++ text :: after
  accepted : ∃ draft, Draft.ofLines before mount = .ok draft
  earlier : List.Forall₂ (fun text statement => Statement.parse text = .ok statement) before statements
  reads : Statement.parse text = .ok statement
  exceeds : statement.Exceeds (mount.toNat + Statement.emitted statements)

namespace Draft

variable {draft : Draft} {texts : List String} {mount : Word} {e : AssemblyError}

/-- what is laid out after lines is what they emit, and it fits -/
theorem size_of_ofLines (h : ofLines texts mount = .ok draft) :
    ∃ statements, List.Forall₂ (fun text statement => Statement.parse text = .ok statement) texts statements ∧
      draft.mount = mount ∧ draft.cells.size = Statement.emitted statements ∧ draft.address ≤ addressSpace := by
  obtain ⟨statements, hparses, hfollows⟩ := (start_follows mount).addLines h
  refine ⟨statements, hparses, hfollows.mount, ?_, (start_follows mount).fits_addLines (fits_start mount) h⟩
  rw [← Array.length_toList, hfollows.laid.length_eq, List.nil_append, length_sites_lay]

/-- **The first reading ends for want of room at a line that there is no room for, and nowhere else.** -/
theorem ofLines_eq_error_room_iff :
    (ofLines texts mount = .error e ∧ e.cause.concern = .room) ↔
      ∃ before text statements statement, OutOfRoom texts mount before text statements statement ∧
        e = ⟨before.length + 1, 0, text,
          .programTooLarge mount (Statement.emitted statements + statement.size)⟩ := by
  constructor
  · intro h
    obtain ⟨hrejected, hroom⟩ := h
    obtain ⟨before, text, after, middle, hsplit, hbefore, hline⟩ := ofLines_eq_error_iff.1 hrejected
    obtain ⟨statements, hparses, hmount, hsize, hfits⟩ := size_of_ofLines hbefore
    rcases addLine_eq_error_iff.1 hline with ⟨complaint, hcomplaint, rfl⟩ | ⟨statement, cause, hparse, hadd, rfl⟩
    · have hform := Statement.concern_of_parse hcomplaint
      rw [hroom] at hform
      cases hform
    · rcases add_eq_error hfits hadd with ⟨hexceeds, rfl⟩ | hnames
      · rw [address, hmount, hsize] at hexceeds
        refine ⟨before, text, statements, statement,
          ⟨⟨after, hsplit⟩, ⟨middle, hbefore⟩, hparses, hparse, hexceeds⟩, ?_⟩
        rw [hmount, hsize]
      · rw [hroom] at hnames
        cases hnames
  · intro h
    obtain ⟨before, text, statements, statement, hout, rfl⟩ := h
    obtain ⟨after, hsplit⟩ := hout.line
    obtain ⟨middle, hmiddle⟩ := hout.accepted
    obtain ⟨statements', hparses, hmount, hsize, -⟩ := size_of_ofLines hmiddle
    obtain rfl : statements = statements' :=
      List.right_unique_forall₂' (fun _ _ _ h h' => Except.ok.inj (h.symm.trans h')) hout.earlier hparses
    have hexceeds : statement.Exceeds middle.address := by
      rw [address, hmount, hsize]
      exact hout.exceeds
    have hadd := @add_of_exceeds middle (before.length + 1) statement hexceeds
    rw [hmount, hsize] at hadd
    refine ⟨ofLines_eq_error_iff.2 ⟨before, text, after, middle, hsplit, hmiddle, ?_⟩, rfl⟩
    rw [addLine_of_parse hout.reads, hadd]
    rfl

end Draft

/-! ## Images -/

/-- the image ends within the address space, and the addresses of its names are those of labels, as exact numbers -/
structure Assembly.Fits (assembly : Assembly) (mount : Word) (statements : List Statement) : Prop where
  bytes : mount.toNat + assembly.bytes.length ≤ Draft.addressSpace
  /-- the bytes are those that the statements emit -/
  size : assembly.bytes.length = Statement.emitted statements
  /-- a label has the address after the bytes before it -/
  labels : ∀ before statement after name, statements = before ++ statement :: after → statement.declared = some name →
    ∃ address : Word, address.toNat = mount.toNat + Statement.emitted before ∧
      (Route.text ((before.foldl Space.after Space.initial).path ++ plain [name]), address) ∈ assembly.symbols
  /-- every name has the address of a label -/
  names : ∀ text address, (text, address) ∈ assembly.symbols → ∃ before statement after,
    statements = before ++ statement :: after ∧ statement.declared.isSome ∧
      address.toNat = mount.toNat + Statement.emitted before

theorem exists_fits_of_assemble {source : String} {mount : Word} {assembly : Assembly}
    (h : assemble source mount = .ok assembly) :
    ∃ statements,
      List.Forall₂ (fun text statement => Statement.parse text = .ok statement) (Text.lines source) statements ∧
      assembly.Fits mount statements := by
  obtain ⟨draft, statements, -, hlink, hparses, hfollows⟩ := exists_follows_of_assemble h
  obtain ⟨hcheck, -, -, hsymbols⟩ := Draft.link_eq_ok hlink
  refine ⟨statements, hparses, bytes_fit h, ?_, ?_, ?_⟩
  · rw [← (hfollows.holds_bytes hlink).length_eq, length_sites_lay]
  · intro before statement after name hsplit hname
    let line : Line := ⟨before.foldl Space.after Space.initial, mount.toNat + Statement.emitted before, statement⟩
    have hline : line ∈ lay Space.initial mount.toNat statements := mem_lay_iff.2 ⟨before, after, hsplit, rfl, rfl⟩
    have hmem : (line.space.path ++ plain [name], .address line.address) ∈
        tableOf (lay Space.initial mount.toNat statements) :=
      List.mem_flatMap.2 ⟨line, hline, mem_bindings_of_declares (declares_of_declared hname)⟩
    -- the address was one of a word before it was written out
    obtain ⟨⟨path, binding, number⟩, -, -, hmeans⟩ := InStep.exists_left hfollows.bound hmem
    obtain ⟨address, haddress⟩ := hmeans.exists_word
    refine ⟨address, haddress, ?_⟩
    rw [hsymbols, hfollows.mem_symbolList_iff hcheck]
    rw [← haddress] at hmem
    exact ⟨_, hmem, rfl, .address hmem⟩
  · intro text address hlisted
    rw [hsymbols, hfollows.mem_symbolList_iff hcheck] at hlisted
    obtain ⟨binding, -, -, hleads⟩ := hlisted
    obtain ⟨label, hlabel⟩ := hleads.exists_label
    obtain ⟨line, hline, hvalue, hdeclared⟩ := exists_line_of_mem_tableOf hlabel
    obtain ⟨before, after, hsplit, -, haddress⟩ := mem_lay_iff.1 hline
    exact ⟨before, line.statement, after, hsplit, hdeclared, hvalue.symm.trans haddress⟩

/-- **A text is too large exactly at a line that there is no room for.** The error is at that line as a whole, with the
mount address and the number of bytes with those of the line; every line before it is accepted. An image that is
assembled fits, and its names have exact addresses. -/
theorem assemble_stops_at_last_address (source : String) (mount : Word) :
    (∀ e, (assemble source mount = .error e ∧ ∃ start size, e.cause = .programTooLarge start size) ↔
      ∃ before text statements statement, OutOfRoom (Text.lines source) mount before text statements statement ∧
        e = ⟨before.length + 1, 0, text,
          .programTooLarge mount (Statement.emitted statements + statement.size)⟩) ∧
    ∀ assembly, assemble source mount = .ok assembly → ∃ statements,
      List.Forall₂ (fun text statement => Statement.parse text = .ok statement) (Text.lines source) statements ∧
      assembly.Fits mount statements := by
  refine ⟨fun e => ?_, fun assembly h => exists_fits_of_assemble h⟩
  rw [← Draft.ofLines_eq_error_room_iff]
  constructor
  · intro h
    obtain ⟨hrejected, start, size, hcause⟩ := h
    have hroom : e.cause.concern = .room := by rw [hcause]; rfl
    rcases Attempt.bind_eq_error_iff.1 hrejected with hfirst | ⟨draft, -, hlink⟩
    · exact ⟨hfirst, hroom⟩
    · have hlinks := Draft.concern_of_link hlink
      rw [hroom] at hlinks
      cases hlinks
  · intro h
    obtain ⟨hrejected, hroom⟩ := h
    refine ⟨Attempt.bind_eq_error_iff.2 (.inl hrejected), ?_⟩
    cases hcause : e.cause with
    | programTooLarge start size => exact ⟨start, size, rfl⟩
    | _ =>
      rw [hcause] at hroom
      cases hroom

/-- a byte at the last address, and a label after it -/
def labelPastEnd : String := "dat 1\n.end"

theorem labelPastEnd_stops :
    assemble labelPastEnd 0xffff = .error ⟨2, 0, ".end", .programTooLarge 0xffff 1⟩ ∧
      ∃ assembly statements, assemble "dat 1" 0xffff = .ok assembly ∧ assembly.Fits 0xffff statements := by
  have hlines : Text.lines labelPastEnd = ["dat 1", ".end"] := by decide +kernel
  have hread : (Draft.ofLines ["dat 1"] 0xffff).toOption.isSome := by decide +kernel
  have hout : OutOfRoom (Text.lines labelPastEnd) 0xffff ["dat 1"] ".end" [.data [⟨.literal 1, ⟨"1", 5⟩⟩]]
      (.label "end" .concealed) := {
    line := ⟨[], hlines⟩
    accepted := Attempt.exists_ok_of_isSome hread
    earlier := .cons (by decide +kernel) .nil
    reads := by decide +kernel
    exceeds := by decide }
  have hassembles : (assemble "dat 1" 0xffff).toOption.isSome := by decide +kernel
  obtain ⟨assembly, hassembly⟩ := Attempt.exists_ok_of_isSome hassembles
  obtain ⟨statements, -, hfits⟩ := (assemble_stops_at_last_address "dat 1" 0xffff).2 assembly hassembly
  exact ⟨(((assemble_stops_at_last_address labelPastEnd 0xffff).1 _).2 ⟨_, _, _, _, hout, rfl⟩).1,
    assembly, statements, hassembly, hfits⟩

end ByteMachine
