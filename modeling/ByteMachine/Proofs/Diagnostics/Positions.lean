/-
The positions of errors. An error is at a line of the text and quotes it, and its reason says at which word: the first
one, the one of an operand, or none where the line as a whole is at fault. The first reading carries positions from the
words to the complaints and into bindings and cells, and the second reading finds the lines again by their numbers.

- `Layout.Dangles`: the line and the column of a name that leads nowhere, an alias or an operand.
- `AssemblyError.Positioned`: the position of an error, by its reason.
- `error_has_position_of_cause`: every error of an assembly has that position.
-/
import Mathlib.Tactic
import ByteMachine.Proofs.Aliases.Linking
import ByteMachine.Proofs.Diagnostics.Concerns
import ByteMachine.Proofs.Diagnostics.Spots
import ByteMachine.Proofs.Layout.Room

namespace ByteMachine

open Layout

namespace Layout

variable {lines : List Line}

/-- a binding was made by the line with its number -/
theorem exists_line_of_mem_madeFrom {number : Nat} {made : Made} (h : made ∈ madeFrom number lines) :
    ∃ line, lines[made.number - number]? = some line ∧ (made.route, made.meaning) ∈ line.bindings := by
  obtain ⟨⟨line, index⟩, hline, hmade⟩ := List.mem_flatMap.1 h
  obtain ⟨binding, hbinding, rfl⟩ := List.mem_map.1 hmade
  exact ⟨line, (List.mk_mem_zipIdx_iff_le_and_getElem?_sub.1 hline).2, hbinding⟩

/-- a byte of an address was emitted by an operand of the line with its number, at the word of the operand -/
theorem exists_argument_of_mem_emittedFrom {number : Nat} {emitted : Emitted} (h : emitted ∈ emittedFrom number lines)
    {route : Route} {half : Half} (hsite : emitted.site = .half route half) :
    ∃ line argument name, lines[emitted.number - number]? = some line ∧ argument ∈ line.statement.arguments ∧
      argument.operand = .address name half ∧ route = line.space.qualify name 0 ∧
      emitted.column = argument.token.column := by
  obtain ⟨⟨⟨space, address, statement⟩, index⟩, hline, hemitted⟩ := List.mem_flatMap.1 h
  have hplace := (List.mk_mem_zipIdx_iff_le_and_getElem?_sub.1 hline).2
  have hoperand : ∀ argument ∈ statement.arguments, emitted = space.emittedOperand index argument →
      ∃ line argument name, lines[emitted.number - number]? = some line ∧ argument ∈ line.statement.arguments ∧
        argument.operand = .address name half ∧ route = line.space.qualify name 0 ∧
        emitted.column = argument.token.column := by
    rintro ⟨operand, token⟩ hargument rfl
    cases operand with
    | address name half' =>
      obtain ⟨rfl, rfl⟩ := Site.half.inj hsite
      exact ⟨_, _, name, hplace, hargument, rfl, rfl, rfl⟩
    | _ => cases hsite
  cases statement with
  | data arguments =>
    obtain ⟨argument, hargument, rfl⟩ := List.mem_map.1 hemitted
    exact hoperand argument hargument rfl
  | instruction op arguments =>
    rcases List.mem_cons.1 hemitted with rfl | hrest
    · cases hsite
    · obtain ⟨argument, hargument, rfl⟩ := List.mem_map.1 hrest
      exact hoperand argument hargument rfl
  | _ => cases hemitted

/-- the error is that of a name which leads nowhere: of the alias that a line binds, at the line as a whole, or, if every
alias leads to an address, of an operand of a line, at its word -/
inductive Dangles (lines : List Line) (e : AssemblyError) : Prop
  | binding {line : Line} {route target : Route} :
      lines[e.line - 1]? = some line → (route, .sameAs target) ∈ line.bindings → Fails (tableOf lines) route e.cause →
        e.column = 0 → Dangles lines e
  | operand {line : Line} {argument : Argument} {name : Name} {half : Half} :
      (∀ made ∈ madeFrom 1 lines, made.Leads (tableOf lines)) → lines[e.line - 1]? = some line →
        argument ∈ line.statement.arguments → argument.operand = .address name half →
        (∀ meaning, (line.space.qualify name 0, meaning) ∉ tableOf lines) →
        e.cause = .undefinedLabel (Route.text (line.space.qualify name 0)) → argument.token ∈ Token.ofLine e.text →
        e.column = argument.token.column → Dangles lines e

end Layout

/-! ## The second reading -/

namespace Draft.Placed

variable {draft : Draft} {lines : List Line} {texts : List String} {e : AssemblyError}

/-- **What the second reading rejects is a name that leads nowhere.** -/
theorem dangles_of_link (h : draft.Placed lines)
    (hread : List.Forall₂ (fun text line => Statement.parse text = .ok line.statement) texts lines)
    (hlink : draft.link texts = .error e) : Dangles lines e := by
  rcases Attempt.bind_eq_error_iff.1 hlink with hcheck | ⟨_, hchecked, hthen⟩
  · obtain ⟨before, entry, after, hsplit, -, herror⟩ := Attempt.forM_eq_error_iff.1 hcheck
    have hmem : entry ∈ draft.labels.entries.toList := by
      rw [hsplit]
      exact List.mem_append_right _ List.mem_cons_self
    obtain ⟨made, hmade, hmeans, hline⟩ := InStep.exists_right h.bound hmem
    have hnowhere : ¬ made.Leads (tableOf lines) := by
      intro hleads
      rw [(h.checkEntry_eq_ok_iff texts hmeans).2 hleads] at herror
      cases herror
    obtain ⟨cause, hfails, herror'⟩ := h.checkEntry_eq_error texts hmeans hline hnowhere
    obtain rfl := Except.error.inj (herror.symm.trans herror')
    obtain ⟨line, hindex, hbinding⟩ := exists_line_of_mem_madeFrom hmade
    simp only [Made.Leads, not_forall] at hnowhere
    obtain ⟨target, htarget, -⟩ := hnowhere
    rw [htarget] at hbinding
    exact .binding hindex hbinding hfails rfl
  · have hlead := (h.forM_checkEntry_eq_ok_iff texts).1 hchecked
    rcases Attempt.bind_eq_error_iff.1 hthen with hbytes | ⟨_, -, hdone⟩
    · obtain ⟨emitted, hemitted, route, half, hsite, hunbound, rfl⟩ :=
        h.exists_unbound_of_mapM_resolveCell texts hlead hbytes
      obtain ⟨line, argument, name, hindex, hargument, hoperand, rfl, hcolumn⟩ :=
        exists_argument_of_mem_emittedFrom hemitted hsite
      obtain ⟨text, htext, hparse⟩ := InStep.exists_getElem?_left hread hindex
      have hblames := Statement.blames_parse text
      rw [hparse] at hblames
      refine .operand hlead hindex hargument hoperand hunbound rfl ?_ hcolumn
      simpa [htext] using hblames.of_ok argument hargument
    · cases hdone

end Draft.Placed

/-! ## All errors -/

/-- where an error is, by what it is about -/
def AssemblyError.StandsBy (source : String) (mount : Word) (e : AssemblyError) : AssemblyError.Concern → Prop
  | .form => Statement.Complaint.Points (Token.ofLine e.text) ⟨e.column, e.cause⟩
  | .names | .room => e.column = 0
  | .links => ∃ statements,
      List.Forall₂ (fun text statement => Statement.parse text = .ok statement) (Text.lines source) statements ∧
      Dangles (lay Space.initial mount.toNat statements) e
  | .file => False

/-- the form of a line, what it does, and the names that lead nowhere are each found wrong in one place -/
theorem standsBy_concern {source : String} {mount : Word} {e : AssemblyError} (h : assemble source mount = .error e) :
    e.StandsBy source mount e.cause.concern := by
  rcases Attempt.bind_eq_error_iff.1 h with hfirst | ⟨draft, hdraft, hlink⟩
  · obtain ⟨before, text, after, middle, -, hbefore, hline⟩ := Draft.ofLines_eq_error_iff.1 hfirst
    rcases Draft.addLine_eq_error_iff.1 hline with ⟨complaint, hcomplaint, rfl⟩ | ⟨statement, cause, -, hadd, rfl⟩
    · simp only [Statement.concern_of_parse hcomplaint]
      exact Statement.points_of_ofTokens hcomplaint
    · have hfits := (Draft.start_follows mount).fits_addLines (Draft.fits_start mount) hbefore
      rcases Draft.add_eq_error hfits hadd with ⟨-, rfl⟩ | hnames
      · rfl
      · simp only [hnames]
        rfl
  · obtain ⟨statements, hparses, hplaced⟩ := Draft.placed_of_ofLines hdraft
    have hread := (forall₂_lay hparses Space.initial mount.toNat).imp fun _ _ => And.left
    rw [Draft.concern_of_link hlink]
    exact ⟨statements, hparses, hplaced.dangles_of_link hread hlink⟩

/-- the position of an error of an assembly, by its reason -/
structure AssemblyError.Positioned (source : String) (mount : Word) (e : AssemblyError) : Prop where
  /-- the error is at a line of the text -/
  line : 1 ≤ e.line ∧ e.line ≤ (Text.lines source).length
  /-- it quotes that line -/
  text : (Text.lines source)[e.line - 1]? = some e.text
  /-- the column is 0, or that of the first character of a word -/
  column : e.column = 0 ∨ ∃ t ∈ Token.ofLine e.text, t.StandsIn e.text.toList ∧ e.column = t.column
  /-- a mnemonic is at fault where it stands, at the beginning of the line -/
  mnemonic : ∀ word, e.cause = .unknownMnemonic word →
    ∃ first rest, Token.ofLine e.text = first :: rest ∧ e.column = first.column
  /-- a wrong number of operands is a fault of the mnemonic -/
  arity : ∀ word expected found, e.cause = .arityMismatch word expected found →
    ∃ first rest, Token.ofLine e.text = first :: rest ∧ e.column = first.column
  /-- an operand that cannot be read or does not fit is at fault where it stands, and it is the first one -/
  operand : ∀ word expected, e.cause = .invalidOperand word expected →
    ∃ first rest t, Token.ofLine e.text = first :: rest ∧ Statement.Offends first rest t ∧ e.column = t.column
  /-- the form of a line as a whole is at fault only if the line ends where a word is needed -/
  form : ∀ message, e.cause = .malformed message → e.column = 0 → Statement.LacksWord (Token.ofLine e.text)
  /-- names that are bound, namespaces that are left and the end of the address space concern the line as a whole -/
  whole : e.cause.concern = .names ∨ e.cause.concern = .room → e.column = 0
  /-- an alias that leads nowhere is at fault as a whole line, an operand where it stands -/
  links : e.cause.concern = .links → ∃ statements,
    List.Forall₂ (fun text statement => Statement.parse text = .ok statement) (Text.lines source) statements ∧
    Dangles (lay Space.initial mount.toNat statements) e
  /-- names that come back to themselves are aliases -/
  cycle : ∀ name, e.cause = .aliasCycle name → e.column = 0
  /-- the text has been read from its file -/
  file : e.cause.concern ≠ .file

/-- **Every error is where its reason says:** at a line of the text that it quotes, and there at the first word, at the
word of an operand, or at the line as a whole. -/
theorem error_has_position_of_cause (source : String) (mount : Word) (e : AssemblyError)
    (h : assemble source mount = .error e) : e.Positioned source mount := by
  have hspot := spot_of_assemble h
  have hstands : ∀ concern, e.cause.concern = concern → e.StandsBy source mount concern := by
    intro concern hconcern
    rw [← hconcern]
    exact standsBy_concern h
  have hform : ∀ cause, e.cause = cause → cause.concern = .form →
      Statement.Complaint.Points (Token.ofLine e.text) ⟨e.column, cause⟩ := by
    intro cause hcause hconcern
    rw [← hcause] at hconcern ⊢
    exact hstands .form hconcern
  refine {
    line := ⟨hspot.positive, ?_⟩
    text := hspot.line
    column := ?_
    mnemonic := fun word hcause => (hform _ hcause rfl).of_unknownMnemonic
    arity := fun word expected found hcause => (hform _ hcause rfl).of_arityMismatch
    operand := fun word expected hcause => (hform _ hcause rfl).of_invalidOperand
    form := ?_
    whole := fun hconcern => hconcern.elim (hstands .names) (hstands .room)
    links := hstands .links
    cycle := ?_
    file := hstands .file }
  · obtain ⟨hindex, -⟩ := List.getElem?_eq_some_iff.1 hspot.line
    omega
  · rcases hspot.column with hzero | ⟨t, ht, hcolumn⟩
    · exact .inl hzero
    · exact .inr ⟨t, ht, Token.standsIn_of_mem_ofLine ht, hcolumn⟩
  · intro message hcause hzero
    rcases (hform _ hcause rfl).of_malformed with ⟨t, ht, hcolumn⟩ | ⟨-, hlacks⟩
    · -- the columns of words are counted from one
      obtain ⟨before, after, -, hstart⟩ := Token.standsIn_of_mem_ofLine ht
      omega
    · exact hlacks
  · intro name hcause
    have hconcern : e.cause.concern = .links := by
      rw [hcause]
      rfl
    obtain ⟨statements, -, hdangles⟩ := hstands .links hconcern
    cases hdangles with
    | binding _ _ _ hzero => exact hzero
    | operand _ _ _ _ _ hundefined _ _ =>
      rw [hcause] at hundefined
      cases hundefined

/-- a line that begins with a wide blank, with an operand that is none -/
def misspelledOperand : String := "dat 1\n\u2003dat 1 ä"

def misspelledError : AssemblyError :=
  ⟨2, 8, "\u2003dat 1 ä", .invalidOperand "ä" "a number, a register or a label reference"⟩

theorem misspelledOperand_is_placed :
    assemble misspelledOperand 0x10 = .error misspelledError ∧ misspelledError.Positioned misspelledOperand 0x10 := by
  have hrejected : assemble misspelledOperand 0x10 = .error misspelledError := by decide +kernel
  exact ⟨hrejected, error_has_position_of_cause _ _ _ hrejected⟩

end ByteMachine
