/-
The grammar of a source line, as productions over its words, and the reading of each.

  .name [public [as alias]]
  namespace pop | namespace reset [path] | namespace name
  private namespace [name]
  def name [public [as alias]]          (also: sub name, or sub name public [as alias])
  export name [as alias]
  use name [as alias]
  dat operand ...
  mnemonic operand ...

`sub` also begins an instruction. The two productions have no line in common: the operand places of that instruction
take registers or numbers, `%name` is neither, and `public` is no operand.

`Statement.parseLine_eq_ok_iff_produces`: a line is read as a statement iff one of the productions makes it, and no line
has two readings.
-/
import Mathlib.Tactic
import ByteMachine.Proofs.Layout.Operands
import ByteMachine.Proofs.Reading.Forms
import ByteMachine.Proofs.Reading.Operands

namespace ByteMachine

/-- what may stand in an operand place: a register in a register place, a byte of an address in an immediate place, and
a number in either -/
inductive Operand.Suits : Operand → OperandKind → Prop
  | literal (value : Byte) (kind : OperandKind) : Suits (literal value) kind
  | register (r : Register) : Suits (register r) .register
  | address (name : Name) (half : Half) : Suits (address name half) .immediate

theorem Operand.fits_eq_true_iff {operand : Operand} {kind : OperandKind} :
    operand.fits kind = true ↔ operand.Suits kind := by
  constructor
  · intro h
    cases operand with
    | literal value => exact .literal value kind
    | register r =>
      cases kind with
      | register => exact .register r
      | immediate => cases h
    | address name half =>
      cases kind with
      | register => cases h
      | immediate => exact .address name half
  · rintro (_ | _ | _)
    all_goals rfl

theorem Operand.Spells.ne_public {word : String} {operands : List Operand} (h : Spells word operands) :
    word ≠ "public" := by
  rintro rfl
  have hbad : (parse "public").toBool = false := by decide
  rw [parse_eq_ok_iff.2 h] at hbad
  cases hbad

namespace Statement

open Attempt

/-! ## Productions -/

inductive Production where
  | blank
  | label
  | leave
  | reset
  | enter
  | enterPrivate
  | definition
  | subroutine
  | exportName
  | useName
  | data
  | instruction
  deriving DecidableEq, Repr

/-- `[as alias]` -/
inductive AliasWords : List String → Option Name → Prop
  | absent : AliasWords [] none
  | present {text : String} {name : Name} : name.Spells text → name.isPlain = true → AliasWords ["as", text] (some name)

/-- `[public [as alias]]` -/
inductive VisibilityWords : List String → Visibility → Prop
  | concealed : VisibilityWords [] .concealed
  | exposed {words : List String} {newName : Option Name} :
      AliasWords words newName → VisibilityWords ("public" :: words) (.exposed newName)

/-- the words of a line that emits nothing, and what the line says -/
inductive Declares : Production → List String → Statement → Prop
  | blank : Declares .blank [] .blank
  | label {name : String} {words : List String} {visibility : Visibility} :
      isIdentifier name = true → VisibilityWords words visibility →
        Declares .label (("." ++ name) :: words) (.label name visibility)
  | leave : Declares .leave ["namespace", "pop"] (.scope .leave)
  | resetRoot : Declares .reset ["namespace", "reset"] (.scope (.reset Name.root))
  | reset {text : String} {path : Name} :
      path.SpellsPath text → '$' ∉ text.toList → Declares .reset ["namespace", "reset", text] (.scope (.reset path))
  | enter {text : String} {name : Name} :
      name.Spells text → name.isPlain = true → text ≠ "pop" → text ≠ "reset" →
        Declares .enter ["namespace", text] (.scope (.enter name))
  | enterUnnamed : Declares .enterPrivate ["private", "namespace"] (.scope (.enterPrivate none))
  | enterPrivate {name : String} :
      isIdentifier name = true → Declares .enterPrivate ["private", "namespace", name] (.scope (.enterPrivate (some name)))
  | definition {name : String} {words : List String} {visibility : Visibility} :
      isIdentifier name = true → VisibilityWords words visibility →
        Declares .definition ("def" :: name :: words) (.subroutine name visibility)
  | subroutine {name : String} {words : List String} {visibility : Visibility} :
      isIdentifier name = true → VisibilityWords words visibility →
        Declares .subroutine ("sub" :: name :: words) (.subroutine name visibility)
  | exportName {text : String} {name : Name} {words : List String} {newName : Option Name} :
      name.Spells text → name.isPlain = true → AliasWords words newName →
        Declares .exportName ("export" :: text :: words) (.exportName name newName)
  | useName {text : String} {name : Name} {words : List String} {newName : Option Name} :
      name.Spells text → AliasWords words newName → Declares .useName ("use" :: text :: words) (.useName name newName)

/-- the operands that the words stand for, each with the word it comes from -/
inductive ReadsOperands : List Token → List Argument → Prop
  | nil : ReadsOperands [] []
  | cons {t : Token} {words : List Token} {operands : List Operand} {arguments : List Argument} :
      Operand.Spells t.text operands → ReadsOperands words arguments →
        ReadsOperands (t :: words) (operands.map (⟨·, t⟩) ++ arguments)

/-- the production makes the line, and the line then says this -/
inductive Produces : Production → List Token → Statement → Prop
  | declaration {p : Production} {tokens : List Token} {statement : Statement} :
      Declares p (tokens.map (·.text)) statement → Produces p tokens statement
  | data {first : Token} {words : List Token} {arguments : List Argument} :
      first.text = "dat" → ReadsOperands words arguments →
        (∀ argument ∈ arguments, argument.operand.Suits .immediate) → Produces .data (first :: words) (.data arguments)
  | instruction {first : Token} {words : List Token} {arguments : List Argument} {op : Opcode} :
      first.text = op.mnemonic → ReadsOperands words arguments →
        List.Forall₂ (fun argument kind => argument.operand.Suits kind) arguments op.operands →
          Produces .instruction (first :: words) (.instruction op arguments)

/-! ## Clauses -/

theorem identifier_eq_ok_iff {what name : String} {words rest : List Token} :
    identifier what words = .ok (name, rest) ↔
      ∃ t, words = t :: rest ∧ t.text = name ∧ isIdentifier name = true := by
  cases words with
  | nil => simp [identifier]
  | cons t words =>
    rw [identifier]
    split_ifs with hname
    · constructor
      · rintro ⟨⟩
        exact ⟨t, rfl, rfl, hname⟩
      · rintro ⟨_, ⟨⟩, rfl, -⟩
        rfl
    · refine iff_of_false (by simp) ?_
      rintro ⟨_, ⟨⟩, rfl, hname'⟩
      exact hname hname'

theorem dottedName_eq_ok_iff {what : String} {plain : Bool} {words rest : List Token} {name : Name} :
    dottedName what plain words = .ok (name, rest) ↔
      ∃ t, words = t :: rest ∧ name.Spells t.text ∧ (plain = true → name.isPlain = true) := by
  cases words with
  | nil => simp [dottedName]
  | cons t words =>
    have hspells : ∀ {name : Name}, Name.parse? false t.text = some name ↔ name.Spells t.text :=
      Name.parse?_false_eq_some_iff
    rw [dottedName]
    split
    · rename_i found hfound
      have hplain : (!plain || found.isPlain) = true ↔ (plain = true → found.isPlain = true) := by
        cases plain <;> simp
      split_ifs with hcheck
      · constructor
        · rintro ⟨⟩
          exact ⟨t, rfl, hspells.1 hfound, hplain.1 hcheck⟩
        · rintro ⟨_, ⟨⟩, hname, -⟩
          rw [Option.some.inj (hfound.symm.trans (hspells.2 hname))]
      · refine iff_of_false (by simp) ?_
        rintro ⟨_, ⟨⟩, hname, hname'⟩
        obtain rfl := Option.some.inj (hfound.symm.trans (hspells.2 hname))
        exact hcheck (hplain.2 hname')
    · rename_i hnone
      refine iff_of_false (by simp) ?_
      rintro ⟨_, ⟨⟩, hname, -⟩
      rw [hspells.2 hname] at hnone
      cases hnone

theorem aliasClause_eq_ok_iff {words : List Token} {newName : Option Name} :
    aliasClause words = .ok (newName, []) ↔ AliasWords (words.map (·.text)) newName := by
  constructor
  · intro h
    cases words with
    | nil =>
      cases h
      exact .absent
    | cons t words =>
      rw [aliasClause] at h
      split_ifs at h with has
      · obtain ⟨⟨name, rest⟩, hname, h⟩ := bind_eq_ok_iff.1 h
        cases h
        obtain ⟨t', rfl, hspells, hplain⟩ := dottedName_eq_ok_iff.1 hname
        rw [List.map_cons, has]
        exact .present hspells (hplain rfl)
      · cases h
  · intro h
    generalize htexts : words.map (·.text) = texts at h
    cases h with
    | absent =>
      rw [List.map_eq_nil_iff.1 htexts]
      rfl
    | @present text name hspells hplain =>
      obtain ⟨t, _, rfl, has, htexts⟩ := List.map_eq_cons_iff.1 htexts
      obtain ⟨t', rfl, rfl⟩ := List.map_eq_singleton_iff.1 htexts
      have hname : dottedName "alias" true [t'] = .ok (name, []) :=
        dottedName_eq_ok_iff.2 ⟨t', rfl, hspells, fun _ => hplain⟩
      rw [aliasClause, if_pos has, hname]
      rfl

theorem visibilityClause_eq_ok_iff {words : List Token} {visibility : Visibility} :
    visibilityClause words = .ok (visibility, []) ↔ VisibilityWords (words.map (·.text)) visibility := by
  constructor
  · intro h
    cases words with
    | nil =>
      cases h
      exact .concealed
    | cons t words =>
      rw [visibilityClause] at h
      split_ifs at h with hpublic
      · obtain ⟨⟨newName, rest⟩, halias, h⟩ := bind_eq_ok_iff.1 h
        cases h
        rw [List.map_cons, hpublic]
        exact .exposed (aliasClause_eq_ok_iff.1 halias)
      · cases h
  · intro h
    generalize htexts : words.map (·.text) = texts at h
    cases h with
    | concealed =>
      rw [List.map_eq_nil_iff.1 htexts]
      rfl
    | exposed halias =>
      obtain ⟨t, words, rfl, hpublic, rfl⟩ := List.map_eq_cons_iff.1 htexts
      rw [visibilityClause, if_pos hpublic, aliasClause_eq_ok_iff.2 halias]
      rfl

/-! ## Emitting lines -/

theorem readArguments_eq_ok_iff {words : List Token} {arguments : List Argument} :
    readArguments words = .ok arguments ↔ ReadsOperands words arguments := by
  constructor
  · intro h
    induction words generalizing arguments with
    | nil =>
      cases h
      exact .nil
    | cons t words ih =>
      obtain ⟨operands, hparse, h⟩ := bind_eq_ok_iff.1 h
      obtain ⟨rest, hrest, h⟩ := bind_eq_ok_iff.1 h
      cases h
      exact .cons (Operand.parse_eq_ok_iff.1 (mapError_eq_ok_iff.1 hparse)) (ih hrest)
  · intro h
    induction h with
    | nil => rfl
    | cons hspells _ ih =>
      rw [readArguments, mapError_eq_ok_iff.2 (Operand.parse_eq_ok_iff.2 hspells), ih]
      rfl

theorem checkArguments_eq_ok_iff {arguments : List Argument} {kinds : List OperandKind}
    (h : arguments.length = kinds.length) :
    checkArguments arguments kinds = .ok () ↔
      List.Forall₂ (fun argument kind => argument.operand.Suits kind) arguments kinds := by
  induction arguments generalizing kinds with
  | nil =>
    obtain rfl := List.length_eq_zero_iff.1 h.symm
    exact iff_of_true rfl .nil
  | cons argument arguments ih =>
    cases kinds with
    | nil => simp at h
    | cons kind kinds =>
      have hrest := ih (Nat.succ.inj h)
      rw [List.forall₂_cons, ← Operand.fits_eq_true_iff, ← hrest]
      by_cases hfits : argument.operand.fits kind = true
      · simp [checkArguments, checkArgument, hfits]
      · simp [checkArguments, checkArgument, hfits]

theorem checkArguments_immediate_eq_ok_iff {arguments : List Argument} :
    checkArguments arguments (arguments.map fun _ => .immediate) = .ok () ↔
      ∀ argument ∈ arguments, argument.operand.Suits .immediate := by
  rw [checkArguments_eq_ok_iff (List.length_map _).symm, List.forall₂_map_right_iff, List.forall₂_same]

theorem emission_data_eq_ok_iff {first : Token} (hfirst : first.text = "dat") {words : List Token} {statement : Statement} :
    emission first words = .ok statement ↔
      ∃ arguments, ReadsOperands words arguments ∧ (∀ argument ∈ arguments, argument.operand.Suits .immediate) ∧
        Statement.data arguments = statement := by
  rw [emission, Mnemonic.ofText?_eq_data_iff.2 hfirst, bind_eq_ok_iff]
  refine exists_congr fun arguments => ?_
  rw [readArguments_eq_ok_iff, ← checkArguments_immediate_eq_ok_iff, bind_eq_ok_iff]
  refine and_congr_right fun _ => ⟨?_, ?_⟩
  · rintro ⟨_, hcheck, h⟩
    exact ⟨hcheck, Except.ok.inj h⟩
  · rintro ⟨hcheck, rfl⟩
    exact ⟨(), hcheck, rfl⟩

theorem emission_operation_eq_ok_iff {first : Token} {op : Opcode} (hfirst : first.text = op.mnemonic) {words : List Token}
    {statement : Statement} :
    emission first words = .ok statement ↔
      ∃ arguments, ReadsOperands words arguments ∧
        List.Forall₂ (fun argument kind => argument.operand.Suits kind) arguments op.operands ∧
        Statement.instruction op arguments = statement := by
  rw [emission, Mnemonic.ofText?_eq_operation_iff.2 hfirst, bind_eq_ok_iff]
  refine exists_congr fun arguments => ?_
  rw [readArguments_eq_ok_iff]
  refine and_congr_right fun _ => ?_
  split_ifs with hlength
  · rw [← checkArguments_eq_ok_iff hlength, bind_eq_ok_iff]
    constructor
    · rintro ⟨_, hcheck, h⟩
      exact ⟨hcheck, Except.ok.inj h⟩
    · rintro ⟨hcheck, rfl⟩
      exact ⟨(), hcheck, rfl⟩
  · refine iff_of_false (by simp) ?_
    rintro ⟨hkinds, -⟩
    exact hlength hkinds.length_eq

/-! ## Lines -/

theorem subroutineClause_eq_ok_iff {words : List Token} {statement : Statement} :
    (subroutineClause words >>= finish) = .ok statement ↔
      ∃ t rest visibility, words = t :: rest ∧ isIdentifier t.text = true ∧
        VisibilityWords (rest.map (·.text)) visibility ∧ Statement.subroutine t.text visibility = statement := by
  constructor
  · intro h
    obtain ⟨⟨found, left⟩, hclause, h⟩ := bind_eq_ok_iff.1 h
    obtain ⟨rfl, rfl⟩ := finish_eq_ok_iff.1 h
    obtain ⟨⟨name, rest⟩, hname, hclause⟩ := bind_eq_ok_iff.1 hclause
    obtain ⟨t, rfl, rfl, hname⟩ := identifier_eq_ok_iff.1 hname
    obtain ⟨⟨visibility, left⟩, hvisibility, hclause⟩ := bind_eq_ok_iff.1 hclause
    cases hclause
    exact ⟨t, rest, visibility, rfl, hname, visibilityClause_eq_ok_iff.1 hvisibility, rfl⟩
  · rintro ⟨t, rest, visibility, rfl, hname, hvisibility, rfl⟩
    have hidentifier : identifier "subroutine name" (t :: rest) = .ok (t.text, rest) :=
      identifier_eq_ok_iff.2 ⟨t, rfl, rfl, hname⟩
    simp only [subroutineClause, hidentifier, ok_bind, visibilityClause_eq_ok_iff.2 hvisibility]
    rfl

/-- `sub` declares where its words are a name and a visibility -/
theorem declaresSubroutine_of_visibilityWords {t : Token} {words : List Token} {visibility : Visibility}
    (h : VisibilityWords (words.map (·.text)) visibility) : declaresSubroutine (t :: words) = true := by
  cases words with
  | nil => rfl
  | cons t' words =>
    generalize htexts : (t' :: words).map (·.text) = texts at h
    cases h with
    | concealed => cases htexts
    | exposed => exact decide_eq_true (List.cons.inj htexts).1

theorem ofTokens_of_declares {p : Production} {tokens : List Token} {statement : Statement}
    (h : Declares p (tokens.map (·.text)) statement) : ofTokens tokens = .ok statement := by
  cases tokens with
  | nil =>
    rw [List.map_nil] at h
    cases h
    rfl
  | cons first words =>
    rw [List.map_cons] at h
    generalize hfirst : first.text = text at h
    generalize htexts : words.map (·.text) = texts at h
    cases h with
    | @label name _ visibility hname hvisibility =>
      subst htexts
      have hlabel : first.text.toList = '.' :: name.toList := by rw [hfirst]; simp
      rw [ofTokens_label hlabel, String.ofList_toList, if_pos hname, visibilityClause_eq_ok_iff.2 hvisibility]
      rfl
    | leave | resetRoot =>
      obtain ⟨t, rfl, ht⟩ := List.map_eq_singleton_iff.1 htexts
      simp [ofTokens, scopeClause, finish, hfirst, ht]
    | reset hpath hclimb =>
      obtain ⟨t, _, rfl, ht, htexts⟩ := List.map_eq_cons_iff.1 htexts
      obtain ⟨t', rfl, rfl⟩ := List.map_eq_singleton_iff.1 htexts
      have hread := Name.parse?_true_eq_some_iff.2 hpath
      simp [ofTokens, scopeClause, finish, hfirst, ht, hread, hpath.notMem_climb_iff.1 hclimb]
    | @enter _ name hname hplain hpop hreset =>
      obtain ⟨t, rfl, rfl⟩ := List.map_eq_singleton_iff.1 htexts
      have hread : dottedName "namespace name" true [t] = .ok (name, []) :=
        dottedName_eq_ok_iff.2 ⟨t, rfl, hname, fun _ => hplain⟩
      simp [ofTokens, scopeClause, finish, hfirst, hpop, hreset, hread]
    | enterUnnamed =>
      obtain ⟨t, rfl, ht⟩ := List.map_eq_singleton_iff.1 htexts
      simp [ofTokens, privateClause, finish, hfirst, ht]
    | enterPrivate hname =>
      obtain ⟨t, _, rfl, ht, htexts⟩ := List.map_eq_cons_iff.1 htexts
      obtain ⟨t', rfl, rfl⟩ := List.map_eq_singleton_iff.1 htexts
      simp [ofTokens, privateClause, identifier, finish, hfirst, ht, hname]
    | definition hname hvisibility =>
      obtain ⟨t, rest, rfl, rfl, rfl⟩ := List.map_eq_cons_iff.1 htexts
      have hread := subroutineClause_eq_ok_iff.2 ⟨t, rest, _, rfl, hname, hvisibility, rfl⟩
      simp [ofTokens, hfirst, hread]
    | subroutine hname hvisibility =>
      obtain ⟨t, rest, rfl, rfl, rfl⟩ := List.map_eq_cons_iff.1 htexts
      have hread := subroutineClause_eq_ok_iff.2 ⟨t, rest, _, rfl, hname, hvisibility, rfl⟩
      simp [ofTokens, hfirst, declaresSubroutine_of_visibilityWords hvisibility, hread]
    | @exportName _ name _ _ hname hplain halias =>
      obtain ⟨t, rest, rfl, rfl, rfl⟩ := List.map_eq_cons_iff.1 htexts
      have hread : dottedName "export name" true (t :: rest) = .ok (name, rest) :=
        dottedName_eq_ok_iff.2 ⟨t, rfl, hname, fun _ => hplain⟩
      simp [ofTokens, finish, hfirst, hread, aliasClause_eq_ok_iff.2 halias]
    | @useName _ name _ _ hname halias =>
      obtain ⟨t, rest, rfl, rfl, rfl⟩ := List.map_eq_cons_iff.1 htexts
      have hread : dottedName "name" false (t :: rest) = .ok (name, rest) :=
        dottedName_eq_ok_iff.2 ⟨t, rfl, hname, by simp⟩
      simp [ofTokens, finish, hfirst, hread, aliasClause_eq_ok_iff.2 halias]

/-- a line that starts with a mnemonic is an emitting line, unless it is a declaration by `sub` -/
theorem ofTokens_mnemonic (op : Opcode) (column : Nat) (rest : List Token)
    (hsub : op = .sub → declaresSubroutine rest = false) :
    ofTokens (⟨op.mnemonic, column⟩ :: rest) = emission ⟨op.mnemonic, column⟩ rest := by
  cases op
  case sub =>
    have hrest := hsub rfl
    simp [ofTokens, Opcode.mnemonic, Opcode.entry, hrest]
  all_goals simp [ofTokens, Opcode.mnemonic, Opcode.entry]

theorem ofTokens_data (column : Nat) (rest : List Token) :
    ofTokens (⟨Mnemonic.dataText, column⟩ :: rest) = emission ⟨Mnemonic.dataText, column⟩ rest := by
  simp [ofTokens, Mnemonic.dataText]

theorem declares_of_scopeClause {words : List Token} {change : ScopeChange} (h : scopeClause words = .ok (change, [])) :
    ∃ p, Declares p ("namespace" :: words.map (·.text)) (.scope change) := by
  cases words with
  | nil => cases h
  | cons t words =>
    simp only [scopeClause] at h
    split_ifs at h with hpop hreset
    · cases h
      rw [List.map_cons, hpop]
      exact ⟨.leave, .leave⟩
    · rw [List.map_cons, hreset]
      cases words with
      | nil =>
        cases h
        exact ⟨.reset, .resetRoot⟩
      | cons path words =>
        simp only at h
        split at h
        · rename_i name hname
          split_ifs at h with horigin
          · cases h
            have hpath := Name.parse?_true_eq_some_iff.1 hname
            exact ⟨.reset, .reset hpath (hpath.notMem_climb_iff.2 horigin)⟩
        · cases h
    · obtain ⟨⟨name, rest⟩, hname, h⟩ := bind_eq_ok_iff.1 h
      cases h
      obtain ⟨_, ⟨⟩, hspells, hplain⟩ := dottedName_eq_ok_iff.1 hname
      exact ⟨.enter, .enter hspells (hplain rfl) hpop hreset⟩

theorem declares_of_privateClause {words : List Token} {change : ScopeChange}
    (h : privateClause words = .ok (change, [])) :
    Declares .enterPrivate ("private" :: words.map (·.text)) (.scope change) := by
  cases words with
  | nil => cases h
  | cons t words =>
    simp only [privateClause] at h
    split_ifs at h with hnamespace
    · rw [List.map_cons, hnamespace]
      cases words with
      | nil =>
        cases h
        exact .enterUnnamed
      | cons t' words =>
        obtain ⟨⟨name, rest⟩, hname, h⟩ := bind_eq_ok_iff.1 h
        cases h
        obtain ⟨_, ⟨⟩, rfl, hname⟩ := identifier_eq_ok_iff.1 hname
        exact .enterPrivate hname

theorem produces_of_emission {first : Token} {words : List Token} {statement : Statement}
    (h : emission first words = .ok statement) : ∃ p, Produces p (first :: words) statement := by
  obtain ⟨_, -, ⟨hfirst, -⟩ | ⟨op, hfirst, -⟩⟩ := emission_eq_ok h
  · obtain ⟨arguments, hread, hsuit, rfl⟩ := (emission_data_eq_ok_iff hfirst).1 h
    exact ⟨.data, .data hfirst hread hsuit⟩
  · obtain ⟨arguments, hread, hsuit, rfl⟩ := (emission_operation_eq_ok_iff hfirst).1 h
    exact ⟨.instruction, .instruction hfirst hread hsuit⟩

/-- what is read is made by a production, whose words are found on the way that the first word opens -/
theorem produces_of_ofTokens {tokens : List Token} {statement : Statement} (h : ofTokens tokens = .ok statement) :
    ∃ p, Produces p tokens statement := by
  cases tokens with
  | nil =>
    cases h
    exact ⟨.blank, .declaration .blank⟩
  | cons first words =>
    by_cases hpoint : ∃ name, first.text.toList = '.' :: name
    · obtain ⟨name, hpoint⟩ := hpoint
      have hfirst : first.text = "." ++ String.ofList name := by
        rw [← String.toList_inj, hpoint]
        simp
      rw [ofTokens_label hpoint] at h
      split_ifs at h with hname
      obtain ⟨⟨visibility, rest⟩, hvisibility, h⟩ := bind_eq_ok_iff.1 h
      obtain ⟨rfl, rfl⟩ := finish_eq_ok_iff.1 h
      refine ⟨.label, .declaration ?_⟩
      rw [List.map_cons, hfirst]
      exact .label hname (visibilityClause_eq_ok_iff.1 hvisibility)
    · rw [ofTokens_other (not_exists.1 hpoint)] at h
      split_ifs at h with hnamespace hprivate hsubroutine hexport huse
      · obtain ⟨⟨change, rest⟩, hclause, h⟩ := bind_eq_ok_iff.1 h
        obtain ⟨rfl, rfl⟩ := finish_eq_ok_iff.1 h
        obtain ⟨p, hdeclares⟩ := declares_of_scopeClause hclause
        refine ⟨p, .declaration ?_⟩
        rwa [List.map_cons, hnamespace]
      · obtain ⟨⟨change, rest⟩, hclause, h⟩ := bind_eq_ok_iff.1 h
        obtain ⟨rfl, rfl⟩ := finish_eq_ok_iff.1 h
        refine ⟨.enterPrivate, .declaration ?_⟩
        rw [List.map_cons, hprivate]
        exact declares_of_privateClause hclause
      · obtain ⟨t, rest, visibility, rfl, hname, hvisibility, rfl⟩ := subroutineClause_eq_ok_iff.1 h
        rcases hsubroutine with hdef | ⟨hsub, -⟩
        · refine ⟨.definition, .declaration ?_⟩
          rw [List.map_cons, hdef]
          exact .definition hname hvisibility
        · refine ⟨.subroutine, .declaration ?_⟩
          rw [List.map_cons, hsub]
          exact .subroutine hname hvisibility
      · obtain ⟨⟨name, rest⟩, hname, h⟩ := bind_eq_ok_iff.1 h
        obtain ⟨⟨newName, left⟩, halias, h⟩ := bind_eq_ok_iff.1 h
        obtain ⟨rfl, rfl⟩ := finish_eq_ok_iff.1 h
        obtain ⟨t, rfl, hspells, hplain⟩ := dottedName_eq_ok_iff.1 hname
        refine ⟨.exportName, .declaration ?_⟩
        rw [List.map_cons, hexport]
        exact .exportName hspells (hplain rfl) (aliasClause_eq_ok_iff.1 halias)
      · obtain ⟨⟨name, rest⟩, hname, h⟩ := bind_eq_ok_iff.1 h
        obtain ⟨⟨newName, left⟩, halias, h⟩ := bind_eq_ok_iff.1 h
        obtain ⟨rfl, rfl⟩ := finish_eq_ok_iff.1 h
        obtain ⟨t, rfl, hspells, -⟩ := dottedName_eq_ok_iff.1 hname
        refine ⟨.useName, .declaration ?_⟩
        rw [List.map_cons, huse]
        exact .useName hspells (aliasClause_eq_ok_iff.1 halias)
      · exact produces_of_emission h

/-- the operands of a subtraction are registers, so its third word is no `public` and it has no less than three words -/
theorem declaresSubroutine_of_readsOperands {words : List Token} {arguments : List Argument}
    (hread : ReadsOperands words arguments)
    (hsuit : List.Forall₂ (fun argument kind => argument.operand.Suits kind) arguments Opcode.sub.operands) :
    declaresSubroutine words = false := by
  cases hread with
  | nil => rfl
  | @cons t words operands arguments hspells hread =>
    cases hread with
    | nil =>
      -- one word with two operands is `%name`
      exfalso
      rw [List.append_nil, List.forall₂_map_left_iff] at hsuit
      generalize t.text = word at hspells
      cases hspells with
      | both =>
        obtain ⟨hlow, -⟩ := List.forall₂_cons.1 hsuit
        cases hlow
      | _ => exact absurd (Nat.succ.inj hsuit.length_eq) Nat.zero_ne_one
    | @cons t' words _ _ hspells' =>
      exact decide_eq_false hspells'.ne_public

theorem ofTokens_of_produces {p : Production} {tokens : List Token} {statement : Statement}
    (h : Produces p tokens statement) : ofTokens tokens = .ok statement := by
  cases h with
  | declaration h => exact ofTokens_of_declares h
  | @data first words arguments hfirst hread hsuit =>
    obtain ⟨text, column⟩ := first
    obtain rfl : text = Mnemonic.dataText := hfirst
    rw [ofTokens_data]
    exact (emission_data_eq_ok_iff rfl).2 ⟨arguments, hread, hsuit, rfl⟩
  | @instruction first words arguments op hfirst hread hsuit =>
    obtain ⟨text, column⟩ := first
    obtain rfl : text = op.mnemonic := hfirst
    have hsub : op = .sub → declaresSubroutine words = false := by
      rintro rfl
      exact declaresSubroutine_of_readsOperands hread hsuit
    rw [ofTokens_mnemonic op column words hsub]
    exact (emission_operation_eq_ok_iff rfl).2 ⟨arguments, hread, hsuit, rfl⟩

/-- the production that a statement is made by, which the first word tells where the statement does not -/
def productionOf (tokens : List Token) : Statement → Production
  | .blank => .blank
  | .label _ _ => .label
  | .subroutine _ _ => if tokens.head?.map (·.text) = some "def" then .definition else .subroutine
  | .scope (.enter _) => .enter
  | .scope (.enterPrivate _) => .enterPrivate
  | .scope .leave => .leave
  | .scope (.reset _) => .reset
  | .exportName _ _ => .exportName
  | .useName _ _ => .useName
  | .data _ => .data
  | .instruction _ _ => .instruction

theorem Produces.eq_productionOf {p : Production} {tokens : List Token} {statement : Statement}
    (h : Produces p tokens statement) : p = productionOf tokens statement := by
  cases h with
  | declaration h =>
    have hhead : tokens.head?.map (·.text) = (tokens.map (·.text)).head? := List.head?_map.symm
    generalize tokens.map (·.text) = texts at h hhead
    cases h
    case definition => rw [productionOf, hhead]; rfl
    case subroutine => rw [productionOf, hhead]; rfl
    all_goals rfl
  | data => rfl
  | instruction => rfl

/-- **A line is read as a statement iff a production makes it,** and no line has two readings. -/
theorem parseLine_eq_ok_iff_produces (number : Nat) (line : String) :
    (∀ statement, parseLine number line = .ok statement ↔ ∃ p, Produces p (Token.ofLine line) statement) ∧
      ∀ p p' statement statement', Produces p (Token.ofLine line) statement →
        Produces p' (Token.ofLine line) statement' → p = p' ∧ statement = statement' := by
  refine ⟨fun statement => ?_, fun p p' statement statement' h h' => ?_⟩
  · rw [parseLine, mapError_eq_ok_iff]
    constructor
    · exact produces_of_ofTokens
    · rintro ⟨p, h⟩
      exact ofTokens_of_produces h
  · obtain rfl : statement = statement' :=
      Except.ok.inj ((ofTokens_of_produces h).symm.trans (ofTokens_of_produces h'))
    exact ⟨h.eq_productionOf.trans h'.eq_productionOf.symm, rfl⟩

/-- `public` after a name makes a declaration of `sub`, and no instruction -/
theorem subPublic_reading :
    Produces .subroutine (Token.ofLine "sub a public") (.subroutine "a" (.exposed none)) ∧
      parseLine 1 "sub a public" = .ok (.subroutine "a" (.exposed none)) ∧
        ¬ ∃ statement, Produces .instruction (Token.ofLine "sub a public") statement := by
  have hwords : (Token.ofLine "sub a public").map (·.text) = ["sub", "a", "public"] := by decide
  have hsub : Produces .subroutine (Token.ofLine "sub a public") (.subroutine "a" (.exposed none)) := by
    refine .declaration ?_
    rw [hwords]
    exact .subroutine (by decide) (.exposed .absent)
  obtain ⟨hread, hunique⟩ := parseLine_eq_ok_iff_produces 1 "sub a public"
  refine ⟨hsub, (hread _).2 ⟨_, hsub⟩, ?_⟩
  rintro ⟨statement, hinstruction⟩
  obtain ⟨hproduction, -⟩ := hunique _ _ _ _ hsub hinstruction
  cases hproduction

end Statement

end ByteMachine
