/-
The words of an emitting line and the bytes they stand for. A number is read as the whole number that its digits and its
sign spell (`integer?`), and only its byte is taken modulo 256; the reading that reduces after every digit comes to the
same (`Operand.residue?_eq`).

`Line.readsWords_of_ofTokens`: the bytes of an emitting line are those of its words, one word after the other.
-/
import Mathlib.Tactic
import ByteMachine.Proofs.Attempt
import ByteMachine.Proofs.Layout.Plan
import ByteMachine.Proofs.Reading.Forms

namespace ByteMachine

namespace Layout

def magnitude? (cs : List Char) : Option Nat :=
  let (radix, digits) := Operand.splitRadix cs
  if digits.isEmpty then none else Text.digitsValue? radix digits

def integer? (word : String) : Option Int :=
  match word.toList with
  | '-' :: cs => (magnitude? cs).map fun value : Nat => -(value : Int)
  | cs => (magnitude? cs).map Int.ofNat

/-- the bytes that an operand word stands for in a namespace -/
inductive Space.Reads (space : Space) : String → List Site → Prop
  | number {word : String} {number : Int} {value : Byte} :
      integer? word = some number → (value.toNat : Int) = number % 256 → Reads space word [.byte value]
  | register {word : String} {r : Register} : Register.ofName? word = some r → Reads space word [.byte r.index]
  | low {text : String} {name : Name} :
      Name.parse? false text = some name → Reads space (":" ++ text) [.half (space.qualify name 0) .low]
  | high {text : String} {name : Name} :
      Name.parse? false text = some name → Reads space (text ++ ":") [.half (space.qualify name 0) .high]
  | both {text : String} {name : Name} :
      Name.parse? false text = some name →
        Reads space ("%" ++ text) [.half (space.qualify name 0) .low, .half (space.qualify name 0) .high]

/-- the bytes of the line are those of its words: first that of the opcode, if there is one, and then those of each
operand word -/
inductive Line.ReadsWords (line : Line) : List String → Prop
  | data {arguments : List Argument} {words : List String} {groups : List (List Site)} :
      line.statement = .data arguments → List.Forall₂ line.space.Reads words groups → line.sites = groups.flatten →
        ReadsWords line (Mnemonic.dataText :: words)
  | instruction {op : Opcode} {arguments : List Argument} {words : List String} {groups : List (List Site)} :
      line.statement = .instruction op arguments → List.Forall₂ line.space.Reads words groups →
        line.sites = .byte op.code :: groups.flatten → ReadsWords line (op.mnemonic :: words)
  | silent {words : List String} :
      (∀ arguments, line.statement ≠ .data arguments) → (∀ op arguments, line.statement ≠ .instruction op arguments) →
        line.sites = [] → ReadsWords line words

end Layout

open Layout

/-! ## Numbers -/

namespace Operand

theorem foldlM_residue (radix : Nat) (digits : List Char) (value : Nat) :
    digits.foldlM (fun value c => (Text.digitValue? radix c).map fun digit => (value * radix + digit) % 256)
        (value % 256) =
      (digits.foldlM (fun value c => (Text.digitValue? radix c).map (value * radix + ·)) value).map (· % 256) := by
  induction digits generalizing value with
  | nil => rfl
  | cons c digits ih =>
    rw [List.foldlM_cons, List.foldlM_cons]
    cases hdigit : Text.digitValue? radix c with
    | none => rfl
    | some digit =>
      have hmod : (value % 256 * radix + digit) % 256 = (value * radix + digit) % 256 :=
        ((Nat.mod_modEq value 256).mul_right radix).add_right digit
      have hnext := ih (value * radix + digit)
      rw [← hmod] at hnext
      exact hnext

/-- reducing after every digit and reducing at the end give the same -/
theorem residue?_eq (radix : Nat) (digits : List Char) :
    residue? radix digits = (Text.digitsValue? radix digits).map (· % 256) :=
  foldlM_residue radix digits 0

theorem parseMagnitude?_eq_some {cs : List Char} {value : Byte} (h : parseMagnitude? cs = some value) :
    ∃ number, magnitude? cs = some number ∧ value.toNat = number % 256 := by
  simp only [parseMagnitude?] at h
  simp only [magnitude?]
  split at h
  · simp at h
  · rename_i hdigits
    rw [residue?_eq, Option.map_map, Option.map_eq_some_iff] at h
    obtain ⟨number, hnumber, rfl⟩ := h
    rw [if_neg hdigits]
    exact ⟨number, hnumber, by simp⟩

theorem parseNumber?_of_minus {word : String} {cs : List Char} (h : word.toList = '-' :: cs) :
    parseNumber? word = (parseMagnitude? cs).map (0 - ·) ∧
      integer? word = (magnitude? cs).map fun value : Nat => -(value : Int) := by
  simp only [parseNumber?, integer?, h, and_self]

theorem parseNumber?_of_no_minus {word : String} (h : ∀ cs, word.toList ≠ '-' :: cs) :
    parseNumber? word = parseMagnitude? word.toList ∧ integer? word = (magnitude? word.toList).map Int.ofNat := by
  constructor
  · unfold parseNumber?
    split
    · rename_i cs hcs
      exact absurd hcs (h cs)
    · rfl
  · unfold integer?
    split
    · rename_i cs hcs
      exact absurd hcs (h cs)
    · rfl

/-- **A literal is its number modulo 256.** -/
theorem parseNumber?_eq_some {word : String} {value : Byte} (h : parseNumber? word = some value) :
    ∃ number : Int, integer? word = some number ∧ (value.toNat : Int) = number % 256 := by
  by_cases hminus : ∃ cs, word.toList = '-' :: cs
  · obtain ⟨cs, hcs⟩ := hminus
    obtain ⟨hparse, hinteger⟩ := parseNumber?_of_minus hcs
    rw [hparse] at h
    obtain ⟨magnitude, hmagnitude, rfl⟩ := Option.map_eq_some_iff.1 h
    obtain ⟨number, hnumber, hmod⟩ := parseMagnitude?_eq_some hmagnitude
    have hlt := magnitude.toNat_lt
    refine ⟨-(number : Int), by rw [hinteger, hnumber, Option.map_some], ?_⟩
    rw [UInt8.toNat_sub]
    simp only [UInt8.toNat_ofNat]
    omega
  · obtain ⟨hparse, hinteger⟩ := parseNumber?_of_no_minus (not_exists.1 hminus)
    rw [hparse] at h
    obtain ⟨number, hnumber, hmod⟩ := parseMagnitude?_eq_some h
    refine ⟨number, by rw [hinteger, hnumber, Option.map_some, Int.ofNat_eq_natCast], ?_⟩
    rw [hmod, Int.natCast_mod, Nat.cast_ofNat]

/-! ## Operand words -/

theorem addressOf_eq_ok {text : String} {halves : List Half} {operands : List Operand}
    (h : addressOf text halves = .ok operands) :
    ∃ name, Name.parse? false text = some name ∧ operands = halves.map (address name) := by
  unfold addressOf at h
  split at h
  · rename_i name hname
    exact ⟨name, hname, (Except.ok.inj h).symm⟩
  · simp at h

theorem reads_of_parse (space : Space) {word : String} {operands : List Operand} (h : parse word = .ok operands) :
    space.Reads word (operands.map space.site) := by
  unfold parse at h
  split at h
  · rename_i name hword
    obtain ⟨name, hname, rfl⟩ := addressOf_eq_ok h
    have hreads := @Space.Reads.both space _ _ hname
    rwa [show "%" ++ String.ofList _ = word by rw [← String.toList_inj, String.toList_append, hword]; simp] at hreads
  · rename_i name hword
    obtain ⟨name, hname, rfl⟩ := addressOf_eq_ok h
    have hreads := @Space.Reads.low space _ _ hname
    rwa [show ":" ++ String.ofList _ = word by rw [← String.toList_inj, String.toList_append, hword]; simp] at hreads
  · split at h
    · rename_i hlast
      obtain ⟨name, hname, rfl⟩ := addressOf_eq_ok h
      have hreads := @Space.Reads.high space _ _ hname
      have hword : word.toList.dropLast ++ [':'] = word.toList := List.dropLast_append_getLast? _ hlast
      rwa [show String.ofList word.toList.dropLast ++ ":" = word by
        rw [← String.toList_inj, String.toList_append, String.toList_ofList]
        exact hword] at hreads
    · split at h
      · rename_i value hvalue
        obtain rfl := Except.ok.inj h
        obtain ⟨number, hnumber, hmod⟩ := parseNumber?_eq_some hvalue
        exact .number hnumber hmod
      · rename_i r _ hr
        obtain rfl := Except.ok.inj h
        exact .register hr
      · simp at h

end Operand

/-! ## Emitting lines -/

namespace Statement

theorem reads_of_readArguments (space : Space) {words : List Token} {arguments : List Argument}
    (h : readArguments words = .ok arguments) :
    ∃ groups, List.Forall₂ space.Reads (words.map (·.text)) groups ∧
      arguments.map (fun argument => space.site argument.operand) = groups.flatten := by
  induction words generalizing arguments with
  | nil =>
    obtain rfl := Except.ok.inj h
    exact ⟨[], .nil, rfl⟩
  | cons t words ih =>
    obtain ⟨operands, hparse, h⟩ := Attempt.bind_eq_ok_iff.1 h
    obtain ⟨rest, hrest, h⟩ := Attempt.bind_eq_ok_iff.1 h
    obtain rfl := Except.ok.inj h
    obtain ⟨groups, hgroups, hsites⟩ := ih hrest
    refine ⟨operands.map space.site :: groups, .cons ?_ hgroups, ?_⟩
    · exact Operand.reads_of_parse space (Attempt.mapError_eq_ok_iff.1 hparse)
    · rw [List.map_append, hsites, List.map_map]
      rfl

def IsEmission : Statement → Prop
  | .data _ | .instruction _ _ => True
  | _ => False

theorem emission_of_ofTokens {tokens : List Token} {statement : Statement} (h : ofTokens tokens = .ok statement)
    (hemits : statement.IsEmission) :
    ∃ first words, tokens = first :: words ∧ emission first words = .ok statement := by
  cases spelled_of_ofTokens h with
  | emission hemission => exact ⟨_, _, rfl, hemission⟩
  | _ => exact absurd hemits id

theorem emission_eq_ok {first : Token} {words : List Token} {statement : Statement}
    (h : emission first words = .ok statement) :
    ∃ arguments, readArguments words = .ok arguments ∧
      ((first.text = Mnemonic.dataText ∧ statement = .data arguments) ∨
        ∃ op : Opcode, first.text = op.mnemonic ∧ arguments.length = op.operands.length ∧
          statement = .instruction op arguments) := by
  unfold emission at h
  split at h
  · simp at h
  · rename_i hmnemonic
    obtain ⟨arguments, hread, h⟩ := Attempt.bind_eq_ok_iff.1 h
    obtain ⟨-, -, h⟩ := Attempt.bind_eq_ok_iff.1 h
    exact ⟨arguments, hread, Or.inl ⟨Mnemonic.ofText?_eq_data_iff.1 hmnemonic, (Except.ok.inj h).symm⟩⟩
  · rename_i op hmnemonic
    obtain ⟨arguments, hread, h⟩ := Attempt.bind_eq_ok_iff.1 h
    split at h
    · rename_i harity
      obtain ⟨-, -, h⟩ := Attempt.bind_eq_ok_iff.1 h
      exact ⟨arguments, hread,
        Or.inr ⟨op, Mnemonic.ofText?_eq_operation_iff.1 hmnemonic, harity, (Except.ok.inj h).symm⟩⟩
    · simp at h

end Statement

/-- **The bytes of a line are those of its words.** -/
theorem Layout.Line.readsWords_of_ofTokens (line : Line) {tokens : List Token}
    (h : Statement.ofTokens tokens = .ok line.statement) : line.ReadsWords (tokens.map (·.text)) := by
  obtain ⟨space, address, statement⟩ := line
  by_cases hemits : statement.IsEmission
  · obtain ⟨first, words, rfl, hemission⟩ := Statement.emission_of_ofTokens h hemits
    obtain ⟨arguments, hread, hform⟩ := Statement.emission_eq_ok hemission
    obtain ⟨groups, hgroups, hsites⟩ := Statement.reads_of_readArguments space hread
    rcases hform with ⟨hfirst, hstatement⟩ | ⟨op, hfirst, -, hstatement⟩
    · simp only at hstatement
      subst hstatement
      rw [List.map_cons, hfirst]
      exact .data rfl hgroups hsites
    · simp only at hstatement
      subst hstatement
      rw [List.map_cons, hfirst]
      exact .instruction rfl hgroups (congrArg (Site.byte op.code :: ·) hsites)
  · cases statement with
    | data arguments => exact absurd trivial hemits
    | instruction op arguments => exact absurd trivial hemits
    | _ => exact .silent (by simp) (by simp) rfl

end ByteMachine
