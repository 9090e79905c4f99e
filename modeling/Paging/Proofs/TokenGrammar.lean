import Paging.Filter.Octets
import Paging.Proofs.Malformed
import Paging.Proofs.Utf8

/-!
# The grammar of tokens

A token is a text, the symbol of an operator and a text again. Symbols overlap, so that `a===b` holds
one at two places; the grammar says which of them counts: none begins before the symbol, and none
occurs behind it (`Splits`). The scan finds just this symbol (`splitOperators_eq_iff`), and reading a
token accepts what the grammar does (`parse_accepts_grammar`).

The same operators are found in the octets of a token, at the offsets where their characters begin
(`exists_of_mem_operatorsFrom`), since the octets of a symbol are those of no other character.
-/

namespace Paging.Text.Utf8

/-- A text can be cut behind any of its characters. -/
theorem cutAt?_length_encode (before after : List Char) :
    cutAt? (encode before).length (before ++ after) = some (before, after) := by
  induction before with
  | nil => cases after <;> rfl
  | cons c rest ih =>
      have hPos := List.length_pos_iff.2 (encodeChar_ne_nil c)
      obtain ⟨size, hSize⟩ := Nat.exists_eq_succ_of_ne_zero (Nat.ne_of_gt hPos)
      rw [encode_cons, List.length_append, List.cons_append, hSize, Nat.succ_add, cutAt?, hSize]
      dsimp only
      rw [if_pos (by omega), Nat.succ_sub_succ, Nat.add_sub_cancel_left, ih]
      rfl

end Paging.Text.Utf8

namespace Paging.Filter

open Paging.Text

/-! ## Occurrences of operators -/

/-- The symbol of some operator begins at a position of a text. -/
def OccursAt (text : List Char) (position : Nat) : Prop :=
  ∃ op : Operator, op.symbol.toList <+: text.drop position

/-- A text splits into two around the symbol of an operator: no symbol begins before it, and none
occurs behind it. -/
structure Splits (text before : List Char) (op : Operator) (after : List Char) : Prop where
  eq_append : text = before ++ op.symbol.toList ++ after
  not_before : ∀ position < before.length, ¬OccursAt text position
  not_behind : ∀ position, ¬OccursAt after position

theorem Operator.toList_symbol (op : Operator) :
    op.symbol.toList = [op.symbolChars.1, op.symbolChars.2] := by
  rw [symbol, String.toList_ofList]

theorem Operator.ofChars?_symbolChars (op : Operator) :
    ofChars? op.symbolChars.1 op.symbolChars.2 = some op := ofChars?_eq_some_iff.2 rfl

theorem not_occursAt_nil (position : Nat) : ¬OccursAt [] position := by
  intro h
  obtain ⟨op, hPrefix⟩ := h
  rw [List.drop_nil, List.prefix_nil, op.toList_symbol] at hPrefix
  cases hPrefix

theorem occursAt_zero_iff {a b : Char} {rest : List Char} :
    OccursAt (a :: b :: rest) 0 ↔ ∃ op, Operator.ofChars? a b = some op := by
  refine exists_congr fun op => ?_
  rw [Operator.ofChars?_eq_some_iff, op.toList_symbol, List.drop_zero, List.cons_prefix_cons,
    List.cons_prefix_cons, Prod.ext_iff]
  simp

/-! ## The scan -/

theorem splitOperators_cons_cons {a b : Char} (hNone : Operator.ofChars? a b = none)
    (rest : List Char) :
    splitOperators (a :: b :: rest) =
      (a :: (splitOperators (b :: rest)).1, (splitOperators (b :: rest)).2) := by
  rw [splitOperators, hNone]

/-- Where no operator occurs the whole text is left. -/
theorem splitOperators_of_none {text : List Char} (hNone : ∀ position, ¬OccursAt text position) :
    splitOperators text = (text, []) := by
  induction text with
  | nil => rfl
  | cons a rest ih =>
      have hRest := ih fun position => hNone (position + 1)
      cases rest with
      | nil => rfl
      | cons b rest =>
          have hFirst : Operator.ofChars? a b = none := by
            rw [Option.eq_none_iff_forall_ne_some]
            intro op hOp
            exact hNone 0 (occursAt_zero_iff.2 ⟨op, hOp⟩)
          rw [splitOperators_cons_cons hFirst, hRest]

/-- The scan stops at the first operator and goes on behind it. -/
theorem splitOperators_append {before : List Char} {op : Operator} {after : List Char}
    (hFirst : ∀ position < before.length,
      ¬OccursAt (before ++ op.symbol.toList ++ after) position) :
    splitOperators (before ++ op.symbol.toList ++ after) =
      (before, (op, (splitOperators after).1) :: (splitOperators after).2) := by
  induction before with
  | nil =>
      rw [List.nil_append, op.toList_symbol, List.cons_append, List.cons_append, List.nil_append,
        splitOperators, op.ofChars?_symbolChars]
  | cons a rest ih =>
      have hRest := ih fun position hLess => hFirst (position + 1) (Nat.succ_lt_succ hLess)
      -- Behind the first character there is another one, that of the operator at least.
      have hNext : ∃ b more, rest ++ op.symbol.toList ++ after = b :: more := by
        refine List.exists_cons_of_ne_nil fun hNil => ?_
        rw [op.toList_symbol] at hNil
        simp at hNil
      obtain ⟨b, more, hNext⟩ := hNext
      rw [List.cons_append, List.cons_append, hNext] at hFirst ⊢
      have hNone : Operator.ofChars? a b = none := by
        rw [Option.eq_none_iff_forall_ne_some]
        intro other hOther
        exact hFirst 0 (Nat.succ_pos _) (occursAt_zero_iff.2 ⟨other, hOther⟩)
      rw [splitOperators_cons_cons hNone, ← hNext, hRest]

/-- A text holds no operator, or it has a first one. -/
theorem none_or_exists_first (text : List Char) :
    (∀ position, ¬OccursAt text position) ∨
      ∃ (before : List Char) (op : Operator) (after : List Char),
        text = before ++ op.symbol.toList ++ after ∧
          ∀ position < before.length, ¬OccursAt text position := by
  induction text with
  | nil => exact .inl not_occursAt_nil
  | cons a rest ih =>
      by_cases hHere : OccursAt (a :: rest) 0
      · obtain ⟨op, after, hAfter⟩ := hHere
        exact .inr ⟨[], op, after, hAfter.symm, fun _ hLess => absurd hLess (Nat.not_lt_zero _)⟩
      · rcases ih with hNone | ⟨before, op, after, rfl, hFirst⟩
        · left
          intro position
          cases position with
          | zero => exact hHere
          | succ position => exact hNone position
        · right
          refine ⟨a :: before, op, after, rfl, ?_⟩
          intro position hLess
          cases position with
          | zero => exact hHere
          | succ position => exact hFirst position (Nat.lt_of_succ_lt_succ hLess)

/-- **The scan finds one operator** exactly where a text splits around it. -/
theorem splitOperators_eq_iff {text before : List Char} {op : Operator} {after : List Char} :
    splitOperators text = (before, [(op, after)]) ↔ Splits text before op after := by
  constructor
  · intro hScan
    rcases none_or_exists_first text with hNone | ⟨start, first, rest, rfl, hFirst⟩
    · rw [splitOperators_of_none hNone] at hScan
      cases hScan
    · rw [splitOperators_append hFirst] at hScan
      obtain ⟨rfl, hOps⟩ := Prod.mk.inj hScan
      obtain ⟨hOp, hMore⟩ := List.cons.inj hOps
      obtain ⟨rfl, hAfter⟩ := Prod.mk.inj hOp
      rcases none_or_exists_first rest with hNone | ⟨_, _, _, rfl, hLater⟩
      · rw [splitOperators_of_none hNone] at hAfter
        subst hAfter
        exact ⟨rfl, hFirst, hNone⟩
      · rw [splitOperators_append hLater] at hMore
        cases hMore
  · intro hSplits
    have hFirst := hSplits.not_before
    rw [hSplits.eq_append] at hFirst ⊢
    rw [splitOperators_append hFirst, splitOperators_of_none hSplits.not_behind]

/-! ## The scan of octets -/

theorem Operator.octets_eq (op : Operator) :
    op.octets = [op.symbolChars.1.toNat, op.symbolChars.2.toNat] := by
  cases op <;> decide

theorem Operator.symbolChars_lt (op : Operator) :
    op.symbolChars.1.toNat < 0x80 ∧ op.symbolChars.2.toNat < 0x80 := by
  cases op <;> decide

theorem Operator.ofOctets?_eq_some_iff {a b : Nat} {op : Operator} :
    ofOctets? a b = some op ↔ op.octets = [a, b] := by
  constructor
  · intro hFound
    simpa using List.find?_some hFound
  · intro hOctets
    have hSymbols : ∀ other : Operator,
        ofOctets? other.symbolChars.1.toNat other.symbolChars.2.toNat = some other := by
      intro other
      cases other <;> decide
    obtain ⟨rfl, hRest⟩ := List.cons.inj (op.octets_eq.symm.trans hOctets)
    obtain ⟨rfl, -⟩ := List.cons.inj hRest
    exact hSymbols op

/-- Octets past the first half of the range spell no operator. -/
theorem Operator.ofOctets?_eq_none {a b : Nat} (hHigh : 0x80 ≤ a ∨ 0x80 ≤ b) :
    ofOctets? a b = none := by
  rw [Option.eq_none_iff_forall_ne_some]
  intro op hOp
  have hOctets := ofOctets?_eq_some_iff.1 hOp
  rw [op.octets_eq, List.cons.injEq, List.cons.injEq] at hOctets
  have hLow := op.symbolChars_lt
  omega

theorem operatorsFrom_cons {a b : Nat} (hNone : Operator.ofOctets? a b = none) (offset : Nat)
    (rest : List Nat) :
    operatorsFrom offset (a :: b :: rest) = operatorsFrom (offset + 1) (b :: rest) := by
  rw [operatorsFrom, hNone]

/-- No operator begins in a character of several octets. -/
theorem operatorsFrom_high {octets : List Nat} (hHigh : ∀ octet ∈ octets, 0x80 ≤ octet)
    (offset : Nat) (rest : List Nat) :
    operatorsFrom offset (octets ++ rest) = operatorsFrom (offset + octets.length) rest := by
  induction octets generalizing offset with
  | nil => rfl
  | cons a more ih =>
      have hMore := ih fun octet hMem => hHigh octet (List.mem_cons_of_mem a hMem)
      have hStep : operatorsFrom offset (a :: (more ++ rest)) =
          operatorsFrom (offset + 1) (more ++ rest) := by
        cases more ++ rest with
        | nil => rfl
        | cons b others =>
            exact operatorsFrom_cons
              (Operator.ofOctets?_eq_none (.inl (hHigh a List.mem_cons_self))) offset others
      rw [List.cons_append, hStep, hMore, List.length_cons]
      congr 1
      omega

/-- Where no operator begins the scan of the octets passes over a character. -/
theorem operatorsFrom_encode_cons {c : Char} {rest : List Char} (hNot : ¬OccursAt (c :: rest) 0)
    (offset : Nat) :
    operatorsFrom offset (Utf8.encode (c :: rest)) =
      operatorsFrom (offset + (Utf8.encodeChar c).length) (Utf8.encode rest) := by
  rw [Utf8.encode_cons]
  by_cases hLow : c.toNat < 0x80
  · rw [Utf8.encodeChar_of_lt hLow, List.singleton_append]
    cases rest with
    | nil => rfl
    | cons d rest =>
        rw [Utf8.encode_cons]
        by_cases hNext : d.toNat < 0x80
        · rw [Utf8.encodeChar_of_lt hNext, List.singleton_append]
          refine operatorsFrom_cons ?_ offset _
          rw [Option.eq_none_iff_forall_ne_some]
          intro op hOp
          have hOctets := Operator.ofOctets?_eq_some_iff.1 hOp
          rw [op.octets_eq, List.cons.injEq, List.cons.injEq] at hOctets
          have hChars : op.symbolChars = (c, d) :=
            Prod.ext (Char.toNat_inj.1 hOctets.1) (Char.toNat_inj.1 hOctets.2.1)
          exact hNot (occursAt_zero_iff.2 ⟨op, Operator.ofChars?_eq_some_iff.2 hChars⟩)
        · obtain ⟨b, more, hOctets⟩ := List.exists_cons_of_ne_nil (Utf8.encodeChar_ne_nil d)
          have hHigh : 0x80 ≤ b := Utf8.le_of_mem_encodeChar (Nat.le_of_not_lt hNext)
            (hOctets ▸ List.mem_cons_self)
          rw [hOctets, List.cons_append]
          exact operatorsFrom_cons (Operator.ofOctets?_eq_none (.inr hHigh)) offset _
  · exact operatorsFrom_high
      (fun octet hMem => Utf8.le_of_mem_encodeChar (Nat.le_of_not_lt hLow) hMem) offset _

theorem operatorsFrom_of_none {text : List Char} (hNone : ∀ position, ¬OccursAt text position)
    (offset : Nat) : operatorsFrom offset (Utf8.encode text) = [] := by
  induction text generalizing offset with
  | nil => rfl
  | cons c rest ih =>
      rw [operatorsFrom_encode_cons (hNone 0), ih fun position => hNone (position + 1)]

/-- The scan of the octets stops at the first operator as well, behind the octets of the text before
it. -/
theorem operatorsFrom_append {before : List Char} {op : Operator} {after : List Char}
    (hFirst : ∀ position < before.length,
      ¬OccursAt (before ++ op.symbol.toList ++ after) position) (offset : Nat) :
    operatorsFrom offset (Utf8.encode (before ++ op.symbol.toList ++ after)) =
      (offset + (Utf8.encode before).length, op) ::
        operatorsFrom (offset + (Utf8.encode before).length + op.octets.length)
          (Utf8.encode after) := by
  induction before generalizing offset with
  | nil =>
      have hOctets : Utf8.encode (op.symbol.toList ++ after) = op.octets ++ Utf8.encode after :=
        Utf8.encode_append _ _
      have hFound : Operator.ofOctets? op.symbolChars.1.toNat op.symbolChars.2.toNat = some op :=
        Operator.ofOctets?_eq_some_iff.2 op.octets_eq
      rw [List.nil_append, hOctets, op.octets_eq, List.cons_append, List.cons_append,
        List.nil_append, operatorsFrom, hFound]
      rfl
  | cons c rest ih =>
      have hRest := ih fun position hLess => hFirst (position + 1) (Nat.succ_lt_succ hLess)
      have hHere := hFirst 0 (Nat.succ_pos _)
      rw [List.cons_append, List.cons_append] at hHere ⊢
      rw [operatorsFrom_encode_cons hHere, hRest, Utf8.encode_cons, List.length_append,
        Nat.add_assoc]

/-- **Operators begin and end where characters do**: every operator that is found in the octets of a
text is the symbol of one there, at the offset that the text before it has. -/
theorem exists_of_mem_operatorsFrom (text : List Char) {offset position : Nat} {op : Operator}
    (hMem : (position, op) ∈ operatorsFrom offset (Utf8.encode text)) :
    ∃ before after, text = before ++ op.symbol.toList ++ after ∧
      position = offset + (Utf8.encode before).length := by
  rcases none_or_exists_first text with hNone | ⟨before, first, after, hText, hFirst⟩
  · rw [operatorsFrom_of_none hNone] at hMem
    cases hMem
  · rw [hText] at hFirst hMem
    rw [operatorsFrom_append hFirst, List.mem_cons] at hMem
    rcases hMem with hHere | hLater
    · obtain ⟨rfl, rfl⟩ := Prod.mk.inj hHere
      exact ⟨before, after, hText, rfl⟩
    · obtain ⟨middle, rest, rfl, hPosition⟩ := exists_of_mem_operatorsFrom after hLater
      refine ⟨before ++ first.symbol.toList ++ middle, rest, ?_, ?_⟩
      · rw [hText]
        simp only [List.append_assoc]
      · have hOctets : (Utf8.encode first.symbol.toList).length = first.octets.length := rfl
        rw [hPosition, Utf8.encode_append, Utf8.encode_append, List.length_append,
          List.length_append, hOctets]
        omega
termination_by text.length
decreasing_by
  rw [hText, List.length_append, List.length_append, first.toList_symbol, List.length_cons]
  omega

/-- Cutting a token at octets gives what cutting it at characters does, and never goes through a
character. -/
theorem splitAtOctets?_eq (token : String) : splitAtOctets? token = some (split? token) := by
  rw [splitAtOctets?, split?]
  rcases none_or_exists_first token.toList with hNone | ⟨before, op, after, hText, hFirst⟩
  · rw [operatorsFrom_of_none hNone, splitOperators_of_none hNone]
  · rw [hText] at hFirst ⊢
    rw [operatorsFrom_append hFirst, splitOperators_append hFirst]
    rcases none_or_exists_first after with hNone | ⟨middle, next, rest, rfl, hNext⟩
    · have hField := Utf8.cutAt?_length_encode before (op.symbol.toList ++ after)
      have hValue := Utf8.cutAt?_length_encode (before ++ op.symbol.toList) after
      rw [Utf8.encode_append, List.length_append] at hValue
      rw [List.append_assoc] at hValue ⊢
      rw [operatorsFrom_of_none hNone, splitOperators_of_none hNone, Nat.zero_add]
      simp only [hField, Operator.octets, hValue]
      by_cases hEmpty : Text.trim before = []
      · simp [hEmpty]
      · simp [hEmpty]
    · rw [operatorsFrom_append hNext, splitOperators_append hNext]

/-! ## What is accepted -/

/-- A token of the grammar in its parts: it splits around an operator, and before the operator there
is a field. -/
structure HasParts (token : String) (before : List Char) (op : Operator) (after : List Char) :
    Prop where
  splits : Splits token.toList before op after
  field_ne_nil : Text.trim before ≠ []

theorem split?_eq_ok_iff {token : String} {parts : List Char × Operator × List Char} :
    split? token = .ok parts ↔
      ∃ before op after, HasParts token before op after ∧
        parts = (Text.trim before, op, Text.trim after) := by
  constructor
  · intro hOk
    unfold split? at hOk
    split at hOk
    · rename_i before op after hScan
      dsimp only at hOk
      split at hOk
      · cases hOk
      · rename_i hField
        refine ⟨before, op, after, ⟨splitOperators_eq_iff.1 hScan, ?_⟩, (Except.ok.inj hOk).symm⟩
        simpa using hField
    · cases hOk
  · intro h
    obtain ⟨before, op, after, ⟨hSplits, hField⟩, rfl⟩ := h
    rw [split?, splitOperators_eq_iff.2 hSplits]
    dsimp only
    rw [if_neg (by simpa using hField)]

theorem parse_eq_ok_iff {token : String} {filter : Filter} :
    parse token = .ok filter ↔
      ∃ before op after, HasParts token before op after ∧
        filter = ⟨String.ofList (Text.trim before), op, literal (Text.trim after)⟩ := by
  rw [parse, Results.bind_eq_ok_iff]
  constructor
  · intro h
    obtain ⟨parts, hSplit, hFilter⟩ := h
    obtain ⟨before, op, after, hParts, rfl⟩ := split?_eq_ok_iff.1 hSplit
    exact ⟨before, op, after, hParts, (Except.ok.inj hFilter).symm⟩
  · intro h
    obtain ⟨before, op, after, hParts, rfl⟩ := h
    exact ⟨_, split?_eq_ok_iff.2 ⟨before, op, after, hParts, rfl⟩, rfl⟩

theorem parseField_eq_ok_iff {token field : String} :
    parseField token = .ok field ↔ ∃ filter, parse token = .ok filter ∧ filter.field = field := by
  constructor
  · intro hField
    obtain ⟨filter, hParse⟩ := exists_parse_of_parseField hField
    exact ⟨filter, hParse, Except.ok.inj ((parseField_of_parse hParse).symm.trans hField)⟩
  · intro h
    obtain ⟨filter, hParse, rfl⟩ := h
    exact parseField_of_parse hParse

theorem HasParts.unique {token : String} {before before' after after' : List Char}
    {op op' : Operator} (hParts : HasParts token before op after)
    (hOther : HasParts token before' op' after') :
    before = before' ∧ op = op' ∧ after = after' := by
  have hScan := splitOperators_eq_iff.2 hParts.splits
  rw [splitOperators_eq_iff.2 hOther.splits, Prod.mk.injEq, List.cons.injEq, Prod.mk.injEq] at hScan
  exact ⟨hScan.1.symm, hScan.2.1.1.symm, hScan.2.1.2.symm⟩

/-- **Tokens are read by their grammar.** A token is read exactly if it has the parts of the grammar,
which it has in one way only, as the field, the operator and the value that these parts stand for.
Every other token is the error, whether all of it is read or its field only. The offsets of its
operators in octets are where characters begin and end, so that cutting the token there is cutting
it at characters. -/
theorem parse_accepts_grammar (token : String) :
    (∀ filter, parse token = .ok filter ↔
      ∃ before op after, HasParts token before op after ∧
        filter = ⟨String.ofList (Text.trim before), op, literal (Text.trim after)⟩) ∧
    (∀ before op after before' op' after', HasParts token before op after →
      HasParts token before' op' after' → before = before' ∧ op = op' ∧ after = after') ∧
    ((¬∃ before op after, HasParts token before op after) →
      parse token = .error (.invalidFilter token) ∧
        parseField token = .error (.invalidFilter token)) ∧
    (∀ field, parseField token = .ok field ↔
      ∃ filter, parse token = .ok filter ∧ filter.field = field) ∧
    (∀ entry ∈ operatorsFrom 0 (Utf8.encode token.toList), ∃ before after,
      Utf8.cutAt? entry.1 token.toList = some (before, entry.2.symbol.toList ++ after) ∧
        Utf8.cutAt? (entry.1 + entry.2.octets.length) token.toList =
          some (before ++ entry.2.symbol.toList, after)) ∧
    splitAtOctets? token = some (split? token) := by
  refine ⟨fun _ => parse_eq_ok_iff, fun _ _ _ _ _ _ => HasParts.unique, ?_,
    fun _ => parseField_eq_ok_iff, ?_, splitAtOctets?_eq token⟩
  · intro hNone
    apply Malformed.errors
    intro filter hParse
    obtain ⟨before, op, after, hParts, -⟩ := parse_eq_ok_iff.1 hParse
    exact hNone ⟨before, op, after, hParts⟩
  · intro entry hMem
    obtain ⟨before, after, hText, hOffset⟩ := exists_of_mem_operatorsFrom token.toList hMem
    have hField := Utf8.cutAt?_length_encode before (entry.2.symbol.toList ++ after)
    have hValue := Utf8.cutAt?_length_encode (before ++ entry.2.symbol.toList) after
    rw [Utf8.encode_append, List.length_append] at hValue
    rw [Nat.zero_add] at hOffset
    refine ⟨before, after, ?_, ?_⟩
    · rw [hText, hOffset, List.append_assoc, hField]
    · rw [hText, hOffset]
      exact hValue

/-- The first of two overlapping symbols counts, and the other one is left to the value; with a
second symbol behind the first there is no way to split. -/
theorem parse_accepts_grammar_name :
    parse " 名前 ===太郎" = .ok ⟨"名前", .eq, .str "=太郎"⟩ ∧
      (∀ before op after, HasParts " 名前 ===太郎" before op after →
        before = [' ', '名', '前', ' '] ∧ op = .eq ∧ after = ['=', '太', '郎']) ∧
      parse "note==a==b" = .error (.invalidFilter "note==a==b") := by
  have hParts : HasParts " 名前 ===太郎" [' ', '名', '前', ' '] .eq ['=', '太', '郎'] :=
    ⟨splitOperators_eq_iff.1 (by rfl), by decide⟩
  obtain ⟨hAccepts, hUnique, -⟩ := parse_accepts_grammar " 名前 ===太郎"
  have hNone : ¬∃ before op after, HasParts "note==a==b" before op after := by
    intro h
    obtain ⟨before, op, after, hParts⟩ := h
    have hScan : splitOperators "note==a==b".toList =
      (['n', 'o', 't', 'e'], [(.eq, ['a']), (.eq, ['b'])]) := by rfl
    cases hScan.symm.trans (splitOperators_eq_iff.2 hParts.splits)
  refine ⟨(hAccepts _).2 ⟨_, _, _, hParts, ?_⟩, ?_, ?_⟩
  · rfl
  · exact fun _ _ _ hOther => hUnique _ _ _ _ _ _ hOther hParts
  · exact ((parse_accepts_grammar "note==a==b").2.2.1 hNone).1

end Paging.Filter
