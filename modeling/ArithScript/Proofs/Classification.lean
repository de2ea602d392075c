import ArithScript.Proofs.DeclaredElements
import ArithScript.Proofs.Failures

/-!
# Kinds of symbols

A token is a symbol if it passes one of four tests (`Symbol.Kind`), each of which looks at it on
its own. No token passes two of them: its shape as a name and whether it has an operator in it
tell which test it could pass at all (`Symbol.Kind.Passes.eq_ofToken`). So the tests may be tried
in any order (`Symbol.classify_in_order`), and the names that are taken for references are those
that a store knows how to look up.
-/

namespace ArithScript.Symbol

open Grammar

/-- The kinds of symbols, each with a test of its own. -/
inductive Kind where
  | scalar
  | operator
  | number
  | element
  deriving DecidableEq

namespace Kind

def all : List Kind := [scalar, operator, number, element]

/-! ## The tests -/

/-- The token has an operator character in it. -/
def hasOperator (token : String) : Bool := token.toList.any fun c => (Operator.ofChar? c).isSome

/-- The symbol of this kind that a token is, if it passes the test: `$` and letters, an operator
character anywhere, a literal, or letters and digits in square brackets. -/
def test (kind : Kind) (token : String) : Option Symbol :=
  match kind with
  | scalar =>
    match token.toList with
    | '$' :: letters => if Name.isLetters letters then some (.scalar ⟨token, none⟩) else none
    | _ => none
  | operator => if hasOperator token then some (.operator token) else none
  | number => (literal? token.toList).map .number
  | element => (Name.elementShape? token.toList).map fun _ => .element ⟨token, none⟩

/-- The token passes the test of the kind, as this symbol. -/
inductive Passes : Kind → String → Symbol → Prop
  | scalar (letters : Letters) :
    Passes scalar (letters.named '$') (.scalar ⟨letters.named '$', none⟩)
  | operator {token : String} (has : hasOperator token = true) :
    Passes operator token (.operator token)
  | number {token : String} {x : Binary64} (literal : literal? token.toList = some x) :
    Passes number token (.number x)
  | element (letters : Letters) (position : Positions) :
    Passes element (letters.element position) (.element ⟨letters.element position, none⟩)

variable {kind other : Kind} {token : String} {s : Symbol}

theorem test_eq_some_iff : kind.test token = some s ↔ kind.Passes token s := by
  have htoken := String.ofList_toList (s := token)
  constructor
  · intro h
    unfold test at h
    cases kind with
    | scalar =>
      dsimp only at h
      split at h
      · next letters hchars =>
        split at h <;> cases h
        next hletters =>
          obtain ⟨letters, rfl⟩ := Name.isLetters_iff.mp hletters
          rw [← htoken, hchars]
          exact .scalar letters
      · cases h
    | operator =>
      dsimp only at h
      split at h <;> cases h
      next has => exact .operator has
    | number =>
      obtain ⟨x, hliteral, rfl⟩ := Option.map_eq_some_iff.mp h
      exact .number hliteral
    | element =>
      obtain ⟨shape, hshape, rfl⟩ := Option.map_eq_some_iff.mp h
      obtain ⟨letters, position, hchars, -⟩ := Name.exists_of_elementShape? hshape
      rw [← htoken, hchars]
      exact .element letters position
  · intro h
    unfold test
    cases h with
    | scalar letters =>
      rw [Letters.toList_named]
      exact if_pos (Name.isLetters_chars letters)
    | operator has => exact if_pos has
    | number literal => exact Option.map_eq_some_iff.mpr ⟨_, literal, rfl⟩
    | element letters position =>
      rw [Letters.toList_element]
      dsimp only
      rw [Name.elementShape?_element, Option.map_some]

/-! ## No token passes two tests -/

/-- The only test that the token could pass. -/
def ofToken (token : String) : Kind :=
  match Name.shape? token with
  | some .scalar => scalar
  | some (.element _ _) => element
  | _ => if hasOperator token then operator else number

theorem hasOperator_eq_false {token : String}
    (h : ∀ c ∈ token.toList, Operator.ofChar? c = none) : hasOperator token = false := by
  rw [hasOperator, List.any_eq_false]
  intro c hc
  simp [h c hc]

/-- No name with a shape has an operator in it. -/
theorem shape?_of_hasOperator (h : hasOperator token = true) : Name.shape? token = none := by
  rw [Option.eq_none_iff_forall_not_mem]
  intro shape hshape
  have hchars := fun c hc => ((Name.hasShape_of_shape? hshape).char (c := c) hc).2
  rw [hasOperator_eq_false hchars] at h
  cases h

theorem Passes.eq_ofToken (h : kind.Passes token s) : kind = ofToken token := by
  unfold ofToken
  cases h with
  | scalar letters => rw [Name.shape?_of_hasShape (.scalar letters)]
  | operator has =>
    rw [shape?_of_hasOperator has]
    exact (if_pos has).symm
  | number literal =>
    have hchars := isLiteralChar_of_literal? literal
    have hnone := hasOperator_eq_false fun c hc => ofChar?_of_isLiteralChar (hchars c hc)
    rw [shape?_of_isExpressionChar fun c hc => isExpressionChar_of_isLiteralChar (hchars c hc)]
    dsimp only
    rw [hnone, if_neg Bool.false_ne_true]
  | element letters position => rw [Name.shape?_of_hasShape (.element letters position)]

theorem Passes.kind_eq (h : kind.Passes token s) {s' : Symbol} (h' : other.Passes token s') :
    kind = other :=
  h.eq_ofToken.trans h'.eq_ofToken.symm

theorem mem_all (kind : Kind) : kind ∈ all := by
  cases kind <;> decide

/-- In every order of the tests the one that is passed gives the symbol. -/
theorem Passes.findSome?_eq {order : List Kind} (horder : order.Perm all)
    (h : kind.Passes token s) : order.findSome? (test · token) = some s := by
  have hpassed := test_eq_some_iff.mpr h
  have hsome : (order.findSome? (test · token)).isSome = true := by
    rw [List.findSome?_isSome_iff]
    exact ⟨kind, horder.mem_iff.mpr kind.mem_all, by rw [hpassed]; rfl⟩
  obtain ⟨s', hs'⟩ := Option.isSome_iff_exists.mp hsome
  obtain ⟨_, found, _, -, hfound, -⟩ := List.findSome?_eq_some_iff.mp hs'
  rw [(test_eq_some_iff.mp hfound).kind_eq h, hpassed] at hfound
  rw [hs', hfound]

end Kind

/-! ## Classification -/

variable {token : String} {s : Symbol}

theorem exists_passes (h : classify token = .ok s) :
    ∃ kind : Kind, kind.Passes (Text.trim token) s := by
  unfold classify at h
  dsimp only at h
  split at h
  · next hshape =>
    cases h
    generalize Text.trim token = name at hshape
    cases Name.hasShape_of_shape? hshape with
    | scalar letters => exact ⟨_, .scalar letters⟩
  split at h
  · next has =>
    cases h
    exact ⟨_, .operator has⟩
  split at h
  · next hliteral =>
    cases h
    exact ⟨_, .number hliteral⟩
  · next hshape =>
    cases h
    generalize Text.trim token = name at hshape
    cases Name.hasShape_of_shape? hshape with
    | element letters position => exact ⟨_, .element letters position⟩
  · cases h

theorem Kind.Passes.classify_eq {kind : Kind} (h : kind.Passes (Text.trim token) s) :
    classify token = .ok s := by
  rw [← classify_trim]
  have htrimmed := Text.trimmed_trim token
  generalize Text.trim token = trimmed at h htrimmed
  cases h with
  | scalar letters => exact classify_scalar letters
  | operator has =>
    exact classify_operator htrimmed (shape?_of_hasOperator has) (List.any_eq_true.mp has)
  | number literal =>
    rw [classify_eq_number_iff, htrimmed.trim_eq]
    exact literal
  | element letters position => exact classify_element letters position

/-- The tests, in any order, classify a token by the first of them that it passes. -/
theorem classify_eq_findSome? {order : List Kind} (horder : order.Perm Kind.all) (token : String) :
    classify token = match order.findSome? (Kind.test · (Text.trim token)) with
      | some s => .ok s
      | none => .error (.invalidSymbol (Text.trim token)) := by
  cases hfound : order.findSome? (Kind.test · (Text.trim token)) with
  | some s =>
    obtain ⟨_, kind, _, -, hkind, -⟩ := List.findSome?_eq_some_iff.mp hfound
    exact (Kind.test_eq_some_iff.mp hkind).classify_eq
  | none =>
    cases hclassify : classify token with
    | error e => rw [classify_error hclassify]
    | ok s =>
      obtain ⟨kind, hpasses⟩ := exists_passes hclassify
      rw [hpasses.findSome?_eq horder] at hfound
      cases hfound

theorem classify_eq_scalar_iff {r : Reference} : classify token = .ok (.scalar r) ↔
    r = ⟨Text.trim token, none⟩ ∧ Name.shape? (Text.trim token) = some .scalar := by
  constructor
  · intro h
    cases classified h with
    | scalar shape => exact ⟨rfl, shape⟩
  · rintro ⟨rfl, hshape⟩
    rw [← classify_trim]
    generalize Text.trim token = name at hshape
    cases Name.hasShape_of_shape? hshape with
    | scalar letters => exact classify_scalar letters

theorem classify_eq_element_iff {r : Reference} : classify token = .ok (.element r) ↔
    r = ⟨Text.trim token, none⟩ ∧
      ∃ array position, Name.shape? (Text.trim token) = some (.element array position) := by
  constructor
  · intro h
    cases classified h with
    | element shape => exact ⟨rfl, _, _, shape⟩
  · rintro ⟨rfl, array, position, hshape⟩
    rw [← classify_trim]
    generalize Text.trim token = name at hshape
    cases Name.hasShape_of_shape? hshape with
    | element letters position => exact classify_element letters position

/-- **Kinds of symbols**: a token passes at most one of the four tests, so in every order of them
it is classified alike. It is a scalar or an element exactly if it is the name of one, and so no
store of a session refuses a reference for its name. Numbers are finite and without a sign, and
every symbol is read back from its source. -/
theorem classify_in_order (token : String) :
    (∀ kind other : Kind, (kind.test (Text.trim token)).isSome = true →
      (other.test (Text.trim token)).isSome = true → kind = other) ∧
    (∀ order : List Kind, order.Perm Kind.all →
      classify token = match order.findSome? (Kind.test · (Text.trim token)) with
        | some s => .ok s
        | none => .error (.invalidSymbol (Text.trim token))) ∧
    (∀ r, classify token = .ok (.scalar r) ↔
      r = ⟨Text.trim token, none⟩ ∧ Name.shape? (Text.trim token) = some .scalar) ∧
    (∀ r, classify token = .ok (.element r) ↔ r = ⟨Text.trim token, none⟩ ∧
      ∃ array position, Name.shape? (Text.trim token) = some (.element array position)) ∧
    (∀ s r, classify token = .ok s → s.reference? = some r →
      ∀ store : Store, store.WellFormed → NamesFit (store.value r.name)) ∧
    (∀ x, classify token = .ok (.number x) → ∃ m, x = .finite false m) ∧
    ∀ s, classify token = .ok s → classify s.source = .ok s := by
  refine ⟨fun kind other hkind hother => ?_, fun order horder => classify_eq_findSome? horder token,
    fun r => classify_eq_scalar_iff, fun r => classify_eq_element_iff, ?_, ?_, ?_⟩
  · obtain ⟨s, hs⟩ := Option.isSome_iff_exists.mp hkind
    obtain ⟨s', hs'⟩ := Option.isSome_iff_exists.mp hother
    exact (Kind.test_eq_some_iff.mp hs).kind_eq (Kind.test_eq_some_iff.mp hs')
  · exact fun s r hs hr store hstore => namesFit_value hstore (classify_named hs) hr
  · exact fun x hx => classify_inPhase hx
  · exact fun s hs => classify_source hs

end ArithScript.Symbol
