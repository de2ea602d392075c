import ArithScript.Proofs.Failures
import ArithScript.Proofs.Printing

/-!
# Misspelled statements

A token with an operator character in it is a symbol whatever else it holds, so a misspelled
statement such as `@A=[1-2]` may well be parsed, as a plain expression. It does not come to a
number: the text of an expression holds its operator tokens whole, whatever the references
around them stand for, and a text with a derivation is written with few characters
(`isExpressionChar_of_reduce`). So no operator token with another character gets through
(`evaluateStatement_spelled`).
-/

namespace ArithScript

open Grammar

/-! ## Characters of expressions -/

theorem isExpressionChar_of_isNumeralChar {c : Char} (h : isNumeralChar c = true) :
    isExpressionChar c = true := by
  simp only [isNumeralChar, Cut.startsNumeral, Cut.isSign, Bool.or_eq_true, beq_iff_eq] at h
  simp only [isExpressionChar, Bool.or_eq_true, beq_iff_eq]
  tauto

theorem Operator.isExpressionChar_toChar (op : Operator) : isExpressionChar op.toChar = true := by
  cases op <;> rfl

namespace Grammar

theorem Operand.isExpressionChar_text (o : Operand) :
    ∀ c ∈ o.text, isExpressionChar c = true :=
  fun c hc => isExpressionChar_of_isNumeralChar (o.isNumeralChar_text c hc)

theorem Expression.isExpressionChar_text (e : Expression Operand) :
    ∀ c ∈ e.text, isExpressionChar c = true := by
  intro c hc
  rw [Expression.text, ← Expression.spell_chain, Chain.spell] at hc
  rcases List.mem_append.mp hc with hc | hc
  · exact e.chain.first.isExpressionChar_text c hc
  · obtain ⟨⟨op, o⟩, -, hc⟩ := List.mem_flatMap.mp hc
    rcases List.mem_append.mp hc with hc | hc
    · cases List.mem_singleton.mp hc
      exact op.isExpressionChar_toChar
    · exact o.isExpressionChar_text c hc

theorem isExpressionChar_of_reduce {text : String} {x : Binary64} (h : reduce text = .ok x) :
    ∀ c ∈ text.toList, isExpressionChar c = true := by
  obtain ⟨e, htext, -⟩ := reduce_eq_ok_iff.mp h
  rw [← htext]
  exact e.isExpressionChar_text

end Grammar

/-! ## Operator tokens -/

/-- A resolved operator is the token that it was, so its characters are in the text. -/
theorem Renders.mem_text {store : Store} {symbols : List Symbol} {text token : String}
    (h : Renders store symbols text) (htoken : .operator token ∈ symbols) {c : Char}
    (hc : c ∈ token.toList) : c ∈ text.toList := by
  obtain ⟨settled, hsettled, rfl⟩ := h
  have hmem : (Symbol.operator token).resolve store ∈ settled.map .ok := by
    rw [← mapM_eq_ok_iff.mp hsettled]
    exact List.mem_map_of_mem htoken
  obtain ⟨s, hs, hresolve⟩ := List.mem_map.mp hmem
  obtain rfl : s = .operator token := Except.ok.inj hresolve
  rw [String.toList_join, List.flatMap_map]
  exact List.mem_flatMap.mpr ⟨_, hs, hc⟩

namespace Symbol

/-- A token with a character that is in no expression is an operator, or else the name of a
scalar or of an element. -/
theorem classify_foreign {token : String} {s : Symbol} (h : classify token = .ok s) {c : Char}
    (hc : c ∈ (Text.trim token).toList) (hforeign : isExpressionChar c = false) :
    s = .operator (Text.trim token) ∨ Name.shape? (Text.trim token) = some .scalar ∨
      ∃ array position, Name.shape? (Text.trim token) = some (.element array position) := by
  cases classified h with
  | scalar shape => exact .inr (.inl shape)
  | operator => exact .inl rfl
  | number literal =>
    have hliteral := isLiteralChar_of_literal? literal c hc
    rw [isExpressionChar_of_isLiteralChar hliteral] at hforeign
    cases hforeign
  | element shape => exact .inr (.inr ⟨_, _, shape⟩)

end Symbol

/-! ## Evaluation of operator tokens -/

/-- One of the symbols is an operator token with a character that is in no expression. -/
def Misspelled (symbols : List Symbol) : Prop :=
  ∃ token, .operator token ∈ symbols ∧ ∃ c ∈ token.toList, isExpressionChar c = false

namespace Line

variable {store : Store} {line : Line}

theorem IsExpressionOf.of_mem {s : Symbol} (h : s ∈ line.form.symbols) :
    line.IsExpressionOf line.form.symbols := by
  unfold IsExpressionOf
  cases hform : line.form with
  | plain symbols => exact .inl rfl
  | scalarAssign target symbols => exact .inr ⟨target, rfl⟩
  | arrayAssign | call =>
    rw [hform] at h
    cases h

/-- What an expression comes to is the number that its text reduces to. -/
theorem IsExpressionOf.evaluate_ok {symbols : List Symbol} (hline : line.IsExpressionOf symbols)
    (hresolved : line.resolved = false) {value : Value}
    (h : (line.evaluate reduce store).result = .ok value) :
    ∃ text n, Renders store symbols text ∧ reduce text = .ok n ∧ value = .number n := by
  have hreduce : ∃ n, (line.reduceWith reduce store).1 = .ok n ∧ value = .number n := by
    rw [evaluate_result] at h
    rcases hline with hform | ⟨target, hform⟩
    · rw [hform] at h
      obtain ⟨n, hn, rfl⟩ := map_eq_ok.mp h
      exact ⟨n, hn, rfl⟩
    · rw [hform] at h
      obtain ⟨n, hn, hregister⟩ := bind_eq_ok.mp h
      obtain ⟨-, -, rfl⟩ := map_eq_ok.mp hregister
      exact ⟨n, hn, rfl⟩
  obtain ⟨n, hn, rfl⟩ := hreduce
  unfold reduceWith at hn
  split at hn
  · cases hn
  · next resolved hresolve =>
    obtain ⟨text, htext, hrenders⟩ := hline.exists_renders hresolved hresolve
    dsimp only at hn
    rw [htext] at hn
    exact ⟨text, n, hrenders, hn, rfl⟩

end Line

section Evaluation

variable {store : Store} {statement : String} {line : Line}

/-- Whatever value a statement comes to, its operator tokens are parts of expressions. -/
theorem isExpressionChar_of_evaluateStatement (hparse : Line.parse statement = .ok line)
    {value : Value} (h : (evaluateStatement reduce store statement).1 = .ok value) {token : String}
    (htoken : .operator token ∈ line.form.symbols) :
    ∀ c ∈ token.toList, isExpressionChar c = true := by
  intro c hc
  have hresolved := (Line.parse_eq_ok_iff.mp hparse).1
  rw [evaluateStatement_of_parsed hparse] at h
  obtain ⟨text, n, hrenders, hreduce, -⟩ :=
    (Line.IsExpressionOf.of_mem htoken).evaluate_ok hresolved h
  exact isExpressionChar_of_reduce hreduce c (hrenders.mem_text htoken hc)

theorem Misspelled.fails (h : Misspelled line.form.symbols)
    (hparse : Line.parse statement = .ok line) :
    ∃ error, (evaluateStatement reduce store statement).1 = .error error := by
  cases hresult : (evaluateStatement reduce store statement).1 with
  | error error => exact ⟨error, rfl⟩
  | ok value =>
    obtain ⟨token, htoken, c, hc, hforeign⟩ := h
    rw [isExpressionChar_of_evaluateStatement hparse hresult htoken c hc] at hforeign
    cases hforeign

end Evaluation

/-! ## Starts of statements -/

/-- The first character of a statement of the shape. -/
def Shape.sigil : Shape → Char
  | scalarAssign _ _ => '$'
  | arrayAssign _ _ => '@'
  | call _ _ => '#'

theorem Shape.head?_text (shape : Shape) : shape.text.head? = some shape.sigil := by
  cases shape <;> rfl

theorem Name.HasShape.head_scalar {name : String} (h : HasShape name .scalar) :
    name.toList.head? = some '$' := by
  cases h with
  | scalar letters =>
    rw [Letters.toList_named]
    rfl

theorem Name.HasShape.head_element {name array position : String}
    (h : HasShape name (.element array position)) : ∃ c ∈ name.toList.head?, c.isUpper = true := by
  cases h with
  | element letters position =>
    obtain ⟨chars, hne, hall⟩ := letters
    cases chars with
    | nil => exact absurd rfl hne
    | cons c cs =>
      rw [Letters.toList_element]
      exact ⟨c, rfl, hall c List.mem_cons_self⟩

/-- What stands before the first space. -/
def firstPiece (text : String) : String := String.ofList (text.toList.takeWhile (· ≠ ' '))

/-- The text starts with a sigil, but not with the name of a scalar. -/
def StartsNameless (text : String) (sigil : Char) : Prop :=
  text.toList.head? = some sigil ∧ (sigil = '@' ∨ sigil = '#' ∨
    sigil = '$' ∧ Name.shape? (Text.trim (firstPiece text)) ≠ some .scalar)

section Symbols

variable {body : String} {symbols : List Symbol}

theorem StartsNameless.misspelled {sigil : Char} (h : StartsNameless body sigil)
    (htokens : Line.Tokens body symbols) : Misspelled symbols := by
  obtain ⟨hhead, hsigil⟩ := h
  obtain ⟨s, hs, hclassify⟩ := htokens.exists_symbol (Text.takeWhile_mem_pieces ' ' body)
  have hvisible : sigil ≠ ' ' ∧ Text.isBlank sigil = false ∧ isExpressionChar sigil = false ∧
      sigil.isUpper = false := by
    rcases hsigil with rfl | rfl | ⟨rfl, -⟩ <;> decide
  obtain ⟨hspace, hblank, hforeign, hupper⟩ := hvisible
  have hfirst : (Text.trim (firstPiece body)).toList.head? = some sigil := by
    refine Text.head?_trim ?_ hblank
    obtain ⟨cs, hcs⟩ := List.head?_eq_some_iff.mp hhead
    simp [firstPiece, hcs, hspace]
  have hmem := List.mem_of_mem_head? hfirst
  rcases Symbol.classify_foreign hclassify hmem hforeign with rfl | hscalar | ⟨_, _, helement⟩
  · exact ⟨_, hs, sigil, hmem, hforeign⟩
  · have hdollar := (Name.hasShape_of_shape? hscalar).head_scalar
    obtain rfl := Option.some.inj (hfirst.symm.trans hdollar)
    rcases hsigil with hsigil | hsigil | ⟨-, hname⟩
    · cases hsigil
    · cases hsigil
    · exact absurd hscalar hname
  · obtain ⟨c, hc, hletter⟩ := (Name.hasShape_of_shape? helement).head_element
    obtain rfl := Option.some.inj (hfirst.symm.trans hc)
    rw [hupper] at hletter
    cases hletter

/-! ## Characters that are in no symbol -/

/-- The character is no blank, and it is in no name and in no expression. -/
def isForeign (c : Char) : Bool :=
  !(Text.isBlank c || isExpressionChar c || Name.isMark c || c.isUpper || Text.isDecimalDigit c)

theorem isForeign_iff {c : Char} : isForeign c = true ↔ Text.isBlank c = false ∧
    isExpressionChar c = false ∧ Name.isMark c = false ∧ c.isUpper = false ∧
      Text.isDecimalDigit c = false := by
  simp [isForeign, and_assoc]

theorem not_mem_name {c : Char} (hc : isForeign c = true) {name : String} {shape : NameShape}
    (h : Name.shape? name = some shape) : c ∉ name.toList := by
  intro hmem
  obtain ⟨-, -, hmark, hupper, hdigit⟩ := isForeign_iff.mp hc
  have hchar := (Name.hasShape_of_shape? h).chars.2 c hmem
  simp [hmark, hupper, hdigit] at hchar

theorem misspelled_of_isForeign {c : Char} (hforeign : isForeign c = true) (hc : c ∈ body.toList)
    (htokens : Line.Tokens body symbols) : Misspelled symbols := by
  obtain ⟨hblank, hexpression, -⟩ := isForeign_iff.mp hforeign
  have hspace : c ≠ ' ' := by
    rintro rfl
    cases hblank
  obtain ⟨-, -, hbody⟩ := Text.pieces_eq_iff.mp (rfl : Text.pieces ' ' body = _)
  rw [← hbody, Text.mem_intercalate_iff hspace] at hc
  obtain ⟨part, hpart, hc⟩ := hc
  obtain ⟨piece, hpiece, rfl⟩ := List.mem_map.mp hpart
  obtain ⟨s, hs, hclassify⟩ := htokens.exists_symbol hpiece
  have hmem := Text.mem_trim_of_mem hc hblank
  rcases Symbol.classify_foreign hclassify hmem hexpression with rfl | hscalar | ⟨_, _, helement⟩
  · exact ⟨_, hs, c, hmem, hexpression⟩
  · exact absurd hmem (not_mem_name hforeign hscalar)
  · exact absurd hmem (not_mem_name hforeign helement)

end Symbols

/-! ## Statements -/

theorem Line.Derives.exists_tokens {statement : String} {form : Form} (h : Derives statement form)
    (hshapeless : ∀ shape : Shape, shape.text ≠ statement.toList) :
    Tokens statement form.symbols := by
  cases h with
  | scalarAssign shape | arrayAssign shape | call shape => exact absurd shape (hshapeless _)
  | plain shapeless tokens => exact tokens

/-- **Misspelled statements fail**: in a statement that comes to a number, the operator tokens
are written with digits, points, exponent marks and the four operators. So a statement with a
sigil in front is of the shape with this sigil, or it starts with the name of a scalar, or it
fails; and so does a plain expression with an equals sign, a parenthesis or a comma in it. -/
theorem evaluateStatement_spelled (store : Store) (statement : String) :
    let result := (evaluateStatement reduce store statement).1
    let text := Text.trim statement
    (∀ n, result = .ok (.number n) → ∃ line, Line.parse statement = .ok line ∧
      ∀ token, .operator token ∈ line.form.symbols →
        ∀ c ∈ token.toList, isExpressionChar c = true) ∧
      (∀ sigil, StartsNameless text sigil →
        (∃ shape : Shape, shape.sigil = sigil ∧ shape.text = text.toList) ∨
          ∃ error, result = .error error) ∧
      (∀ line symbols, Line.parse statement = .ok line → line.form = .plain symbols →
        ∀ c ∈ ['=', '(', ')', ','], c ∈ statement.toList ∨ c ∈ line.text.toList →
          ∃ error, result = .error error) := by
  intro result text
  refine ⟨fun n hresult => ?_, fun sigil hsigil => ?_,
    fun line symbols hparse hform c hc hmem => ?_⟩
  · cases hparse : Line.parse statement with
    | error error =>
      have herror : result = .error error := evaluateStatement_of_unparsed hparse
      rw [hresult] at herror
      cases herror
    | ok line =>
      refine ⟨line, rfl, fun token htoken => ?_⟩
      exact isExpressionChar_of_evaluateStatement hparse hresult htoken
  · by_cases hshape : ∃ shape : Shape, shape.text = text.toList
    · obtain ⟨shape, hshape⟩ := hshape
      have hhead := shape.head?_text
      rw [hshape, hsigil.1] at hhead
      exact .inl ⟨shape, (Option.some.inj hhead).symm, hshape⟩
    · right
      cases hparse : Line.parse statement with
      | error error => exact ⟨error, evaluateStatement_of_unparsed hparse⟩
      | ok line =>
        have hderives := (Line.parse_eq_ok_iff.mp hparse).2
        have htokens := hderives.exists_tokens (not_exists.mp hshape)
        exact (hsigil.misspelled htokens).fails hparse
  · obtain ⟨form, resolved⟩ := line
    obtain rfl : form = .plain symbols := hform
    obtain ⟨-, hderives⟩ := Line.parse_eq_ok_iff.mp hparse
    have hforeign : isForeign c = true := by
      simp only [List.mem_cons, List.not_mem_nil, or_false] at hc
      rcases hc with rfl | rfl | rfl | rfl <;> decide
    obtain ⟨hblank, -⟩ := isForeign_iff.mp hforeign
    have hmisspelled : Misspelled (Form.plain symbols).symbols := by
      cases hderives with
      | plain shapeless tokens =>
        -- Printing an expression keeps its symbols, so it has the same tokens either way.
        rcases hmem with hmem | hmem
        · exact misspelled_of_isForeign hforeign (Text.mem_trim_of_mem hmem hblank) tokens
        · exact misspelled_of_isForeign hforeign hmem tokens.sources
    exact hmisspelled.fails hparse

/-- A list without its spaces is one operator token. -/
example : (evaluateStatement reduce .empty "@A=[1-2]").1 =
    .error (.malformedExpression "@A=[1-2]" (.unexpectedCharacter '@')) := by
  decide +kernel

end ArithScript
