import ArithScript.Proofs.Elements
import ArithScript.Proofs.Spelling
import ArithScript.Proofs.Staging

/-!
# Declared elements as operands

An array assignment accepts the decimal digits of all scripts, and an expression is read from
ASCII digits alone. So an element of a declared array comes to the number that its digits
write, if they are ASCII digits, and otherwise it is no expression at all, because the lexer
stops at the first of the others (`evaluateStatement_declared`).
-/

namespace ArithScript

open Grammar

/-! ## Decimal digits -/

namespace Text

/-- The decimal digits that are not ASCII digits come far behind them. -/
theorem isDecimalDigit_cases {c : Char} (h : isDecimalDigit c = true) :
    c.isDigit = true ∨ ∃ start ∈ digitZeros, 0x660 ≤ start ∧ start ≤ c.toNat ∧
      c.toNat < start + 10 := by
  unfold isDecimalDigit at h
  rw [List.any_eq_true] at h
  obtain ⟨start, hstart, hrange⟩ := h
  rw [Bool.and_eq_true, decide_eq_true_eq, decide_eq_true_eq] at hrange
  have hstarts : ∀ start ∈ digitZeros, start = 0x30 ∨ 0x660 ≤ start := by decide
  rcases hstarts start hstart with rfl | hfar
  · left
    simp only [Char.isDigit, Bool.and_eq_true, decide_eq_true_eq, ge_iff_le,
      UInt32.le_iff_toNat_le]
    exact ⟨hrange.1, Nat.le_of_lt_succ hrange.2⟩
  · exact .inr ⟨start, hstart, hfar, hrange⟩

theorem isBlank_of_isDecimalDigit {c : Char} (h : isDecimalDigit c = true) :
    isBlank c = false := by
  rcases isDecimalDigit_cases h with hdigit | ⟨start, hstart, hfar, hlow, hhigh⟩
  · exact isBlank_of_isDigit hdigit
  · -- No run of digits touches the blanks behind U+0660, which stand close together.
    have hruns : ∀ start ∈ digitZeros, start + 10 ≤ 0x1680 ∨ (0x1680 < start ∧ start + 10 ≤ 0x2000) ∨
        0x3000 < start := by decide
    have hrun := hruns start hstart
    simp only [isBlank, Bool.or_eq_false_iff, Bool.and_eq_false_iff, decide_eq_false_iff_not,
      beq_eq_false_iff_ne]
    omega

/-- No other decimal digit is in an expression. -/
theorem isExpressionChar_of_isDecimalDigit {c : Char} (h : isDecimalDigit c = true)
    (hdigit : c.isDigit = false) : isExpressionChar c = false := by
  rcases isDecimalDigit_cases h with habsurd | ⟨start, -, hfar, hlow, -⟩
  · rw [habsurd] at hdigit
    cases hdigit
  · have hne : ∀ d : Char, d.toNat < 0x660 → (c == d) = false := by
      intro d hd
      rw [beq_eq_false_iff_ne]
      rintro rfl
      omega
    simp only [isExpressionChar, hdigit, Bool.false_or, Bool.or_eq_false_iff]
    exact ⟨⟨⟨⟨⟨⟨hne _ (by decide), hne _ (by decide)⟩, hne _ (by decide)⟩, hne _ (by decide)⟩,
      hne _ (by decide)⟩, hne _ (by decide)⟩, hne _ (by decide)⟩

end Text

/-! ## Names of elements as statements -/

theorem Name.HasShape.char {name : String} {shape : NameShape} (h : HasShape name shape) {c : Char}
    (hc : c ∈ name.toList) : Text.isBlank c = false ∧ Operator.ofChar? c = none := by
  rcases h.chars.2 c hc with hmark | hupper | hdigit
  · exact Shape.opening_char (.inl hmark)
  · exact Shape.opening_char (.inr (.inl hupper))
  · refine ⟨Text.isBlank_of_isDecimalDigit hdigit, ?_⟩
    cases hop : Operator.ofChar? c with
    | none => rfl
    | some op =>
      obtain rfl := toChar_of_ofChar hop
      have hforeign := Text.isExpressionChar_of_isDecimalDigit hdigit (by cases op <;> rfl)
      rw [op.isExpressionChar_toChar] at hforeign
      cases hforeign

theorem Symbol.classify_element (letters : Letters) (position : Positions) :
    classify (letters.element position) = .ok (.element ⟨letters.element position, none⟩) := by
  have helement := Name.HasShape.element letters position
  have hshape := Name.shape?_of_hasShape helement
  have htrim := (Text.trimmed_of_forall fun c hc => (helement.char hc).1).trim_eq
  generalize letters.element position = name at helement hshape htrim
  have hoperator : (name.toList.any fun c => (Operator.ofChar? c).isSome) = false := by
    rw [List.any_eq_false]
    intro c hc
    simp [(helement.char hc).2]
  have hliteral : literal? name.toList = none := by
    rw [Option.eq_none_iff_forall_not_mem]
    intro x hx
    have hnameless := shape?_of_isExpressionChar fun c hc =>
      isExpressionChar_of_isLiteralChar (isLiteralChar_of_literal? hx c hc)
    rw [hshape] at hnameless
    cases hnameless
  unfold classify
  rw [htrim]
  dsimp only
  rw [hshape]
  dsimp only
  rw [hoperator, hliteral]
  rfl

theorem Line.written_element (letters : Letters) (position : Positions) :
    Written (letters.element position) [.element ⟨letters.element position, none⟩] :=
  .single (fun _ hc => ((Name.HasShape.element letters position).char hc).1)
    (Symbol.classify_element letters position)

/-- What the name of an element comes to is what its text reduces to. -/
theorem evaluateStatement_element {store : Store} {letters : Letters} {position : Positions}
    {text : String} (h : store.value (letters.element position) = .ok text) :
    (evaluateStatement reduce store (letters.element position)).1 = (reduce text).map .number := by
  let r : Reference := ⟨letters.element position, none⟩
  let line : Line := ⟨.plain [.element r], false⟩
  have htext : line.textOf store r = some text := by
    rw [Line.textOf, if_neg Bool.false_ne_true, h]
    rfl
  have hbound : line.Bound store := by
    intro s hs r' hr
    cases List.mem_singleton.mp hs
    cases hr
    exact ⟨text, htext⟩
  have hne : line.form.symbols ≠ [] := List.cons_ne_nil _ _
  obtain ⟨resolved, hresolve, hresolved⟩ := Line.exists_expressionText hne hbound
  have hexpression : line.expressionText store = text := by
    rw [← String.toList_inj, Line.toList_expressionText]
    simp only [line, Form.symbols, List.flatMap_singleton]
    rw [Line.settle, Symbol.rendered, htext]
    rfl
  rw [evaluateStatement_of_parsed (Line.written_element letters position).parse, Line.evaluate_result,
    Line.reduceWith_eq reduce hresolve hresolved, hexpression]

/-! ## Texts of digits as expressions -/

namespace Grammar

/-- The digits as a text. -/
def Digits.string (digits : Digits) : String := String.ofList digits.chars

@[simp] theorem Digits.toList_string (digits : Digits) : digits.string.toList = digits.chars :=
  String.toList_ofList

theorem Digits.isBlank_string (digits : Digits) :
    ∀ c ∈ digits.string.toList, Text.isBlank c = false := by
  intro c hc
  rw [digits.toList_string] at hc
  exact Text.isBlank_of_isDigit (digits.isDigit c hc)

/-- The digits as an operand. -/
def Digits.operand (digits : Digits) : Operand := ⟨none, .plain digits none⟩

/-- The number that the digits write, rounded once. -/
def Digits.number (digits : Digits) : Binary64 :=
  Decimal.toBinary64 false ⟨Decimal.ofDigits digits.chars, 0⟩

theorem Digits.operand_text (digits : Digits) : digits.operand.text = digits.chars := by
  simp [operand, Operand.text, Sign.text, Numeral.plain_text]

theorem Digits.operand_value (digits : Digits) : digits.operand.value = digits.number := by
  have hvalue : digits.operand.value = (Numeral.plain digits none).decimal.toBinary64 false := rfl
  rw [hvalue, Numeral.plain_decimal]
  simp [number]

theorem Digits.read_chars (digits : Digits) : Binary64.read? digits.chars = some digits.number := by
  have hread := digits.operand.read_text
  rwa [digits.operand_text, digits.operand_value] at hread

/-- Digits alone are an expression of one operand. -/
theorem reduce_digits (digits : Digits) :
    reduce digits.string = if digits.number.isFinite then .ok digits.number else
      .error (.malformedExpression digits.string .notFinite) := by
  let e : Expression Operand := ⟨⟨digits.operand, []⟩, []⟩
  have htext : e.text = digits.string.toList := by
    rw [digits.toList_string, ← digits.operand_text]
    simp [e, Expression.text, Expression.spell, Term.spell]
  have hvalue : e.value Operand.value = digits.number := digits.operand_value
  have hzero : e.dividesByZero Operand.value = false := rfl
  rw [reduce_text htext, Expression.outcome, hzero, hvalue]
  rfl

/-- The cut takes digits whole where no character of a literal comes next. -/
theorem cut_numeral_digits (digits : Digits) {tail : List Char}
    (htail : NotStarting isLiteralChar tail) :
    Cut.numeral (digits.chars ++ tail) = (digits.chars, tail) := by
  have not_starting {kind : Char → Bool} (h : ∀ c, isLiteralChar c = false → kind c = false) :
      NotStarting kind tail := fun c hc => h c (htail c hc)
  have hdigit : NotStarting Char.isDigit tail := not_starting fun c hc => by
    simp only [isLiteralChar, Bool.or_eq_false_iff] at hc
    exact hc.1.1.1
  have hpoint : NotStarting (· == '.') tail := not_starting fun c hc => by
    simp only [isLiteralChar, Bool.or_eq_false_iff] at hc
    exact hc.1.1.2
  have hmark : NotStarting (fun c => c == 'e' || c == 'E') tail := not_starting fun c hc => by
    simp only [isLiteralChar, Bool.or_eq_false_iff] at hc
    rw [hc.1.2, hc.2]
    rfl
  have hsign := cut_sign none (digits.notStarting_sign.append digits.nonempty tail)
  have hsigned := cut_andThen hsign (cut_digits digits.isDigit hdigit)
  have hfraction : Cut.fraction ([] ++ tail) = ([], tail) := cut_unmarked hpoint
  have hexponent : Cut.exponent ([] ++ tail) = ([], tail) := cut_unmarked hmark
  have hall := cut_andThen (cut_andThen hsigned hfraction) hexponent
  simpa only [Cut.numeral, Sign.text, List.nil_append, List.append_nil] using hall

/-- The lexer stops at a character that is in no expression. -/
theorem lexFrom_foreign (afterNumber : Bool) {c : Char} (cs : List Char)
    (hc : isExpressionChar c = false) (hparenthesis : ¬ (c = '(' ∨ c = ')')) :
    Lexeme.lexFrom afterNumber (c :: cs) = .error (.unexpectedCharacter c) := by
  have hstart : Lexeme.startsNumber afterNumber c cs = false := by
    simp only [isExpressionChar, Bool.or_eq_false_iff] at hc
    simp [Lexeme.startsNumber, Cut.startsNumeral, Cut.isSign, hc]
  have hop : Operator.ofChar? c = none := by
    cases hop : Operator.ofChar? c with
    | none => rfl
    | some op =>
      obtain rfl := toChar_of_ofChar hop
      rw [op.isExpressionChar_toChar] at hc
      cases hc
  apply lexFrom_of_next_error
  rw [Lexeme.next, hstart, if_neg Bool.false_ne_true, hop]
  dsimp only
  rw [if_neg hparenthesis]

/-- Digits and a decimal digit of another script are no expression. -/
theorem reduce_foreign {before after : List Char} {c : Char}
    (hbefore : ∀ d ∈ before, d.isDigit = true) (hc : Text.isDecimalDigit c = true)
    (hdigit : c.isDigit = false) :
    reduce (String.ofList (before ++ c :: after)) = .error
      (.malformedExpression (String.ofList (before ++ c :: after)) (.unexpectedCharacter c)) := by
  have hforeign := Text.isExpressionChar_of_isDecimalDigit hc hdigit
  have hparenthesis : ¬ (c = '(' ∨ c = ')') := by
    rintro (rfl | rfl) <;> revert hc <;> decide
  have hlex : Lexeme.lex (before ++ c :: after) = .error (.unexpectedCharacter c) := by
    unfold Lexeme.lex
    by_cases hne : before = []
    · rw [hne]
      exact lexFrom_foreign false after hforeign hparenthesis
    · let digits : Digits := ⟨before, hne, hbefore⟩
      have htail : NotStarting isLiteralChar (c :: after) := by
        rw [notStarting_cons, Bool.eq_false_iff]
        intro hliteral
        rw [isExpressionChar_of_isLiteralChar hliteral] at hforeign
        cases hforeign
      have hcut : Cut.numeral (before ++ c :: after) = (before, c :: after) :=
        cut_numeral_digits digits htail
      have hread : Binary64.read? before = some digits.number := digits.read_chars
      obtain ⟨d, ds, rfl⟩ := List.exists_cons_of_ne_nil hne
      have hstart : Lexeme.startsNumber false d (ds ++ c :: after) = true := by
        simp [Lexeme.startsNumber, Cut.startsNumeral, hbefore d List.mem_cons_self]
      have hnext : Lexeme.next false d (ds ++ c :: after) =
          .ok (.number (d :: ds) digits.number, c :: after) := by
        rw [List.cons_append] at hcut
        simp only [Lexeme.next, hstart, ↓reduceIte, hcut, hread]
      rw [List.cons_append, lexFrom_of_next hnext, lexFrom_foreign _ after hforeign hparenthesis]
      rfl
  exact reduce_of_lex_error (by rw [String.toList_ofList, hlex])

end Grammar

/-! ## Declared elements -/

variable {store store' : Store} {name : Letters} {payload statement : String}

/-- A statement in the brackets of an array assignment registers an array or nothing. -/
theorem Line.form_of_bracketed
    (hstatement : Text.trim statement = name.named '@' ++ "=[ " ++ payload ++ " ]")
    {line : Line} (hparse : parse statement = .ok line) :
    line.form = .arrayAssign (name.named '@') payload ∨ ∃ symbols, line.form = .plain symbols := by
  have htext : (Text.trim statement).toList =
      Shape.bracketed '@' "=[ " " ]" name payload.toList := by
    simp [hstatement, Shape.bracketed, Letters.toList_named]
  obtain ⟨-, hderives⟩ := parse_eq_ok_iff.mp hparse
  cases hform : line.form with
  | plain symbols => exact .inr ⟨symbols, rfl⟩
  | scalarAssign =>
    rw [hform] at hderives
    cases hderives with
    | scalarAssign shape => exact absurd (List.cons.inj (shape.trans htext)).1 (by decide)
  | arrayAssign =>
    rw [hform] at hderives
    cases hderives with
    | arrayAssign shape =>
      obtain ⟨rfl, hpayload⟩ := Shape.bracketed_inj Shape.opens_arrayAssign (shape.trans htext)
      rw [hpayload, String.ofList_toList]
      exact .inl rfl
  | call =>
    rw [hform] at hderives
    cases hderives with
    | call shape => exact absurd (List.cons.inj (shape.trans htext)).1 (by decide)

/-- The elements of an array that was declared are its pieces, and these are decimal digits. -/
theorem entry_of_declared
    (hstatement : Text.trim statement = name.named '@' ++ "=[ " ++ payload ++ " ]")
    (h : evaluateStatement reduce store statement = (.ok .nop, store')) :
    store'.entries[name.named '@']? = some (.array (Text.pieces ',' payload)) ∧
      ∀ element ∈ Text.pieces ',' payload, element ≠ "" ∧
        ∀ c ∈ element.toList, Text.isDecimalDigit c = true := by
  unfold evaluateStatement at h
  split at h
  · cases h
  next line hparse =>
  obtain ⟨hresult, rfl⟩ := Prod.mk.inj h
  have hline := Line.Reachable.parse hparse
  have houtcome : Line.Outcome store line.form (line.evaluate reduce store) :=
    Line.evaluate_outcome hline.wellFormed.target
  rw [Line.Outcome, hresult] at houtcome
  have hextends := Line.evaluate_extends hline reduce store
  generalize (line.evaluate reduce store).store = after at houtcome hextends
  rcases Line.form_of_bracketed hstatement hparse with hform | ⟨symbols, hform⟩
  · rw [hform] at houtcome
    cases houtcome with
    | arrayAssign _ free =>
      have hentry : (store.entries.insert (name.named '@')
          (.array (Text.pieces ',' payload)))[name.named '@']? =
            some (.array (Text.pieces ',' payload)) := Std.ExtTreeMap.getElem?_insert_self
      refine ⟨hentry, ?_⟩
      cases (hextends.added hentry free).2 rfl with
      | array elements => exact elements
  · rw [hform] at houtcome
    cases houtcome

/-- **Declared elements as operands**: an element of a declared array comes to the number that
its digits write, rounded once, or fails because this number is beyond the format. That holds
where the digits are ASCII digits; otherwise the element fails at the first that is not, although
the declaration was accepted. -/
theorem evaluateStatement_declared
    (hstatement : Text.trim statement = name.named '@' ++ "=[ " ++ payload ++ " ]")
    (h : evaluateStatement reduce store statement = (.ok .nop, store')) {i : Nat} {element : String}
    (hi : (Text.pieces ',' payload)[i]? = some element) :
    let result := (evaluateStatement reduce store' (name.element (.ofNat i))).1
    let v := Decimal.toBinary64 false ⟨Decimal.ofDigits element.toList, 0⟩
    ((∀ c ∈ element.toList, c.isDigit = true) →
      (v.isFinite = true ∧ result = .ok (.number v)) ∨
        (v.isFinite = false ∧ result = .error (.malformedExpression element .notFinite))) ∧
    (∀ before c after, element.toList = before ++ c :: after →
      (∀ d ∈ before, d.isDigit = true) → c.isDigit = false →
        result = .error (.malformedExpression element (.unexpectedCharacter c))) := by
  obtain ⟨hentry, hdecimal⟩ := entry_of_declared hstatement h
  obtain ⟨hlength, rfl⟩ := List.getElem?_eq_some_iff.mp hi
  obtain ⟨hne, hdigits⟩ := hdecimal _ (List.getElem_mem hlength)
  have hvalue := evaluateStatement_element (Store.value_element_ofNat hentry hlength)
  generalize (Text.pieces ',' payload)[i] = element at hne hdigits hvalue
  intro result v
  have hresult : result = (reduce element).map .number := hvalue
  refine ⟨fun hascii => ?_, fun before c after hsplit hbefore hc => ?_⟩
  · have hnonempty : element.toList ≠ [] := by simpa using hne
    let digits : Digits := ⟨element.toList, hnonempty, hascii⟩
    have hstring : digits.string = element := String.ofList_toList
    have hreduce := reduce_digits digits
    rw [hstring] at hreduce
    have hnumber : digits.number = v := rfl
    rw [hnumber] at hreduce
    rw [hresult, hreduce]
    cases v.isFinite with
    | true => exact .inl ⟨rfl, rfl⟩
    | false => exact .inr ⟨rfl, rfl⟩
  · have hmem : c ∈ element.toList := by
      rw [hsplit]
      exact List.mem_append_right _ List.mem_cons_self
    have hreduce := @reduce_foreign before after c hbefore (hdigits c hmem) hc
    rw [← hsplit, String.ofList_toList] at hreduce
    rw [hresult, hreduce]
    rfl

/-- Both kinds of digits in one declaration. -/
theorem evaluateStatement_declared_kinds :
    let declared := evaluateStatement reduce .empty "@A=[ 07,1\u0663 ]"
    declared.1 = .ok .nop ∧
      (evaluateStatement reduce declared.2 "A[0]").1 = .ok (.number (.ofNat 7)) ∧
      (evaluateStatement reduce declared.2 "A[1]").1 =
        .error (.malformedExpression "1\u0663" (.unexpectedCharacter '\u0663')) := by
  intro declared
  have hnop : declared.1 = .ok .nop := eq_ok_of_toOption (by decide +kernel)
  obtain ⟨letters, hname, hchars⟩ : ∃ letters : Letters, letters.named '@' = "@A" ∧
      letters.chars = ['A'] := ⟨⟨['A'], by decide, List.forall_mem_singleton.mpr rfl⟩, rfl, rfl⟩
  have hstatement : Text.trim "@A=[ 07,1\u0663 ]" =
      letters.named '@' ++ "=[ " ++ "07,1\u0663" ++ " ]" := by
    rw [hname]
    decide
  have hdeclared : evaluateStatement reduce .empty "@A=[ 07,1\u0663 ]" = (.ok .nop, declared.2) := by
    rw [← hnop]
  have hfirst := (evaluateStatement_declared hstatement hdeclared (i := 0) rfl).1
    (List.all_eq_true.mp (by decide))
  have hsecond := (evaluateStatement_declared hstatement hdeclared (i := 1) rfl).2
    ['1'] '\u0663' [] (by decide) (List.forall_mem_singleton.mpr rfl) (by decide)
  simp only [Letters.element, hchars] at hfirst hsecond
  refine ⟨hnop, ?_, hsecond⟩
  rcases hfirst with ⟨-, hresult⟩ | ⟨hfinite, -⟩
  · exact hresult.trans (congrArg (fun x => Except.ok (Value.number x)) (by decide +kernel))
  · exact absurd hfinite (by decide +kernel)

/-- A declaration of one digit that is not an ASCII digit is accepted, and its element is no
operand. -/
theorem declared_element_foreign :
    let declared := evaluateStatement reduce .empty "@A=[ \u0663 ]"
    declared.1 = .ok .nop ∧ (evaluateStatement reduce declared.2 "A[0]").1 =
      .error (.malformedExpression "\u0663" (.unexpectedCharacter '\u0663')) := by
  decide +kernel

end ArithScript
