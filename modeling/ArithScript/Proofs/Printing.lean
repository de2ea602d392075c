import ArithScript.Proofs.Lexing
import ArithScript.Proofs.Lines
import ArithScript.Proofs.NumberText

/-!
# Printed lines are read back

The text of a parsed line is a statement again, and of the same line
(`Line.Derives.text`). Printing rewrites numerals and drops the blanks around
tokens, so the text need not be the statement that was parsed, but every token
is classified as before (`Symbol.classify_source`), and an expression does not
take on a bracketed shape, because no symbol is written like the start of one
(`Line.Tokens.shapeless`). Resolution and evaluation change values and never
names, so the text stays what it is.
-/

namespace ArithScript

open Grammar

/-! ## Characters of numbers -/

/-- The characters of numbers without a sign and an exponent. -/
def isPlainChar (c : Char) : Bool := c.isDigit || c == '.'

/-- The characters of literals. -/
def isLiteralChar (c : Char) : Bool := c.isDigit || c == '.' || c == 'e' || c == 'E'

/-- The characters of numerals and operators. -/
def isExpressionChar (c : Char) : Bool :=
  c.isDigit || c == '.' || c == 'e' || c == 'E' || c == '+' || c == '-' || c == '*' || c == '/'

theorem isLiteralChar_of_isPlainChar {c : Char} (h : isPlainChar c = true) :
    isLiteralChar c = true := by
  simp only [isPlainChar] at h
  simp [isLiteralChar, h]

theorem isExpressionChar_of_isLiteralChar {c : Char} (h : isLiteralChar c = true) :
    isExpressionChar c = true := by
  simp only [isLiteralChar] at h
  simp [isExpressionChar, h]

/-- A text of such characters is not a name. -/
theorem shape?_of_isExpressionChar {text : String}
    (h : ∀ c ∈ text.toList, isExpressionChar c = true) : Name.shape? text = none := by
  rw [Option.eq_none_iff_forall_not_mem]
  intro shape hshape
  obtain ⟨⟨c, hc, hmark⟩, -⟩ := (Name.hasShape_of_shape? hshape).chars
  have hchar := h c hc
  simp only [Name.isMark, Bool.or_eq_true, beq_iff_eq] at hmark
  rcases hmark with (((rfl | rfl) | rfl) | rfl) | rfl <;> cases hchar

theorem isBlank_of_isExpressionChar {c : Char} (h : isExpressionChar c = true) :
    Text.isBlank c = false := by
  simp only [isExpressionChar, Bool.or_eq_true, beq_iff_eq] at h
  rcases h with ((((((hdigit | rfl) | rfl) | rfl) | rfl) | rfl) | rfl) | rfl
  · exact Text.isBlank_of_isDigit hdigit
  all_goals decide

theorem ofChar?_of_isLiteralChar {c : Char} (h : isLiteralChar c = true) :
    Operator.ofChar? c = none := by
  cases hop : Operator.ofChar? c with
  | none => rfl
  | some op =>
    rw [← toChar_of_ofChar hop] at h
    cases op <;> cases h

theorem Text.trimmed_of_isExpressionChar {cs : List Char}
    (h : ∀ c ∈ cs, isExpressionChar c = true) : Text.Trimmed cs :=
  Text.trimmed_of_forall fun c hc => isBlank_of_isExpressionChar (h c hc)

theorem Grammar.Numeral.isPlainChar_plain {whole : Digits} {fraction : Option Digits} :
    ∀ c ∈ (Numeral.plain whole fraction).text, isPlainChar c = true := by
  intro c hc
  rw [Numeral.plain_text] at hc
  rcases List.mem_append.mp hc with hc | hc
  · simp [isPlainChar, whole.isDigit c hc]
  · cases fraction with
    | none => cases hc
    | some digits =>
      rcases List.mem_cons.mp hc with rfl | hc
      · rfl
      · simp [isPlainChar, digits.isDigit c hc]

/-! ## Tokens of printed numbers -/

namespace Symbol

theorem literal?_eq (token : List Char) : literal? token = if token.all isLiteralChar then
    ((Decimal.read? token).map (Decimal.toBinary64 false)).filter Binary64.isFinite else none := rfl

theorem isLiteralChar_of_literal? {token : List Char} {x : Binary64} (h : literal? token = some x) :
    ∀ c ∈ token, isLiteralChar c = true := by
  rw [literal?_eq] at h
  split at h
  · next hall => exact List.all_eq_true.mp hall
  · cases h

theorem literal?_plain {whole : Digits} {fraction : Option Digits} {x : Binary64}
    (hvalue : (Numeral.plain whole fraction).decimal.toBinary64 false = x)
    (hfinite : x.isFinite = true) :
    literal? (Numeral.plain whole fraction).text = some x := by
  have hchars : (Numeral.plain whole fraction).text.all isLiteralChar = true :=
    List.all_eq_true.mpr fun c hc => isLiteralChar_of_isPlainChar (Numeral.isPlainChar_plain c hc)
  rw [literal?_eq, if_pos hchars, Numeral.read_text, Option.map_some, hvalue]
  simp [Option.filter, hfinite]

theorem classify_trim (token : String) : classify (Text.trim token) = classify token := by
  unfold classify
  rw [Text.trim_trim]

/-- A token with an operator in it that is no name is taken whole. -/
theorem classify_operator {token : String} (htrimmed : Text.Trimmed token.toList)
    (hshape : Name.shape? token = none)
    (hoperator : ∃ c ∈ token.toList, (Operator.ofChar? c).isSome = true) :
    classify token = .ok (.operator token) := by
  unfold classify
  rw [htrimmed.trim_eq]
  dsimp only
  rw [hshape]
  dsimp only
  rw [if_pos (List.any_eq_true.mpr hoperator)]

/-- A token that is no name and has no operator in it is a literal, or nothing. -/
theorem classify_nameless {token : String} (htrimmed : Text.Trimmed token.toList)
    (hshape : Name.shape? token = none)
    (hoperator : ∀ c ∈ token.toList, Operator.ofChar? c = none) :
    classify token = match literal? token.toList with
      | some x => .ok (.number x)
      | none => .error (.invalidSymbol token) := by
  have hany : (token.toList.any fun c => (Operator.ofChar? c).isSome) = false := by
    rw [List.any_eq_false]
    intro c hc
    simp [hoperator c hc]
  unfold classify
  rw [htrimmed.trim_eq]
  dsimp only
  rw [hshape, hany]
  dsimp only
  rw [if_neg Bool.false_ne_true]
  cases literal? token.toList <;> rfl

/-- The tokens that are numbers are the literals, blanks around them aside. -/
theorem classify_eq_number_iff {token : String} {x : Binary64} :
    classify token = .ok (.number x) ↔ literal? (Text.trim token).toList = some x := by
  constructor
  · intro h
    cases classified h with
    | number literal => exact literal
  · intro h
    have hchars := isLiteralChar_of_literal? h
    have hshape := shape?_of_isExpressionChar fun c hc =>
      isExpressionChar_of_isLiteralChar (hchars c hc)
    rw [← classify_trim, classify_nameless (Text.trimmed_trim token) hshape
      fun c hc => ofChar?_of_isLiteralChar (hchars c hc), h]

/-- The text of a number without a sign is the numeral of this number. -/
theorem exists_plain_of_text (m : Magnitude) : ∃ (whole : Digits) (fraction : Option Digits),
    (Binary64.finite false m).text.toList = (Numeral.plain whole fraction).text ∧
      (Numeral.plain whole fraction).decimal.toBinary64 false = .finite false m := by
  obtain ⟨whole, fraction, htext, hvalue⟩ := exists_operand_of_text false m
  rw [Bool.false_and] at htext hvalue
  refine ⟨whole, fraction, ?_, by rw [← minus_value, hvalue, unsignedZero_unsigned]⟩
  rw [htext, String.toList_ofList]
  rfl

theorem isPlainChar_text (m : Magnitude) :
    ∀ c ∈ (Binary64.finite false m).text.toList, isPlainChar c = true := by
  obtain ⟨whole, fraction, htext, -⟩ := exists_plain_of_text m
  rw [htext]
  exact Numeral.isPlainChar_plain

theorem trimmed_text (m : Magnitude) : Text.Trimmed (Binary64.finite false m).text.toList :=
  Text.trimmed_of_isExpressionChar fun c hc =>
    isExpressionChar_of_isLiteralChar (isLiteralChar_of_isPlainChar (isPlainChar_text m c hc))

theorem classify_text (m : Magnitude) :
    classify (Binary64.finite false m).text = .ok (.number (.finite false m)) := by
  obtain ⟨whole, fraction, htext, hread⟩ := exists_plain_of_text m
  rw [classify_eq_number_iff, (trimmed_text m).trim_eq, htext]
  exact literal?_plain hread rfl

/-! ## Tokens of parsed statements -/

/-- A symbol is written as the token that it was, blanks aside, or is a number. -/
theorem classify_cases {token : String} {s : Symbol} (h : classify token = .ok s) :
    s.source = Text.trim token ∨ ∃ x, s = .number x := by
  cases classified h with
  | scalar | operator | element => exact .inl rfl
  | number => exact .inr ⟨_, rfl⟩

/-- A written symbol is read as the symbol. -/
theorem classify_source {token : String} {s : Symbol} (h : classify token = .ok s) :
    classify s.source = .ok s := by
  rcases classify_cases h with hsource | ⟨x, rfl⟩
  · rw [hsource, classify_trim, h]
  · obtain ⟨m, rfl⟩ := classify_inPhase h
    exact classify_text m

theorem classify_empty : classify "" = .error (.invalidSymbol "") := by
  rfl

/-- What a written symbol is made of: no blanks at its ends, and no character
that was not in the token, save those of numbers. -/
theorem source_chars {token : String} {s : Symbol} (h : classify token = .ok s) :
    Text.Trimmed s.source.toList ∧ s.source ≠ "" ∧
      ∀ c ∈ s.source.toList, c ∈ token.toList ∨ isPlainChar c = true := by
  have hne : s.source ≠ "" := by
    intro hempty
    have hsource := classify_source h
    rw [hempty, classify_empty] at hsource
    cases hsource
  rcases classify_cases h with hsource | ⟨x, rfl⟩
  · rw [hsource] at hne ⊢
    exact ⟨Text.trimmed_trim token, hne, fun c hc => .inl (Text.mem_of_mem_trim hc)⟩
  · obtain ⟨m, rfl⟩ := classify_inPhase h
    exact ⟨trimmed_text m, hne, fun c hc => .inr (isPlainChar_text m c hc)⟩

end Symbol

/-! ## The ends of a bracketed statement -/

namespace Shape

theorem trimmed_text (shape : Shape) : Text.Trimmed shape.text := by
  have sigiled (sigil last : Char) (hsigil : Text.isBlank sigil = false)
      (hlast : Text.isBlank last = false) (middle : List Char) :
      Text.Trimmed ([sigil] ++ middle ++ [last]) :=
    (Text.trimmed_of_forall (by simpa using hsigil)).append
      (Text.trimmed_of_forall (by simpa using hlast)) (List.cons_ne_nil _ _) (List.cons_ne_nil _ _)
  cases shape with
  | scalarAssign name body =>
    have h := sigiled '$' ')' rfl rfl
      (name.chars ++ ("=( ".toList ++ (body.chars ++ [' '])))
    simpa [text, bracketed] using h
  | arrayAssign name payload =>
    have h := sigiled '@' ']' rfl rfl
      (name.chars ++ ("=[ ".toList ++ (payload.chars ++ [' '])))
    simpa [text, bracketed] using h
  | call name argument =>
    have h := sigiled '#' ')' rfl rfl
      (name.chars ++ ("( ".toList ++ (argument.name.toList ++ [' '])))
    simpa [text, bracketed] using h

/-- What stands before the first space of a statement of the shape. -/
def opening : Shape → List Char
  | scalarAssign name _ => '$' :: (name.chars ++ ['=', '('])
  | arrayAssign name _ => '@' :: (name.chars ++ ['=', '['])
  | call name _ => '#' :: (name.chars ++ ['('])

theorem exists_text_eq (shape : Shape) : ∃ tail, shape.text = shape.opening ++ ' ' :: tail := by
  cases shape with
  | scalarAssign name body => exact ⟨body.chars ++ " )".toList, by simp [text, bracketed, opening]⟩
  | arrayAssign name payload =>
    exact ⟨payload.chars ++ " ]".toList, by simp [text, bracketed, opening]⟩
  | call name argument =>
    exact ⟨argument.name.toList ++ " )".toList, by simp [text, bracketed, opening]⟩

theorem opening_chars (shape : Shape) :
    ∀ c ∈ shape.opening, Name.isMark c = true ∨ c.isUpper = true ∨ c = '=' ∨ c = '(' := by
  have sigiled (sigil : Char) (hsigil : Name.isMark sigil = true) (name : Letters)
      (ending : List Char) (hending : ∀ c ∈ ending, Name.isMark c = true ∨ c = '=' ∨ c = '(') :
      ∀ c ∈ sigil :: (name.chars ++ ending),
        Name.isMark c = true ∨ c.isUpper = true ∨ c = '=' ∨ c = '(' := by
    intro c hc
    rcases List.mem_cons.mp hc with rfl | hc
    · exact .inl hsigil
    · rcases List.mem_append.mp hc with hc | hc
      · exact .inr (.inl (name.isUpper c hc))
      · exact (hending c hc).imp_right .inr
  cases shape with
  | scalarAssign name body => exact sigiled '$' rfl name ['=', '('] (by simp [Name.isMark])
  | arrayAssign name payload => exact sigiled '@' rfl name ['=', '['] (by simp [Name.isMark])
  | call name argument => exact sigiled '#' rfl name ['('] (by simp [Name.isMark])

/-- No blank, no operator and no character of a literal is among them. -/
theorem opening_char {c : Char}
    (h : Name.isMark c = true ∨ c.isUpper = true ∨ c = '=' ∨ c = '(') :
    Text.isBlank c = false ∧ Operator.ofChar? c = none := by
  rcases h with hmark | hupper | rfl | rfl
  · simp only [Name.isMark, Bool.or_eq_true, beq_iff_eq] at hmark
    rcases hmark with (((rfl | rfl) | rfl) | rfl) | rfl <;> decide
  · refine ⟨Text.isBlank_of_isUpper hupper, ?_⟩
    cases hop : Operator.ofChar? c with
    | none => rfl
    | some op =>
      rw [← toChar_of_ofChar hop] at hupper
      cases op <;> cases hupper
  · decide
  · decide

theorem trimmed_opening (shape : Shape) : Text.Trimmed shape.opening :=
  Text.trimmed_of_forall fun c hc => (opening_char (shape.opening_chars c hc)).1

theorem shape?_opening (shape : Shape) : Name.shape? (String.ofList shape.opening) = none := by
  have hforeign : ∃ c ∈ shape.opening, c = '=' ∨ c = '(' := by
    cases shape with
    | scalarAssign | arrayAssign => exact ⟨'=', by simp [opening], .inl rfl⟩
    | call => exact ⟨'(', by simp [opening], .inr rfl⟩
  rw [Option.eq_none_iff_forall_not_mem]
  intro found hfound
  obtain ⟨-, hchars⟩ := (Name.hasShape_of_shape? hfound).chars
  rw [String.toList_ofList] at hchars
  obtain ⟨c, hc, hforeign⟩ := hforeign
  have hname := hchars c hc
  rcases hforeign with rfl | rfl
  · exact absurd hname (by decide)
  · exact absurd hname (by decide)

theorem literal?_opening (shape : Shape) : Symbol.literal? shape.opening = none := by
  cases shape <;> rfl

/-- The start of a bracketed statement is no symbol. -/
theorem classify_opening (shape : Shape) :
    Symbol.classify (String.ofList shape.opening) =
      .error (.invalidSymbol (String.ofList shape.opening)) := by
  rw [Symbol.classify_nameless (by rw [String.toList_ofList]; exact shape.trimmed_opening)
    shape.shape?_opening, String.toList_ofList, shape.literal?_opening]
  intro c hc
  rw [String.toList_ofList] at hc
  exact (opening_char (shape.opening_chars c hc)).2

end Shape

/-! ## Printed expressions -/

namespace Line

variable {body : String} {symbols : List Symbol}

theorem Tokens.ne_nil (h : Tokens body symbols) : symbols ≠ [] := by
  rintro rfl
  obtain ⟨hne, -⟩ := Text.pieces_eq_iff.mp (rfl : Text.pieces ' ' body = _)
  exact hne (List.map_eq_nil_iff.mp h.classify)

/-- A text without spaces that is a symbol is cut into this symbol. -/
theorem Tokens.single {text : String} {s : Symbol} (hspace : ' ' ∉ text.toList)
    (h : Symbol.classify text = .ok s) : Tokens text [s] := by
  have hpieces : Text.pieces ' ' text = [text] :=
    Text.pieces_eq_iff.mpr ⟨List.cons_ne_nil _ _, by simpa using hspace, by simp⟩
  refine ⟨?_, by rw [hpieces, List.map_singleton, h, List.map_singleton]⟩
  rw [hpieces, List.mem_singleton]
  rintro rfl
  rw [Symbol.classify_empty] at h
  cases h

/-- With a space between them, two texts are cut into the symbols of the one and of the other. -/
theorem Tokens.append {body' : String} {symbols' : List Symbol} (h : Tokens body symbols)
    (h' : Tokens body' symbols') :
    Tokens (body ++ ' '.toString ++ body') (symbols ++ symbols') := by
  constructor
  · rw [Text.pieces_append, List.mem_append]
    exact not_or.mpr ⟨h.nonempty, h'.nonempty⟩
  · rw [Text.pieces_append, List.map_append, h.classify, h'.classify, List.map_append]

/-- A text that is cut into symbols does not start as a bracketed statement does. -/
theorem Tokens.toList_ne (h : Tokens body symbols) (shape : Shape) (tail : List Char) :
    body.toList ≠ shape.opening ++ ' ' :: tail := by
  intro hopening
  -- There is no space before the one after the bracket, so the opening is a piece.
  have hspace : ' ' ∉ shape.opening := fun hmem => by
    have hblank := (Shape.opening_char (shape.opening_chars ' ' hmem)).1
    exact absurd hblank (by decide)
  have hfirst : String.ofList shape.opening ∈ Text.pieces ' ' body := by
    rw [Text.pieces, hopening, List.splitOn_append_cons_self_of_not_mem hspace]
    exact List.mem_cons_self
  obtain ⟨s, -, hs⟩ := h.exists_symbol hfirst
  rw [shape.classify_opening] at hs
  cases hs

/-- A text that is cut into symbols is no bracketed statement. -/
theorem Tokens.shapeless (h : Tokens body symbols) (shape : Shape) :
    shape.text ≠ body.toList := by
  intro htext
  obtain ⟨tail, hopening⟩ := shape.exists_text_eq
  exact h.toList_ne shape tail (htext.symm.trans hopening)

theorem sources_toList (symbols : List Symbol) :
    (Form.sources symbols).toList =
      [' '].intercalate ((symbols.map Symbol.source).map String.toList) :=
  String.toList_intercalate

/-- The pieces of a printed expression are its printed symbols. -/
theorem Tokens.pieces_sources (h : Tokens body symbols) :
    Text.pieces ' ' (Form.sources symbols) = symbols.map Symbol.source := by
  obtain ⟨-, hpieces, -⟩ := Text.pieces_eq_iff.mp (rfl : Text.pieces ' ' body = _)
  refine Text.pieces_eq_iff.mpr ⟨by simpa using h.ne_nil, ?_, (sources_toList symbols).symm⟩
  intro part hpart
  obtain ⟨s, hs, rfl⟩ := List.mem_map.mp hpart
  obtain ⟨token, htoken, hclassify⟩ := h.exists_token hs
  obtain ⟨-, -, hchars⟩ := Symbol.source_chars hclassify
  intro hmem
  rcases hchars ' ' hmem with hspace | hspace
  · exact hpieces token htoken hspace
  · cases hspace

/-- A printed expression is cut into the symbols that it prints. -/
theorem Tokens.sources (h : Tokens body symbols) : Tokens (Form.sources symbols) symbols := by
  refine ⟨?_, ?_⟩
  · rw [h.pieces_sources]
    intro hempty
    obtain ⟨s, hs, hsource⟩ := List.mem_map.mp hempty
    obtain ⟨token, -, hclassify⟩ := h.exists_token hs
    exact (Symbol.source_chars hclassify).2.1 hsource
  · rw [h.pieces_sources, List.map_map]
    refine List.map_congr_left fun s hs => ?_
    obtain ⟨token, -, hclassify⟩ := h.exists_token hs
    rw [Function.comp_apply, Symbol.classify_source hclassify]

theorem Tokens.trimmed_sources (h : Tokens body symbols) :
    Text.Trimmed (Form.sources symbols).toList ∧ (Form.sources symbols).toList ≠ [] := by
  rw [sources_toList]
  refine Text.trimmed_intercalate (by simpa using h.ne_nil) ?_
  intro part hpart
  obtain ⟨text, htext, rfl⟩ := List.mem_map.mp hpart
  obtain ⟨s, hs, rfl⟩ := List.mem_map.mp htext
  obtain ⟨token, -, hclassify⟩ := h.exists_token hs
  obtain ⟨htrimmed, hne, -⟩ := Symbol.source_chars hclassify
  exact ⟨htrimmed, by simpa using hne⟩

/-- An expression on one line is printed on one line. -/
theorem Tokens.oneLine_sources (h : Tokens body symbols) (hline : '\n' ∉ body.toList) :
    '\n' ∉ (Form.sources symbols).toList := by
  obtain ⟨-, -, hbody⟩ := Text.pieces_eq_iff.mp (rfl : Text.pieces ' ' body = _)
  rw [sources_toList, Text.mem_intercalate_iff (by decide)]
  rintro ⟨part, hpart, hmem⟩
  obtain ⟨text, htext, rfl⟩ := List.mem_map.mp hpart
  obtain ⟨s, hs, rfl⟩ := List.mem_map.mp htext
  obtain ⟨token, htoken, hclassify⟩ := h.exists_token hs
  rcases (Symbol.source_chars hclassify).2.2 '\n' hmem with hbreak | hbreak
  · apply hline
    rw [← hbody, Text.mem_intercalate_iff (by decide)]
    exact ⟨token.toList, List.mem_map_of_mem htoken, hbreak⟩
  · cases hbreak

/-! ## Printed statements -/

theorem toList_text_scalarAssign (name : Letters) (symbols : List Symbol) :
    (Form.scalarAssign (name.named '$') symbols).text.toList =
      Shape.bracketed '$' "=( " " )" name (Form.sources symbols).toList := by
  simp [Form.text, Letters.named, Shape.bracketed]

theorem toList_text_arrayAssign (name : Letters) (payload : Payload) :
    (Form.arrayAssign (name.named '@') (String.ofList payload.chars)).text.toList =
      (Shape.arrayAssign name payload).text := by
  simp [Form.text, Letters.named, Shape.text, Shape.bracketed]

theorem toList_text_call (name : Letters) (argument : Argument) :
    (Form.call (name.named '#') argument.name).text.toList =
      (Shape.call name argument).text := by
  simp [Form.text, Letters.named, Shape.text, Shape.bracketed]

/-- The text of a derived form has no blanks at its ends, and the form derives
from it too. -/
theorem Derives.text {statement : String} {form : Form} (h : Derives statement form) :
    Text.Trimmed form.text.toList ∧ Derives form.text form := by
  cases h with
  | @scalarAssign name body symbols hshape htokens =>
    have hline : '\n' ∉ (String.ofList body.chars).toList := by
      rw [String.toList_ofList]
      exact body.oneLine
    let printed : Body := ⟨_, htokens.trimmed_sources.2, htokens.oneLine_sources hline⟩
    have htext : (Shape.scalarAssign name printed).text =
        (Form.scalarAssign (name.named '$') symbols).text.toList :=
      (toList_text_scalarAssign name symbols).symm
    have hprinted : String.ofList printed.chars = Form.sources symbols := String.ofList_toList
    refine ⟨by rw [← htext]; exact Shape.trimmed_text _, .scalarAssign htext ?_⟩
    rw [hprinted]
    exact htokens.sources
  | @arrayAssign name payload =>
    have htext := (toList_text_arrayAssign name payload).symm
    exact ⟨by rw [← htext]; exact Shape.trimmed_text _, .arrayAssign htext⟩
  | @call name argument =>
    have htext := (toList_text_call name argument).symm
    exact ⟨by rw [← htext]; exact Shape.trimmed_text _, .call htext⟩
  | plain hshapeless htokens =>
    exact ⟨htokens.trimmed_sources.1, .plain htokens.sources.shapeless htokens.sources⟩

/-- A printed line is read as the line. -/
theorem parse_text {statement : String} {line : Line} (h : parse statement = .ok line) :
    parse line.text = .ok line := by
  obtain ⟨hresolved, hderives⟩ := parse_eq_ok_iff.mp h
  obtain ⟨htrimmed, hprinted⟩ := hderives.text
  rw [parse_eq_ok_iff, text, htrimmed.trim_eq]
  exact ⟨hresolved, hprinted⟩

end Line

/-! ## Texts of lines in use -/

theorem Symbol.resolve_source {store : Store} {s s' : Symbol} (h : s.resolve store = .ok s') :
    s'.source = s.source := by
  rcases resolve_cases h with ⟨-, rfl⟩ | ⟨r, value, -, ⟨rfl, rfl⟩ | ⟨rfl, rfl⟩⟩
  · rfl
  · rfl
  · rfl

theorem Form.map_source_of_resolve {store : Store} {symbols symbols' : List Symbol}
    (h : symbols.mapM (Symbol.resolve store) = .ok symbols') :
    symbols'.map Symbol.source = symbols.map Symbol.source := by
  have hsources := (forall₂_of_mapM h).imp fun _ _ => Symbol.resolve_source
  rw [← List.forall₂_eq_eq_eq, List.forall₂_map_left_iff, List.forall₂_map_right_iff]
  exact hsources.flip

theorem Form.sources_of_resolve {store : Store} {symbols symbols' : List Symbol}
    (h : symbols.mapM (Symbol.resolve store) = .ok symbols') :
    sources symbols' = sources symbols := by
  rw [sources, sources, map_source_of_resolve h]

theorem Form.resolve_text {store : Store} {form form' : Form} (h : form.resolve store = .ok form') :
    form'.text = form.text := by
  cases form with
  | plain symbols =>
    obtain ⟨symbols', hsymbols, rfl⟩ := map_eq_ok.mp h
    exact sources_of_resolve hsymbols
  | scalarAssign target symbols =>
    obtain ⟨symbols', hsymbols, rfl⟩ := map_eq_ok.mp h
    rw [text, text, sources_of_resolve hsymbols]
  | arrayAssign | call =>
    cases h
    rfl

namespace Line

theorem resolve_text {store : Store} {line line' : Line} (h : line.resolve store = .ok line') :
    line'.text = line.text := by
  rcases resolve_cases h with ⟨-, rfl⟩ | ⟨-, form, hform, rfl⟩
  · rfl
  · exact Form.resolve_text hform

theorem use_text (line : Line) (u : Use) : (line.use u).text = line.text := by
  rcases line.use_cases u with h | ⟨store, h⟩
  · rw [h]
  · exact resolve_text h

theorem after_text (line : Line) (uses : List Use) : (line.after uses).text = line.text := by
  induction uses generalizing line with
  | nil => rfl
  | cons u uses ih =>
    have hrest : line.after (u :: uses) = (line.use u).after uses := rfl
    rw [hrest, ih, use_text]

/-- **Printing and parsing**: a parsed line is read back from its text, and also
from the text that it has after any uses in any stores, which is the same. -/
theorem parse_text_after {statement : String} {line : Line} (h : parse statement = .ok line)
    (uses : List Use) :
    parse line.text = .ok line ∧ (line.after uses).text = line.text ∧
      parse (line.after uses).text = .ok line := by
  have htext := line.after_text uses
  refine ⟨parse_text h, htext, ?_⟩
  rw [htext]
  exact parse_text h

/-- A numeral and the blanks around tokens are not printed as they were written,
and the line is resolved and has assigned its target when it is printed again. -/
theorem parse_text_after_assignment :
    let statement := "\t$Y=( 007.50 *\u2003 $X )"
    let line : Line := ⟨.scalarAssign "$Y" [.number (.ofRatio false (15 * unitsPerOne) 2),
      .operator "*", .scalar ⟨"$X", none⟩], false⟩
    let store : Store := ⟨.ofList [("$X", Entry.scalar "-2")], ∅⟩
    let used := line.after [.resolve .empty, .evaluate reduce store, .resolve .empty]
    parse statement = .ok line ∧ used.resolved = true ∧ used.text = "$Y=( 7.5 * $X )" ∧
      parse used.text = .ok line := by
  intro statement line store used
  have hparse : parse statement = .ok line := eq_ok_of_toOption (by decide +kernel)
  obtain ⟨-, htext, hused⟩ := parse_text_after hparse
    [.resolve .empty, .evaluate reduce store, .resolve .empty]
  exact ⟨hparse, by decide +kernel, htext.trans (by decide +kernel), hused⟩

end Line

end ArithScript
