import ArithScript.Line.Parser
import ArithScript.Proofs.Computations
import ArithScript.Proofs.Names
import ArithScript.Proofs.Texts

/-!
# The grammar of statements

The bracketed statements are the texts of three shapes:

    $letters=( body )       the body is not empty and has no line break
    @letters=[ payload ]    the payload is decimal digits and commas
    #letters( argument )    the argument is letters behind `$` or `@`

A text has at most one shape, with one name and one inside (`Shape.text_inj`), so
it does not matter in which order a parser tries them. `Line.parse` accepts what
derives from the grammar (`Derives`), and what it refuses has an empty piece or a
piece that is no symbol (`Untokenized`) where an expression is written
(`Expresses`).
-/

namespace ArithScript

open Grammar

/-! ## Shapes -/

/-- The inside of a scalar assignment. -/
@[ext]
structure Body where
  chars : List Char
  nonempty : chars ≠ []
  oneLine : '\n' ∉ chars

/-- The inside of an array assignment. -/
@[ext]
structure Payload where
  chars : List Char
  nonempty : chars ≠ []
  listed : ∀ c ∈ chars, Text.isDecimalDigit c = true ∨ c = ','

/-- The inside of a call: the name of a scalar or of an array. -/
@[ext]
structure Argument where
  sigil : Char
  isVariable : sigil = '$' ∨ sigil = '@'
  letters : Letters

def Argument.name (argument : Argument) : String := argument.letters.named argument.sigil

theorem Argument.name_inj {a b : Argument} (h : a.name = b.name) : a = b := by
  obtain ⟨hsigil, hletters⟩ := Letters.named_inj h
  exact Argument.ext hsigil hletters

/-- A bracketed statement. -/
inductive Shape where
  | scalarAssign (name : Letters) (body : Body)
  | arrayAssign (name : Letters) (payload : Payload)
  | call (name : Letters) (argument : Argument)

namespace Shape

/-- A name and an inside in brackets. -/
def bracketed (sigil : Char) (opening closing : String) (name : Letters) (inner : List Char) :
    List Char :=
  sigil :: (name.chars ++ (opening.toList ++ (inner ++ closing.toList)))

def text : Shape → List Char
  | scalarAssign name body => bracketed '$' "=( " " )" name body.chars
  | arrayAssign name payload => bracketed '@' "=[ " " ]" name payload.chars
  | call name argument => bracketed '#' "( " " )" name argument.name.toList

/-- The opening bracket ends the name. -/
structure Opens (opening : String) : Prop where
  nonempty : opening.toList ≠ []
  notStarting : NotStarting Char.isUpper opening.toList

theorem opens_scalarAssign : Opens "=( " := ⟨by decide, notStarting_cons.mpr (by decide)⟩

theorem opens_arrayAssign : Opens "=[ " := ⟨by decide, notStarting_cons.mpr (by decide)⟩

theorem opens_call : Opens "( " := ⟨by decide, notStarting_cons.mpr (by decide)⟩

variable {opening closing : String} {name name' : Letters} {inner inner' : List Char}

theorem bracketed_inj {sigil : Char} (hopening : Opens opening)
    (h : bracketed sigil opening closing name inner = bracketed sigil opening closing name' inner') :
    name = name' ∧ inner = inner' := by
  obtain ⟨-, h⟩ := List.cons.inj h
  obtain ⟨hname, htail⟩ := Letters.append_inj
    (hopening.notStarting.append hopening.nonempty _)
    (hopening.notStarting.append hopening.nonempty _) h
  exact ⟨hname, List.append_cancel_right (List.append_cancel_left htail)⟩

/-- A text has at most one shape, with one name and one inside. -/
theorem text_inj {a b : Shape} (h : a.text = b.text) : a = b := by
  cases a with
  | scalarAssign name body =>
    cases b with
    | scalarAssign name' body' =>
      obtain ⟨rfl, hbody⟩ := bracketed_inj opens_scalarAssign h
      rw [Body.ext hbody]
    | arrayAssign => exact absurd (List.cons.inj h).1 (by decide)
    | call => exact absurd (List.cons.inj h).1 (by decide)
  | arrayAssign name payload =>
    cases b with
    | scalarAssign => exact absurd (List.cons.inj h).1 (by decide)
    | arrayAssign name' payload' =>
      obtain ⟨rfl, hpayload⟩ := bracketed_inj opens_arrayAssign h
      rw [Payload.ext hpayload]
    | call => exact absurd (List.cons.inj h).1 (by decide)
  | call name argument =>
    cases b with
    | scalarAssign => exact absurd (List.cons.inj h).1 (by decide)
    | arrayAssign => exact absurd (List.cons.inj h).1 (by decide)
    | call name' argument' =>
      obtain ⟨rfl, hargument⟩ := bracketed_inj opens_call h
      rw [Argument.name_inj (String.toList_inj.mp hargument)]

end Shape

/-! ## Recognition of the shapes -/

namespace Line

theorem bracketed?_eq_some_iff {sigil : Char} {opening closing : String} {cs inner : List Char}
    {target : String} (hopening : Shape.Opens opening) :
    bracketed? sigil opening closing cs = some (target, inner) ↔ ∃ name : Letters,
      target = name.named sigil ∧ cs = Shape.bracketed sigil opening closing name inner := by
  constructor
  · intro h
    cases cs with
    | nil => cases h
    | cons c cs =>
      have hsplit := List.takeWhile_append_dropWhile (p := Char.isUpper) (l := cs)
      simp only [bracketed?] at h
      split at h
      · next inner' hinner =>
        split at h
        · next hok =>
          obtain ⟨rfl, hletters⟩ := hok
          cases h
          obtain ⟨rest, hrest, hclosing⟩ := Option.bind_eq_some_iff.mp hinner
          rw [List.isPrefixOf?_eq_some_iff_append_eq] at hrest
          rw [List.isSuffixOf?_eq_some_iff_append_eq] at hclosing
          refine ⟨⟨_, hletters, fun _ => of_mem_takeWhile⟩, rfl, ?_⟩
          rw [Shape.bracketed, hclosing, hrest, hsplit]
        · cases h
      · cases h
  · rintro ⟨name, rfl, rfl⟩
    have hstop : NotStarting Char.isUpper (opening.toList ++ (inner ++ closing.toList)) :=
      hopening.notStarting.append hopening.nonempty _
    have hprefix : opening.toList.isPrefixOf? (opening.toList ++ (inner ++ closing.toList)) =
        some (inner ++ closing.toList) := List.isPrefixOf?_eq_some_iff_append_eq.mpr rfl
    have hsuffix : closing.toList.isSuffixOf? (inner ++ closing.toList) = some inner :=
      List.isSuffixOf?_eq_some_iff_append_eq.mpr rfl
    simp only [bracketed?, Shape.bracketed, takeWhile_run name.isUpper hstop,
      dropWhile_run name.isUpper hstop, hprefix, Option.bind_some, hsuffix]
    rw [if_pos ⟨trivial, name.nonempty⟩]
    rfl

theorem scalarShape?_eq_some_iff {cs inner : List Char} {target : String} :
    scalarShape? cs = some (target, inner) ↔ ∃ (name : Letters) (body : Body),
      target = name.named '$' ∧ inner = body.chars ∧ cs = (Shape.scalarAssign name body).text := by
  rw [scalarShape?, Option.filter_eq_some_iff, bracketed?_eq_some_iff Shape.opens_scalarAssign]
  constructor
  · rintro ⟨⟨name, rfl, rfl⟩, hbody⟩
    obtain ⟨hne, hline⟩ := of_decide_eq_true hbody
    exact ⟨name, ⟨inner, hne, hline⟩, rfl, rfl, rfl⟩
  · rintro ⟨name, body, rfl, rfl, rfl⟩
    exact ⟨⟨name, rfl, rfl⟩, decide_eq_true ⟨body.nonempty, body.oneLine⟩⟩

theorem arrayShape?_eq_some_iff {cs inner : List Char} {target : String} :
    arrayShape? cs = some (target, inner) ↔ ∃ (name : Letters) (payload : Payload),
      target = name.named '@' ∧ inner = payload.chars ∧
        cs = (Shape.arrayAssign name payload).text := by
  rw [arrayShape?, Option.filter_eq_some_iff, bracketed?_eq_some_iff Shape.opens_arrayAssign]
  constructor
  · rintro ⟨⟨name, rfl, rfl⟩, hpayload⟩
    obtain ⟨hne, hall⟩ := of_decide_eq_true hpayload
    refine ⟨name, ⟨inner, hne, fun c hc => ?_⟩, rfl, rfl, rfl⟩
    simpa using List.all_eq_true.mp hall c hc
  · rintro ⟨name, payload, rfl, rfl, rfl⟩
    refine ⟨⟨name, rfl, rfl⟩, decide_eq_true ⟨payload.nonempty, List.all_eq_true.mpr ?_⟩⟩
    intro c hc
    simpa using payload.listed c hc

theorem callShape?_eq_some_iff {cs inner : List Char} {target : String} :
    callShape? cs = some (target, inner) ↔ ∃ (name : Letters) (argument : Argument),
      target = name.named '#' ∧ inner = argument.name.toList ∧
        cs = (Shape.call name argument).text := by
  rw [callShape?, Option.filter_eq_some_iff, bracketed?_eq_some_iff Shape.opens_call]
  constructor
  · rintro ⟨⟨name, rfl, rfl⟩, hargument⟩
    cases inner with
    | nil => cases hargument
    | cons c letters =>
      obtain ⟨hsigil, hletters⟩ := of_decide_eq_true hargument
      obtain ⟨letters, rfl⟩ := Name.isLetters_iff.mp hletters
      have hname : c :: letters.chars = (Argument.mk c hsigil letters).name.toList :=
        (Letters.toList_named letters c).symm
      exact ⟨name, ⟨c, hsigil, letters⟩, rfl, hname, by rw [Shape.text, ← hname]⟩
  · rintro ⟨name, argument, rfl, rfl, rfl⟩
    refine ⟨⟨name, rfl, rfl⟩, ?_⟩
    rw [Argument.name, Letters.toList_named]
    exact decide_eq_true ⟨argument.isVariable, Name.isLetters_chars _⟩

end Line

/-! ## Tokens -/

namespace Symbol

/-- What a token without blanks around it can be. -/
inductive Classified (token : String) : Symbol → Prop
  | scalar (shape : Name.shape? token = some .scalar) : Classified token (.scalar ⟨token, none⟩)
  | operator : Classified token (.operator token)
  | number {x : Binary64} (literal : literal? token.toList = some x) : Classified token (.number x)
  | element {array position : String} (shape : Name.shape? token = some (.element array position)) :
    Classified token (.element ⟨token, none⟩)

theorem classified {token : String} {s : Symbol} (h : classify token = .ok s) :
    Classified (Text.trim token) s := by
  unfold classify at h
  dsimp only at h
  split at h
  · next hshape =>
    cases h
    exact .scalar hshape
  split at h
  · cases h
    exact .operator
  split at h
  · next hliteral =>
    cases h
    exact .number hliteral
  · next hshape =>
    cases h
    exact .element hshape
  · cases h

theorem classify_error {token : String} {error : Error} (h : classify token = .error error) :
    error = .invalidSymbol (Text.trim token) := by
  unfold classify at h
  dsimp only at h
  split at h
  · cases h
  split at h
  · cases h
  split at h <;> cases h
  rfl

end Symbol

namespace Line

/-- The body is cut at single spaces into texts of these symbols, one each. -/
structure Tokens (body : String) (symbols : List Symbol) : Prop where
  nonempty : "" ∉ Text.pieces ' ' body
  classify : (Text.pieces ' ' body).map Symbol.classify = symbols.map .ok

theorem Tokens.exists_token {body : String} {symbols : List Symbol} (h : Tokens body symbols)
    {s : Symbol} (hs : s ∈ symbols) :
    ∃ token ∈ Text.pieces ' ' body, Symbol.classify token = .ok s :=
  exists_of_mem_mapM (mapM_eq_ok_iff.mpr h.classify) hs

theorem Tokens.exists_symbol {body : String} {symbols : List Symbol} (h : Tokens body symbols)
    {token : String} (htoken : token ∈ Text.pieces ' ' body) :
    ∃ s ∈ symbols, Symbol.classify token = .ok s := by
  have hclassified : Symbol.classify token ∈ symbols.map .ok := by
    rw [← h.classify]
    exact List.mem_map_of_mem htoken
  obtain ⟨s, hs, hclassify⟩ := List.mem_map.mp hclassified
  exact ⟨s, hs, hclassify.symm⟩

theorem tokenize_eq_ok_iff {body : String} {symbols : List Symbol} :
    tokenize body = .ok symbols ↔ Tokens body symbols := by
  unfold tokenize
  dsimp only
  by_cases hempty : "" ∈ Text.pieces ' ' body
  · rw [if_pos hempty]
    constructor
    · intro h
      cases h
    · intro h
      exact absurd hempty h.nonempty
  · rw [if_neg hempty, mapM_eq_ok_iff]
    exact ⟨fun h => ⟨hempty, h⟩, fun h => h.classify⟩

/-- What is wrong with a body that is not cut into symbols: an empty piece, or
else its first piece that is no symbol. -/
inductive Untokenized (body : String) : Error → Prop
  | separator (h : "" ∈ Text.pieces ' ' body) : Untokenized body (.malformedSeparator body)
  | symbol {before after : List String} {piece : String} (nonempty : "" ∉ Text.pieces ' ' body)
      (split : Text.pieces ' ' body = before ++ piece :: after)
      (symbols : ∀ p ∈ before, ∃ s, Symbol.classify p = .ok s)
      (none : ∀ s, Symbol.classify piece ≠ .ok s) :
      Untokenized body (.invalidSymbol (Text.trim piece))

theorem tokenize_eq_error_iff {body : String} {error : Error} :
    tokenize body = .error error ↔ Untokenized body error := by
  unfold tokenize
  dsimp only
  by_cases hempty : "" ∈ Text.pieces ' ' body
  · rw [if_pos hempty]
    constructor
    · intro h
      cases h
      exact .separator hempty
    · intro h
      cases h with
      | separator => rfl
      | symbol nonempty => exact absurd hempty nonempty
  · rw [if_neg hempty, mapM_eq_error_iff]
    constructor
    · rintro ⟨before, piece, after, hsplit, hbefore, hpiece⟩
      obtain rfl := Symbol.classify_error hpiece
      refine .symbol hempty hsplit hbefore fun s hs => ?_
      rw [hpiece] at hs
      cases hs
    · intro h
      cases h with
      | separator h => exact absurd h hempty
      | @symbol before after piece nonempty hsplit hbefore hnone =>
        refine ⟨before, piece, after, hsplit, hbefore, ?_⟩
        cases hpiece : Symbol.classify piece with
        | error error => rw [Symbol.classify_error hpiece]
        | ok s => exact absurd hpiece (hnone s)

end Line

/-! ## The parser -/

/-- The form of a statement of the shape, if its body can be cut into symbols. -/
def Shape.form : Shape → Except Error Form
  | scalarAssign name body =>
    (Line.tokenize (String.ofList body.chars)).map (.scalarAssign (name.named '$'))
  | arrayAssign name payload => .ok (.arrayAssign (name.named '@') (String.ofList payload.chars))
  | call name argument => .ok (.call (name.named '#') argument.name)

namespace Line

variable {statement : String}

theorem scalarShape?_eq_none {cs : List Char}
    (h : ∀ name body, (Shape.scalarAssign name body).text ≠ cs) : scalarShape? cs = none := by
  rw [Option.eq_none_iff_forall_not_mem]
  rintro ⟨target, inner⟩ hsome
  obtain ⟨name, body, -, -, hcs⟩ := scalarShape?_eq_some_iff.mp hsome
  exact h name body hcs.symm

theorem arrayShape?_eq_none {cs : List Char}
    (h : ∀ name payload, (Shape.arrayAssign name payload).text ≠ cs) : arrayShape? cs = none := by
  rw [Option.eq_none_iff_forall_not_mem]
  rintro ⟨target, inner⟩ hsome
  obtain ⟨name, payload, -, -, hcs⟩ := arrayShape?_eq_some_iff.mp hsome
  exact h name payload hcs.symm

theorem callShape?_eq_none {cs : List Char}
    (h : ∀ name argument, (Shape.call name argument).text ≠ cs) : callShape? cs = none := by
  rw [Option.eq_none_iff_forall_not_mem]
  rintro ⟨target, inner⟩ hsome
  obtain ⟨name, argument, -, -, hcs⟩ := callShape?_eq_some_iff.mp hsome
  exact h name argument hcs.symm

theorem parseForm_shape {shape : Shape} (h : shape.text = statement.toList) :
    parseForm statement = shape.form := by
  unfold parseForm
  dsimp only
  rw [← h]
  cases shape with
  | scalarAssign name body =>
    rw [scalarShape?_eq_some_iff.mpr ⟨name, body, rfl, rfl, rfl⟩]
    rfl
  | arrayAssign name payload =>
    have hscalar : scalarShape? (Shape.arrayAssign name payload).text = none := by
      apply scalarShape?_eq_none
      intro name' body heq
      cases Shape.text_inj heq
    rw [hscalar, arrayShape?_eq_some_iff.mpr ⟨name, payload, rfl, rfl, rfl⟩]
    rfl
  | call name argument =>
    have hscalar : scalarShape? (Shape.call name argument).text = none := by
      apply scalarShape?_eq_none
      intro name' body heq
      cases Shape.text_inj heq
    have harray : arrayShape? (Shape.call name argument).text = none := by
      apply arrayShape?_eq_none
      intro name' payload heq
      cases Shape.text_inj heq
    rw [hscalar, harray, callShape?_eq_some_iff.mpr ⟨name, argument, rfl, rfl, rfl⟩]
    dsimp only [Shape.form]
    rw [String.ofList_toList]

theorem parseForm_plain (h : ∀ shape : Shape, shape.text ≠ statement.toList) :
    parseForm statement = (tokenize statement).map .plain := by
  unfold parseForm
  dsimp only
  rw [scalarShape?_eq_none fun name body => h _, arrayShape?_eq_none fun name payload => h _,
    callShape?_eq_none fun name argument => h _]

/-- The statements of each form, without blanks around them. -/
inductive Derives (statement : String) : Form → Prop
  | scalarAssign {name : Letters} {body : Body} {symbols : List Symbol}
      (shape : (Shape.scalarAssign name body).text = statement.toList)
      (tokens : Tokens (String.ofList body.chars) symbols) :
      Derives statement (.scalarAssign (name.named '$') symbols)
  | arrayAssign {name : Letters} {payload : Payload}
      (shape : (Shape.arrayAssign name payload).text = statement.toList) :
      Derives statement (.arrayAssign (name.named '@') (String.ofList payload.chars))
  | call {name : Letters} {argument : Argument}
      (shape : (Shape.call name argument).text = statement.toList) :
      Derives statement (.call (name.named '#') argument.name)
  | plain {symbols : List Symbol} (shapeless : ∀ shape : Shape, shape.text ≠ statement.toList)
      (tokens : Tokens statement symbols) : Derives statement (.plain symbols)

theorem Derives.exists_token {form : Form} (h : Derives statement form) {s : Symbol}
    (hs : s ∈ form.symbols) : ∃ token, Symbol.classify token = .ok s := by
  cases h with
  | scalarAssign shape tokens =>
    obtain ⟨token, -, htoken⟩ := tokens.exists_token hs
    exact ⟨token, htoken⟩
  | plain shapeless tokens =>
    obtain ⟨token, -, htoken⟩ := tokens.exists_token hs
    exact ⟨token, htoken⟩
  | arrayAssign | call => cases hs

/-- The text of a statement that has to be cut into symbols: the body of a scalar
assignment, and all of a statement without a shape. -/
inductive Expresses (statement : String) : String → Prop
  | body {name : Letters} {body : Body}
      (shape : (Shape.scalarAssign name body).text = statement.toList) :
      Expresses statement (String.ofList body.chars)
  | whole (shapeless : ∀ shape : Shape, shape.text ≠ statement.toList) :
      Expresses statement statement

theorem parseForm_eq_ok_iff {form : Form} :
    parseForm statement = .ok form ↔ Derives statement form := by
  constructor
  · intro h
    by_cases hshape : ∃ shape : Shape, shape.text = statement.toList
    · obtain ⟨shape, hshape⟩ := hshape
      rw [parseForm_shape hshape] at h
      cases shape with
      | scalarAssign name body =>
        obtain ⟨symbols, hsymbols, rfl⟩ := map_eq_ok.mp h
        exact .scalarAssign hshape (tokenize_eq_ok_iff.mp hsymbols)
      | arrayAssign name payload =>
        cases h
        exact .arrayAssign hshape
      | call name argument =>
        cases h
        exact .call hshape
    · have hshapeless := not_exists.mp hshape
      rw [parseForm_plain hshapeless] at h
      obtain ⟨symbols, hsymbols, rfl⟩ := map_eq_ok.mp h
      exact .plain hshapeless (tokenize_eq_ok_iff.mp hsymbols)
  · intro h
    cases h with
    | scalarAssign hshape htokens =>
      rw [parseForm_shape hshape, Shape.form, tokenize_eq_ok_iff.mpr htokens]
      rfl
    | arrayAssign hshape => exact parseForm_shape hshape
    | call hshape => exact parseForm_shape hshape
    | plain hshapeless htokens =>
      rw [parseForm_plain hshapeless, tokenize_eq_ok_iff.mpr htokens]
      rfl

theorem parseForm_eq_error_iff {error : Error} :
    parseForm statement = .error error ↔
      ∃ body, Expresses statement body ∧ Untokenized body error := by
  constructor
  · intro h
    by_cases hshape : ∃ shape : Shape, shape.text = statement.toList
    · obtain ⟨shape, hshape⟩ := hshape
      rw [parseForm_shape hshape] at h
      cases shape with
      | scalarAssign name body =>
        exact ⟨_, .body hshape, tokenize_eq_error_iff.mp (map_eq_error.mp h)⟩
      | arrayAssign | call => cases h
    · have hshapeless := not_exists.mp hshape
      rw [parseForm_plain hshapeless] at h
      exact ⟨_, .whole hshapeless, tokenize_eq_error_iff.mp (map_eq_error.mp h)⟩
  · rintro ⟨body, hbody, huntokenized⟩
    have htokenize := tokenize_eq_error_iff.mpr huntokenized
    cases hbody with
    | body hshape =>
      rw [parseForm_shape hshape, Shape.form, htokenize]
      rfl
    | whole hshapeless =>
      rw [parseForm_plain hshapeless, htokenize]
      rfl

theorem parse_eq_ok_iff {line : Line} : parse statement = .ok line ↔
    line.resolved = false ∧ Derives (Text.trim statement) line.form := by
  rw [← parseForm_eq_ok_iff, parse, map_eq_ok]
  constructor
  · rintro ⟨form, hform, rfl⟩
    exact ⟨rfl, hform⟩
  · rintro ⟨hresolved, hform⟩
    exact ⟨line.form, hform, by rw [← hresolved]⟩

theorem parse_eq_error_iff {error : Error} : parse statement = .error error ↔
    ∃ body, Expresses (Text.trim statement) body ∧ Untokenized body error := by
  rw [← parseForm_eq_error_iff, parse, map_eq_error]

/-- **The grammar of statements**: a statement is accepted exactly if it derives
from the grammar, as the form that it derives, and what is wrong with any other
is an empty piece or a piece that is no symbol, in the text that had to be cut
into symbols. A statement has at most one shape, with one name and one inside. -/
theorem parse_accepts_statements (statement : String) :
    (∀ line, parse statement = .ok line ↔
      line.resolved = false ∧ Derives (Text.trim statement) line.form) ∧
      (∀ error, parse statement = .error error ↔
        ∃ body, Expresses (Text.trim statement) body ∧ Untokenized body error) ∧
      Subsingleton {shape : Shape // shape.text = (Text.trim statement).toList} := by
  refine ⟨fun line => parse_eq_ok_iff, fun error => parse_eq_error_iff, ⟨fun a b => Subtype.ext ?_⟩⟩
  exact Shape.text_inj (a.property.trans b.property.symm)

/-- The last bracket closes the body, so the one before it is a piece. -/
example : parse " $X=( 1 ) ) " = .error (.invalidSymbol ")") := by decide +kernel

/-- A line break in the body leaves a plain expression, which starts with a piece
that is no symbol. -/
example : parse "$X=( 1\n + 2 )" = .error (.invalidSymbol "$X=(") := by decide +kernel

end Line

end ArithScript
