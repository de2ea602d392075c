import ArithScript.Proofs.Juxtaposition
import ArithScript.Proofs.Spelling

/-!
# Spaces around operators

In an expression of literals the spaces around the operators may be left out, any of them
(`evaluateStatement_spaced`). Each choice cuts the statement into other tokens: a literal that
stands alone is a number, and is written anew for the reducer, while one that touches an
operator is part of an operator token and stays as it is. But a token either is a literal or
is taken whole (`Glued`), and both ways of writing a literal are operands with its value, so
the reducer finds the same steps in every text (`exists_becomes`).
-/

namespace ArithScript

open Grammar

/-! ## Literals -/

/-- The text of a literal, with its value. A token is classified as a number if it is such a
text, blanks around it aside (`Symbol.classify_eq_number_iff`). -/
structure Literal where
  chars : List Char
  value : Binary64
  isLiteral : Symbol.literal? chars = some value

namespace Literal

variable (l : Literal)

theorem isExpressionChar_chars : ∀ c ∈ l.chars, isExpressionChar c = true := fun c hc =>
  isExpressionChar_of_isLiteralChar (Symbol.isLiteralChar_of_literal? l.isLiteral c hc)

theorem trimmed : Text.Trimmed l.chars :=
  Text.trimmed_of_isExpressionChar l.isExpressionChar_chars

theorem classify : Symbol.classify (String.ofList l.chars) = .ok (.number l.value) := by
  have htrimmed : Text.Trimmed (String.ofList l.chars).toList := by
    rw [String.toList_ofList]
    exact l.trimmed
  rw [Symbol.classify_eq_number_iff, htrimmed.trim_eq, String.toList_ofList]
  exact l.isLiteral

/-- The literal as it stands is an operand. -/
theorem exists_operand : ∃ o : Operand, o.text = l.chars ∧ o.value = l.value := by
  have h := l.isLiteral
  unfold Symbol.literal? at h
  split at h
  · obtain ⟨hread, -⟩ := Option.filter_eq_some_iff.mp h
    obtain ⟨d, hd, hvalue⟩ := Option.map_eq_some_iff.mp hread
    obtain ⟨n, htext, rfl⟩ := Numeral.exists_of_read hd
    exact ⟨⟨none, n⟩, htext, hvalue⟩
  · cases h

/-- The literal as it is written anew is an operand too, and of the same value. -/
theorem exists_operand_rendered :
    ∃ o : Operand, o.text = l.value.text.toList ∧ o.value = l.value := by
  obtain ⟨m, hm⟩ := Symbol.literal?_unsigned l.isLiteral
  obtain ⟨whole, fraction, htext, hvalue⟩ := Symbol.exists_plain_of_text m
  rw [hm]
  exact ⟨⟨none, .plain whole fraction⟩, htext.symm, hvalue⟩

theorem chars_ne_nil : l.chars ≠ [] := by
  obtain ⟨o, htext, -⟩ := l.exists_operand
  obtain ⟨c, cs, hcs, -⟩ := startsNumber_operand o []
  rw [List.append_nil, htext] at hcs
  rw [hcs]
  exact List.cons_ne_nil c cs

end Literal

/-! ## Texts of tokens -/

/-- The statement is cut into symbols without references, and these are written as the text. -/
def Becomes (statement text : List Char) : Prop :=
  ∃ symbols, Line.Tokens (String.ofList statement) symbols ∧
    (∀ s ∈ symbols, s.reference? = none) ∧ (symbols.flatMap fun s => s.rendered.toList) = text

theorem Becomes.single {statement : List Char} {s : Symbol} (hspace : ' ' ∉ statement)
    (h : Symbol.classify (String.ofList statement) = .ok s) (hs : s.reference? = none) :
    Becomes statement s.rendered.toList :=
  ⟨[s], .single (by rwa [String.toList_ofList]) h, List.forall_mem_singleton.mpr hs,
    List.flatMap_singleton _ _⟩

theorem Becomes.append {statement statement' text text' : List Char} (h : Becomes statement text)
    (h' : Becomes statement' text') : Becomes (statement ++ ' ' :: statement') (text ++ text') := by
  obtain ⟨symbols, htokens, hnone, rfl⟩ := h
  obtain ⟨symbols', htokens', hnone', rfl⟩ := h'
  have hstatement : String.ofList (statement ++ ' ' :: statement') =
      String.ofList statement ++ ' '.toString ++ String.ofList statement' := by
    rw [← String.toList_inj]
    simp
  refine ⟨symbols ++ symbols', ?_, ?_, List.flatMap_append⟩
  · rw [hstatement]
    exact htokens.append htokens'
  · exact List.forall_mem_append.mpr ⟨hnone, hnone'⟩

/-- What stands in a token before a literal: nothing, or characters of expressions of which one
is an operator, so that the token is an operator token. -/
structure Glued (cs : List Char) : Prop where
  chars : ∀ c ∈ cs, isExpressionChar c = true
  operator : cs ≠ [] → ∃ c ∈ cs, (Operator.ofChar? c).isSome = true

namespace Glued

theorem nil : Glued [] := ⟨List.forall_mem_nil _, fun h => absurd rfl h⟩

theorem append_operator {cs : List Char} (h : ∀ c ∈ cs, isExpressionChar c = true)
    (op : Operator) : Glued (cs ++ [op.toChar]) := by
  refine ⟨?_, fun _ => ⟨op.toChar, by simp, by rw [ofChar_toChar]; rfl⟩⟩
  exact List.forall_mem_append.mpr
    ⟨h, List.forall_mem_singleton.mpr op.isExpressionChar_toChar⟩

/-- An operator token is taken whole. -/
theorem becomes {cs : List Char} (h : Glued cs) (hne : cs ≠ []) : Becomes cs cs := by
  have hspace : ' ' ∉ cs := fun hmem => absurd (h.chars ' ' hmem) (by decide)
  have hlist : (String.ofList cs).toList = cs := String.toList_ofList
  have hclassify : Symbol.classify (String.ofList cs) = .ok (.operator (String.ofList cs)) := by
    apply Symbol.classify_operator
    · rw [hlist]
      exact Text.trimmed_of_isExpressionChar h.chars
    · apply shape?_of_isExpressionChar
      rw [hlist]
      exact h.chars
    · rw [hlist]
      exact h.operator hne
  have hsingle := Becomes.single hspace hclassify rfl
  rwa [Symbol.rendered, hlist] at hsingle

theorem append {cs ds : List Char} (h : Glued cs) (hne : cs ≠ [])
    (hds : ∀ c ∈ ds, isExpressionChar c = true) : Glued (cs ++ ds) := by
  refine ⟨List.forall_mem_append.mpr ⟨h.chars, hds⟩, fun _ => ?_⟩
  obtain ⟨c, hc, hop⟩ := h.operator hne
  exact ⟨c, List.mem_append_left ds hc, hop⟩

/-- A literal at the end of a token is written as an operand with its value. -/
theorem exists_becomes_literal {cs : List Char} (h : Glued cs) (l : Literal) :
    ∃ o : Operand, Becomes (cs ++ l.chars) (cs ++ o.text) ∧ o.value = l.value := by
  by_cases hne : cs = []
  · subst hne
    obtain ⟨o, htext, hvalue⟩ := l.exists_operand_rendered
    have hspace : ' ' ∉ l.chars := fun hmem =>
      absurd (l.isExpressionChar_chars ' ' hmem) (by decide)
    refine ⟨o, ?_, hvalue⟩
    rw [List.nil_append, List.nil_append, htext]
    exact .single hspace l.classify rfl
  · obtain ⟨o, htext, hvalue⟩ := l.exists_operand
    refine ⟨o, ?_, hvalue⟩
    rw [htext]
    exact (h.append hne l.isExpressionChar_chars).becomes (by simp [hne])

end Glued

/-! ## Statements of literals -/

def space (kept : Bool) : List Char := if kept then [' '] else []

/-- Literals with an operator between any two of them. Of the spaces around the operators those
stay that are kept; they are counted from the left, two for each operator. -/
def spaced : (Nat → Bool) → Literal → List (Operator × Literal) → List Char
  | _, first, [] => first.chars
  | kept, first, (op, next) :: rest =>
    first.chars ++ (space (kept 0) ++ op.toChar ::
      (space (kept 1) ++ spaced (fun i => kept (i + 2)) next rest))

theorem trimmed_spaced (kept : Nat → Bool) (first : Literal) (rest : List (Operator × Literal)) :
    Text.Trimmed (spaced kept first rest) ∧ spaced kept first rest ≠ [] := by
  induction rest generalizing kept first with
  | nil => exact ⟨first.trimmed, first.chars_ne_nil⟩
  | cons step rest ih =>
    obtain ⟨op, next⟩ := step
    obtain ⟨htrimmed, hne⟩ := ih (fun i => kept (i + 2)) next
    have happend : Text.Trimmed (first.chars ++ (space (kept 0) ++ op.toChar :: space (kept 1)) ++
        spaced (fun i => kept (i + 2)) next rest) :=
      first.trimmed.append htrimmed first.chars_ne_nil hne
    refine ⟨by simpa [spaced] using happend, by simp [spaced, first.chars_ne_nil]⟩

/-- The text of a statement of literals is a chain of operands with the values of the literals,
whatever the spaces. The induction is on the operators left, with what is glued to the first
literal. -/
theorem exists_becomes (kept : Nat → Bool) (first : Literal) (rest : List (Operator × Literal))
    {glued : List Char} (hglued : Glued glued) : ∃ (o : Operand) (rest' : List (Operator × Operand)),
      Becomes (glued ++ spaced kept first rest) (glued ++ Chain.text ⟨o, rest'⟩) ∧
        o.value = first.value ∧ steps Operand.value rest' = steps Literal.value rest := by
  induction rest generalizing kept first glued with
  | nil =>
    obtain ⟨o, hbecomes, hvalue⟩ := hglued.exists_becomes_literal first
    refine ⟨o, [], ?_, hvalue, rfl⟩
    rwa [Chain.text, Chain.spell, List.flatMap_nil, List.append_nil]
  | cons step rest ih =>
    obtain ⟨op, next⟩ := step
    -- Behind an operator the token goes on or ends, by the second space.
    have behind {before : List Char} (hbefore : Glued before) (hne : before ≠ []) :
        ∃ (o : Operand) (rest' : List (Operator × Operand)),
          Becomes (before ++ (space (kept 1) ++ spaced (fun i => kept (i + 2)) next rest))
            (before ++ Chain.text ⟨o, rest'⟩) ∧
          o.value = next.value ∧ steps Operand.value rest' = steps Literal.value rest := by
      cases kept 1 with
      | true =>
        obtain ⟨o, rest', hbecomes, hvalues⟩ := ih (fun i => kept (i + 2)) next Glued.nil
        exact ⟨o, rest', (hbefore.becomes hne).append hbecomes, hvalues⟩
      | false => exact ih (fun i => kept (i + 2)) next hbefore
    cases hkept : kept 0 with
    | true =>
      obtain ⟨o, hliteral, hvalue⟩ := hglued.exists_becomes_literal first
      obtain ⟨o', rest', hbecomes, hvalue', hsteps⟩ :=
        behind (Glued.append_operator (List.forall_mem_nil _) op) (by simp)
      refine ⟨o, (op, o') :: rest', ?_, hvalue, ?_⟩
      · have happend := hliteral.append hbecomes
        simpa [spaced, hkept, space, Chain.text_cons] using happend
      · rw [steps_cons, steps_cons, hvalue', hsteps]
    | false =>
      obtain ⟨o, htext, hvalue⟩ := first.exists_operand
      have hchars : ∀ c ∈ glued ++ first.chars, isExpressionChar c = true :=
        List.forall_mem_append.mpr ⟨hglued.chars, first.isExpressionChar_chars⟩
      obtain ⟨o', rest', hbecomes, hvalue', hsteps⟩ :=
        behind (Glued.append_operator hchars op) (by simp)
      refine ⟨o, (op, o') :: rest', ?_, hvalue, ?_⟩
      · simpa [spaced, hkept, space, Chain.text_cons, htext] using hbecomes
      · rw [steps_cons, steps_cons, hvalue', hsteps]

/-! ## Outcomes -/

namespace Grammar

variable {α β : Type}

/-- The outcome is told from the first value and the steps. -/
theorem Expression.outcome_of_steps {value : α → Binary64} {value' : β → Binary64}
    {e : Expression α} {e' : Expression β} (hfirst : value e.chain.first = value' e'.chain.first)
    (hsteps : steps value e.chain.rest = steps value' e'.chain.rest) (text : String) :
    e.outcome value text = e'.outcome value' text := by
  have hvalue : e.value value = e'.value value' := by
    rw [← value_join, ← value_join, hfirst, hsteps]
  have hzero : e.dividesByZero value = e'.dividesByZero value' := by
    rw [← zeroDivision_chain, ← zeroDivision_chain, hsteps]
  rw [outcome, outcome, hvalue, hzero]

end Grammar

/-- A statement without references comes to what its text reduces to. -/
theorem Becomes.evaluateStatement {store : Store} {statement text : List Char}
    (h : Becomes statement text) (htrimmed : Text.Trimmed statement) :
    (evaluateStatement reduce store (String.ofList statement)).1 =
      (reduce (String.ofList text)).map .number := by
  obtain ⟨symbols, htokens, hnone, htext⟩ := h
  let line : Line := ⟨.plain symbols, false⟩
  have hparse : Line.parse (String.ofList statement) = .ok line := by
    have htrim : Text.trim (String.ofList statement) = String.ofList statement :=
      Text.Trimmed.trim_eq (by rwa [String.toList_ofList])
    rw [Line.parse_eq_ok_iff, htrim]
    exact ⟨rfl, .plain htokens.shapeless htokens⟩
  have hbound : line.Bound store := by
    intro s hs r hr
    rw [hnone s hs] at hr
    cases hr
  have hne : line.form.symbols ≠ [] := htokens.ne_nil
  obtain ⟨resolved, hresolve, hresolved⟩ := Line.exists_expressionText hne hbound
  have hexpression : line.expressionText store = String.ofList text := by
    rw [← String.toList_inj, String.toList_ofList, Line.toList_expressionText, ← htext]
    refine List.flatMap_congr fun s hs => ?_
    cases s with
    | number | operator => rfl
    | scalar | element => cases hnone _ hs
  rw [evaluateStatement_of_parsed hparse, Line.evaluate_result,
    Line.reduceWith_eq reduce hresolve hresolved, hexpression]

/-- A statement of literals comes to what its literals come to one by one, whatever the
spaces. -/
theorem evaluateStatement_literals (store : Store) (kept : Nat → Bool) (first : Literal)
    (rest : List (Operator × Literal)) :
    ∃ text, (evaluateStatement reduce store (String.ofList (spaced kept first rest))).1 =
      ((group first rest).outcome Literal.value text).map .number := by
  obtain ⟨o, rest', hbecomes, hvalue, hsteps⟩ := exists_becomes kept first rest Glued.nil
  refine ⟨String.ofList (Chain.text ⟨o, rest'⟩), ?_⟩
  have hchain : (group o rest').text = (String.ofList (Chain.text ⟨o, rest'⟩)).toList := by
    rw [String.toList_ofList, Expression.text, ← Expression.spell_chain, chain_group]
    rfl
  rw [List.nil_append, List.nil_append] at hbecomes
  rw [hbecomes.evaluateStatement (trimmed_spaced kept first rest).1, reduce_text hchain]
  congr 1
  refine Expression.outcome_of_steps ?_ ?_ _
  · rw [chain_group, chain_group, hvalue]
  · rw [chain_group, chain_group, hsteps]

/-- **Spaces around operators do not matter**: literals with operators between them come to the
same number, which is the value of their expression, with all of the spaces around the operators
as with only some of them, or both divide by zero, or both are malformed. -/
theorem evaluateStatement_spaced (store : Store) (literals : Chain Literal) (kept : Nat → Bool) :
    let result (kept : Nat → Bool) := (evaluateStatement reduce store
      (String.ofList (spaced kept literals.first literals.rest))).1
    let squeezed := result kept
    let full := result fun _ => true
    let e := group literals.first literals.rest
    let x := e.value Literal.value
    (squeezed = .ok (.number x) ∧ full = .ok (.number x)) ∨
      (e.dividesByZero Literal.value = true ∧
        squeezed = .error .divisionByZero ∧ full = .error .divisionByZero) ∨
      (x.isFinite = false ∧ ∃ text text', squeezed = .error (.malformedExpression text .notFinite) ∧
        full = .error (.malformedExpression text' .notFinite)) := by
  intro result squeezed full e x
  obtain ⟨text, hsqueezed⟩ := evaluateStatement_literals store kept literals.first literals.rest
  obtain ⟨text', hfull⟩ :=
    evaluateStatement_literals store (fun _ => true) literals.first literals.rest
  change squeezed = (e.outcome Literal.value text).map .number at hsqueezed
  change full = (e.outcome Literal.value text').map .number at hfull
  rw [hsqueezed, hfull]
  unfold Expression.outcome
  cases hzero : e.dividesByZero Literal.value with
  | true => exact .inr (.inl ⟨rfl, rfl, rfl⟩)
  | false =>
    cases hfinite : x.isFinite with
    | true => exact .inl ⟨rfl, rfl⟩
    | false => exact .inr (.inr ⟨rfl, text, text', rfl, rfl⟩)

/-- A literal that touches an operator is not written anew, and has the same value. -/
theorem evaluateStatement_spaced_glued :
    let x := Decimal.toBinary64 false ⟨1175, -1⟩
    (evaluateStatement reduce .empty "12e1 -.5E1*2./ 4").1 = .ok (.number x) ∧
      (evaluateStatement reduce .empty "12e1 - .5E1 * 2. / 4").1 = .ok (.number x) := by
  let literals : Chain Literal := {
    first := ⟨"12e1".toList, .ofNat 120, by decide +kernel⟩
    rest := [
      (.sub, ⟨".5E1".toList, .ofNat 5, by decide +kernel⟩),
      (.mul, ⟨"2.".toList, .ofNat 2, by decide +kernel⟩),
      (.div, ⟨"4".toList, .ofNat 4, by decide +kernel⟩)] }
  have hzero : (group literals.first literals.rest).dividesByZero Literal.value = false := by
    decide +kernel
  have hvalue : (group literals.first literals.rest).value Literal.value =
      Decimal.toBinary64 false ⟨1175, -1⟩ := by
    decide +kernel
  have hspaced := evaluateStatement_spaced .empty literals fun i => i == 0 || i == 5
  simp only [hzero, hvalue] at hspaced
  rcases hspaced with hspaced | ⟨hdivides, -⟩ | ⟨hinfinite, -⟩
  · exact hspaced
  · cases hdivides
  · exact absurd hinfinite (by decide +kernel)

end ArithScript
