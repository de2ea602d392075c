import ArithScript.Proofs.DeclaredElements

/-!
# Sums written out

The elements of an array with plus signs between them are an expression, whose value is the sum
of their numbers from the left (`reduceWith_sum`).
-/

namespace ArithScript

open Grammar

/-! ## Sums as expressions -/

namespace Grammar.Expression

variable {α : Type}

/-- The sum of operands. -/
def sumOf (first : α) (rest : List α) : Expression α :=
  ⟨⟨first, []⟩, rest.map fun x => (.add, ⟨x, []⟩)⟩

theorem chain_sumOf (first : α) (rest : List α) :
    (sumOf first rest).chain = ⟨first, rest.map fun x => (.add, x)⟩ := by
  simp only [sumOf, chain, Term.tail, List.map_nil, List.nil_append, List.flatMap_map]
  rw [List.map_eq_flatMap]
  rfl

theorem operands_sumOf (first : α) (rest : List α) : (sumOf first rest).operands = first :: rest := by
  rw [operands_eq, chain_sumOf, List.map_map]
  simp

theorem value_sumOf (value : α → Binary64) (first : α) (rest : List α) :
    (sumOf first rest).value value = (rest.map value).foldl (· + ·) (value first) := by
  rw [sumOf, Expression.value, List.foldl_map, List.foldl_map]
  rfl

theorem dividesByZero_sumOf (value : α → Binary64) (first : α) (rest : List α) :
    (sumOf first rest).dividesByZero value = false := by
  simp [sumOf, dividesByZero, Term.dividesByZero]

end Grammar.Expression

namespace Line

variable {store : Store} {line : Line}

/-! ## Sums as statements -/

/-- The symbols of a sum: a plus sign stands before each but the first. -/
def plusBetween (first : Symbol) (rest : List Symbol) : List Symbol :=
  first :: rest.flatMap fun s => [.operator "+", s]

theorem spells_sumOf {first : Symbol} {rest : List Symbol}
    (h : line.form.symbols = plusBetween first rest) : line.Spells (.sumOf first rest) := by
  rw [Spells, h, Expression.spell_eq, Expression.chain_sumOf, List.flatMap_map]
  rfl

/-- Tokens with plus signs between them are the sum of their symbols. -/
theorem written_sum {token : String} {s : Symbol} {tokens : List String} {symbols : List Symbol}
    (h : Written token [s]) (hrest : List.Forall₂ (fun token s => Written token [s]) tokens symbols) :
    Written (" + ".intercalate (token :: tokens)) (plusBetween s symbols) := by
  induction hrest generalizing token s with
  | nil =>
    rw [String.intercalate_singleton]
    exact h
  | @cons token' s' tokens symbols h' hrest ih =>
    have hplus : Written "+" [.operator "+"] := .operator .add rfl
    have hsum := (h.append hplus).append (ih h')
    have htext : token ++ " " ++ "+" ++ " " ++ " + ".intercalate (token' :: tokens) =
        " + ".intercalate (token :: token' :: tokens) := by
      rw [String.intercalate_cons_cons, ← String.toList_inj]
      simp
    rw [htext] at hsum
    exact hsum

end Line

/-! ## Elements of digits -/

/-- The symbol of a name of an element. -/
def elementSymbol (name : String) : Symbol := .element ⟨name, none⟩

/-- The name of an element that holds these digits. -/
structure Store.ReadsDigits (store : Store) (name : String) (digits : Digits) : Prop where
  named : ∃ (letters : Letters) (position : Positions), name = letters.element position
  value : store.value name = .ok digits.string

/-- The number of the digits that the store has for an element. -/
def Store.elementNumber (store : Store) (s : Symbol) : Binary64 :=
  ((s.reference?.bind fun r => (store.value r.name).toOption).bind fun text =>
    Binary64.read? text.toList).getD .nan

section Elements

variable {store : Store} {name : String} {digits : Digits} {line : Line}

theorem Store.ReadsDigits.elementNumber (h : store.ReadsDigits name digits) :
    store.elementNumber (elementSymbol name) = digits.number := by
  simp only [Store.elementNumber, elementSymbol, Symbol.reference?, Option.bind_some, h.value,
    Except.toOption, digits.toList_string, digits.read_chars, Option.getD_some]

theorem Store.ReadsDigits.written (h : store.ReadsDigits name digits) :
    Line.Written name [elementSymbol name] := by
  obtain ⟨letters, position, rfl⟩ := h.named
  exact Line.written_element letters position

theorem Store.ReadsDigits.denotes (h : store.ReadsDigits name digits)
    (hresolved : line.resolved = false) :
    line.Denotes store (elementSymbol name) (store.elementNumber (elementSymbol name)) := by
  rw [h.elementNumber, ← digits.operand_value]
  refine .reference digits.operand rfl ?_
  rw [Line.textOf, hresolved, if_neg Bool.false_ne_true, digits.operand_text]
  simp only [h.value, Except.toOption]
  rfl

end Elements

/-! ## Evaluation of sums -/

/-- The numbers of digits, added from the left. -/
def sumOfDigits (first : Digits) (rest : List Digits) : Binary64 :=
  (rest.map Digits.number).foldl (· + ·) first.number

section Sums

variable {store : Store} {name : String} {names : List String} {first : Digits}
  {digits : List Digits} (h : store.ReadsDigits name first)
  (hrest : List.Forall₂ store.ReadsDigits names digits)

include hrest in
theorem map_elementNumber :
    (names.map elementSymbol).map store.elementNumber = digits.map Digits.number := by
  induction hrest with
  | nil => rfl
  | cons hname _ ih => rw [List.map_cons, List.map_cons, List.map_cons, ih, hname.elementNumber]

include hrest in
theorem exists_readsDigits : ∀ name ∈ names, ∃ digits, store.ReadsDigits name digits := by
  induction hrest with
  | nil => exact List.forall_mem_nil _
  | cons hname _ ih => exact List.forall_mem_cons.mpr ⟨⟨_, hname⟩, ih⟩

include h hrest in
theorem written_elements :
    Line.Written (" + ".intercalate (name :: names))
      (Line.plusBetween (elementSymbol name) (names.map elementSymbol)) := by
  refine Line.written_sum h.written ?_
  rw [List.forall₂_map_right_iff, List.forall₂_same]
  intro name hname
  obtain ⟨_, hreads⟩ := exists_readsDigits hrest name hname
  exact hreads.written

include h hrest in
/-- A line of elements with plus signs between them comes to the sum of their numbers, or this
sum is beyond the format. -/
theorem Line.reduceWith_sum {line : Line} (hline : line.WellFormed) (hresolved : line.resolved = false)
    (hsymbols : line.form.symbols = plusBetween (elementSymbol name) (names.map elementSymbol)) :
    (line.reduceWith reduce store).1 =
      if (sumOfDigits first digits).isFinite then .ok (sumOfDigits first digits)
      else .error (.malformedExpression (line.expressionText store) .notFinite) := by
  have hdenotes : ∀ s ∈ (Expression.sumOf (elementSymbol name) (names.map elementSymbol)).operands,
      line.Denotes store s (store.elementNumber s) := by
    intro s hs
    rw [Expression.operands_sumOf, List.mem_cons] at hs
    rcases hs with rfl | hs
    · exact h.denotes hresolved
    · obtain ⟨name, hname, rfl⟩ := List.mem_map.mp hs
      obtain ⟨_, hreads⟩ := exists_readsDigits hrest name hname
      exact hreads.denotes hresolved
  rw [(spells_sumOf hsymbols).reduceWith hline hdenotes, Expression.outcome,
    Expression.dividesByZero_sumOf, Expression.value_sumOf, map_elementNumber hrest,
    h.elementNumber]
  rfl

include h hrest in
theorem evaluateStatement_sum : ∃ text,
    (evaluateStatement reduce store (" + ".intercalate (name :: names))).1 =
      if (sumOfDigits first digits).isFinite then .ok (.number (sumOfDigits first digits))
      else .error (.malformedExpression text .notFinite) := by
  have hparse := (written_elements h hrest).parse
  have hreduce := Line.reduceWith_sum h hrest (Line.parse_wellFormed hparse) rfl rfl
  generalize Line.expressionText store _ = text at hreduce
  refine ⟨text, ?_⟩
  rw [evaluateStatement_of_parsed hparse, Line.evaluate_result]
  dsimp only
  rw [hreduce]
  cases (sumOfDigits first digits).isFinite <;> rfl

include h hrest in
/-- Between the brackets of an assignment a sum is assigned as well, if its name is free. -/
theorem evaluateStatement_assigned_sum (hfinite : (sumOfDigits first digits).isFinite = true)
    {target : Letters} (hfree : target.named '$' ∉ store.entries) :
    evaluateStatement reduce store
        (target.named '$' ++ "=( " ++ " + ".intercalate (name :: names) ++ " )") =
      (.ok (.number (sumOfDigits first digits)), { store with
        entries := store.entries.insert (target.named '$')
          (.scalar (sumOfDigits first digits).text) }) := by
  have hparse := (written_elements h hrest).parse_assignment target
  have hline := Line.parse_wellFormed hparse
  have hreduce := Line.reduceWith_sum h hrest hline rfl rfl
  rw [if_pos hfinite] at hreduce
  generalize Line.plusBetween _ _ = symbols at hparse hline hreduce
  generalize sumOfDigits first digits = v at hreduce
  have hregister : store.register (target.named '$') v.text = .ok { store with
      entries := store.entries.insert (target.named '$') (.scalar v.text) } := by
    rw [Store.register, Store.entryFor_scalar (Name.shape?_of_hasShape (.scalar target))]
    exact if_neg hfree
  have hresult := Line.evaluate_result reduce store
    ⟨.scalarAssign (target.named '$') symbols, false⟩
  dsimp only at hresult
  rw [hreduce, Except.bind, hregister] at hresult
  have hstore := (@Line.evaluate_store_eq store _ reduce hline.target).1
  rw [hresult] at hstore
  rw [evaluateStatement, hparse]
  dsimp only
  rw [hresult, hstore]
  rfl

end Sums

end ArithScript
