import ArithScript.Proofs.PartialSums
import ArithScript.Proofs.Scanning

/-!
# Reduction computes the value of the derivation

The reducer reads the lexemes as one pass with a partial sum does; the grammar
folds each term and then the terms. The two agree step by step along the chain of an expression
(`extend_chain`, `value_join`), so `reduce` answers for a text that has a
derivation as `Expression.outcome` says. A text that gets a number has a
derivation, because every operator that the pass consumes takes an operand with
it (`exists_steps`).
-/

namespace ArithScript.Grammar

/-! ## The lexemes of a text -/

theorem reduce_of_lex_error {text : String} {reason : Malformation}
    (h : Lexeme.lex text.toList = .error reason) :
    reduce text = .error (.malformedExpression text reason) := by
  rw [reduce, Scanner.lexemes?_eq, h]

theorem reduce_of_lex {text : String} {lexemes : List Lexeme}
    (h : Lexeme.lex text.toList = .ok lexemes) : reduce text = reduceLexemes text lexemes := by
  rw [reduce, Scanner.lexemes?_eq, h]

/-! ## The pass along a chain -/

/-- The partial sum with one more operator and operand, whatever the operand. -/
def join (sum : PartialSum) : Operator × Binary64 → PartialSum
  | (.add, x) => ⟨some (sum.value, .add), x⟩
  | (.sub, x) => ⟨some (sum.value, .sub), x⟩
  | (.mul, x) => { sum with term := sum.term * x }
  | (.div, x) => { sum with term := sum.term / x }

/-- The step divides by 0. -/
def isZeroDivision (step : Operator × Binary64) : Bool := step.1 == .div && step.2.isZero

theorem push_eq (sum : PartialSum) (op : Operator) (x : Binary64) :
    sum.push op x =
      if isZeroDivision (op, x) then .error .divisionByZero else .ok (join sum (op, x)) := by
  cases op <;> simp [PartialSum.push, isZeroDivision, join]

/-- The steps of a chain, given the values of its operands. -/
def steps {α : Type} (value : α → Binary64) (rest : List (Operator × α)) :
    List (Operator × Binary64) :=
  rest.map fun (op, x) => (op, value x)

theorem steps_cons {α : Type} (value : α → Binary64) (op : Operator) (x : α)
    (rest : List (Operator × α)) :
    steps value ((op, x) :: rest) = (op, value x) :: steps value rest := rfl

theorem steps_append {α : Type} (value : α → Binary64) (rest rest' : List (Operator × α)) :
    steps value (rest ++ rest') = steps value rest ++ steps value rest' := List.map_append

/-- The lexemes of a chain after its first operand. -/
def stepLexemes (rest : List (Operator × Operand)) : List Lexeme :=
  rest.flatMap fun (op, o) => [.operator op, o.lexeme]

/-- The pass takes the steps of a chain one after the other, and a division by 0
among them ends it. -/
theorem extend_chain (expression : String) (sum : PartialSum) (rest : List (Operator × Operand))
    (tail : List Lexeme) :
    sum.extend expression (stepLexemes rest ++ tail) =
      if (steps Operand.value rest).any isZeroDivision then .error .divisionByZero
      else ((steps Operand.value rest).foldl join sum).extend expression tail := by
  induction rest generalizing sum with
  | nil => rfl
  | cons step rest ih =>
    obtain ⟨op, o⟩ := step
    have hlexemes : stepLexemes ((op, o) :: rest) ++ tail =
        .operator op :: o.lexeme :: (stepLexemes rest ++ tail) := rfl
    rw [hlexemes, steps_cons, Operand.lexeme, PartialSum.extend, push_eq, List.any_cons,
      List.foldl_cons]
    cases isZeroDivision (op, o.value) with
    | true => rfl
    | false => exact ih _

/-! ## Partial sums hold the value of the tree -/

section Values

variable {α : Type} (value : α → Binary64)

theorem join_factors (settled : Option (Binary64 × Operator)) (t : Term α) :
    (steps value t.tail).foldl join ⟨settled, value t.first⟩ = ⟨settled, t.value value⟩ := by
  obtain ⟨x, factors⟩ := t
  simp only [steps, Term.tail, Term.value, List.map_map, List.foldl_map]
  generalize value x = acc
  induction factors generalizing acc with
  | nil => rfl
  | cons step factors ih =>
    obtain ⟨op, y⟩ := step
    rw [List.foldl_cons, List.foldl_cons, ← ih]
    cases op <;> rfl

/-- A term joins the sum with its operator. -/
theorem join_term (sum : PartialSum) (op : Summing) (t : Term α) :
    (steps value ((op.operator, t.first) :: t.tail)).foldl join sum =
      ⟨some (sum.value, op.operator), t.value value⟩ := by
  rw [← join_factors value _ t]
  cases op <;> rfl

theorem value_join_terms (sum : PartialSum) (terms : List (Summing × Term α)) :
    ((steps value (terms.flatMap fun (op, t) => (op.operator, t.first) :: t.tail)).foldl
      join sum).value =
      terms.foldl (fun acc (op, t) => op.operator.apply acc (t.value value)) sum.value := by
  induction terms generalizing sum with
  | nil => rfl
  | cons step terms ih =>
    obtain ⟨op, t⟩ := step
    rw [List.flatMap_cons, steps_append, List.foldl_append, join_term, ih]
    rfl

theorem value_join (e : Expression α) :
    ((steps value e.chain.rest).foldl join (.single (value e.chain.first))).value =
      e.value value := by
  obtain ⟨t, terms⟩ := e
  rw [Expression.chain, steps_append, List.foldl_append, PartialSum.single, join_factors,
    value_join_terms]
  rfl

theorem zeroDivision_tail (t : Term α) :
    (steps value t.tail).any isZeroDivision = t.dividesByZero value := by
  obtain ⟨x, factors⟩ := t
  simp only [steps, Term.tail, Term.dividesByZero, List.map_map, List.any_map]
  congr 1
  funext step
  obtain ⟨op, y⟩ := step
  cases op <;> rfl

theorem zeroDivision_term (op : Summing) (t : Term α) :
    (steps value ((op.operator, t.first) :: t.tail)).any isZeroDivision = t.dividesByZero value := by
  rw [← zeroDivision_tail]
  cases op <;> rfl

/-- The chain divides by 0 where the tree does. -/
theorem zeroDivision_chain (e : Expression α) :
    (steps value e.chain.rest).any isZeroDivision = e.dividesByZero value := by
  obtain ⟨t, terms⟩ := e
  rw [Expression.chain, steps_append, List.any_append, zeroDivision_tail, Expression.dividesByZero]
  congr 1
  dsimp only
  induction terms with
  | nil => rfl
  | cons step terms ih =>
    obtain ⟨op, t'⟩ := step
    rw [List.flatMap_cons, steps_append, List.any_append, ih, List.any_cons]
    exact congrArg (· || _) (zeroDivision_term value op t')

end Values

/-! ## The outcome of a derivation -/

/-- What the contract makes of an expression: a division by 0 is an error of its
own, and so is a value that is not finite. -/
def Expression.outcome {α : Type} (value : α → Binary64) (text : String) (e : Expression α) :
    Except Error Binary64 :=
  if e.dividesByZero value then .error .divisionByZero
  else if (e.value value).isFinite then .ok (e.value value)
  else .error (.malformedExpression text .notFinite)

theorem Expression.lexemes_eq (e : Expression Operand) :
    e.lexemes = e.chain.first.lexeme :: stepLexemes e.chain.rest := by
  rw [lexemes, ← spell_chain]
  rfl

theorem reduceLexemes_lexemes (text : String) (e : Expression Operand) :
    reduceLexemes text e.lexemes = e.outcome Operand.value text := by
  have hpass := extend_chain text (.single e.chain.first.value) e.chain.rest []
  rw [List.append_nil, zeroDivision_chain] at hpass
  have hsum : sumLexemes text e.lexemes =
      (PartialSum.single e.chain.first.value).extend text (stepLexemes e.chain.rest) := by
    rw [e.lexemes_eq]
    rfl
  rw [reduceLexemes_eq, hsum, hpass, Expression.outcome]
  cases e.dividesByZero Operand.value with
  | true => rfl
  | false =>
    simp only [Bool.false_eq_true, ↓reduceIte, PartialSum.extend, value_join]
    rfl

/-- A text with a derivation reduces as its derivation says. -/
theorem reduce_text {text : String} {e : Expression Operand} (h : e.text = text.toList) :
    reduce text = e.outcome Operand.value text := by
  rw [reduce_of_lex (h ▸ lex_text e)]
  exact reduceLexemes_lexemes text e

/-! ## Texts without a derivation -/

/-- No step of a chain can be read from these lexemes. -/
def Stuck (lexemes : List Lexeme) : Prop :=
  ∀ op source x more, lexemes ≠ .operator op :: .number source x :: more

/-- Genuine lexemes are the steps of a chain for as long as they can be. -/
theorem exists_steps : ∀ {lexemes : List Lexeme}, (∀ lexeme ∈ lexemes, Genuine lexeme) →
    ∃ rest tail, lexemes = stepLexemes rest ++ tail ∧ Stuck tail
  | .operator op :: .number source x :: more, h => by
    obtain ⟨o, hsource, hvalue⟩ := h (.number source x) (by simp)
    obtain ⟨rest, tail, rfl, hstuck⟩ :=
      @exists_steps more fun lexeme hl => h lexeme (by simp [hl])
    refine ⟨(op, o) :: rest, tail, ?_, hstuck⟩
    rw [← hsource, ← hvalue]
    rfl
  | [], _ => ⟨[], [], rfl, by intro _ _ _ _ h; cases h⟩
  | [.operator op], _ => ⟨[], _, rfl, by intro _ _ _ _ h; cases h⟩
  | .operator op :: .operator op' :: more, _ => ⟨[], _, rfl, by intro _ _ _ _ h; cases h⟩
  | .number source x :: more, _ => ⟨[], _, rfl, by intro _ _ _ _ h; cases h⟩

/-- Where no step can be read, the pass stops, and it accepts the end only. -/
theorem extend_stuck (text : String) (sum : PartialSum) {tail : List Lexeme} (h : Stuck tail) :
    sum.extend text tail = .ok (sum.value, tail) ∧ (∀ op more, tail ≠ .operator op :: more) ∨
      ∃ reason, sum.extend text tail = .error (.malformedExpression text reason) := by
  match tail, h with
  | [], _ => exact .inl ⟨rfl, by simp⟩
  | .number source x :: more, _ => exact .inl ⟨rfl, by simp⟩
  | [.operator op], _ => exact .inr ⟨_, rfl⟩
  | .operator op :: .operator op' :: more, _ => exact .inr ⟨_, rfl⟩
  | .operator op :: .number source x :: more, h => exact absurd rfl (h op source x more)

/-- The lexemes of a text are those of an expression, or they start with those
of one that divides by 0, or the text is malformed. -/
theorem reduceLexemes_cases (text : String) {lexemes : List Lexeme}
    (h : ∀ lexeme ∈ lexemes, Genuine lexeme) :
    (∃ e : Expression Operand, lexemes = e.lexemes) ∨
      (∃ (e : Expression Operand) (more : List Lexeme), lexemes = e.lexemes ++ more ∧
        e.dividesByZero Operand.value = true) ∨
      ∃ reason, reduceLexemes text lexemes = .error (.malformedExpression text reason) := by
  match lexemes, h with
  | [], _ => exact .inr (.inr ⟨_, rfl⟩)
  | .operator op :: more, _ => exact .inr (.inr ⟨_, rfl⟩)
  | .number source x :: more, h =>
    obtain ⟨o, rfl, rfl⟩ := h (.number source x) List.mem_cons_self
    obtain ⟨rest, tail, rfl, hstuck⟩ := exists_steps fun lexeme hl => h lexeme (.tail _ hl)
    have hlexemes : o.lexeme :: stepLexemes rest = (group o rest).lexemes := by
      rw [Expression.lexemes_eq, chain_group]
    have hpass := extend_chain text (.single o.value) rest tail
    cases hzero : (steps Operand.value rest).any isZeroDivision with
    | true =>
      refine .inr (.inl ⟨group o rest, tail, ?_, ?_⟩)
      · rw [← hlexemes]
        rfl
      · rw [← zeroDivision_chain, chain_group, hzero]
    | false =>
      rw [hzero] at hpass
      simp only [Bool.false_eq_true, ↓reduceIte] at hpass
      rcases extend_stuck text ((steps Operand.value rest).foldl join (.single o.value)) hstuck with
        ⟨hok, hop⟩ | ⟨reason, herror⟩
      · match tail, hop with
        | [], _ => exact .inl ⟨group o rest, by rw [← hlexemes, List.append_nil]; rfl⟩
        | .operator op :: more, hop => exact absurd rfl (hop op more)
        | .number source x :: more, _ =>
          refine .inr (.inr ⟨.missingOperator x, ?_⟩)
          rw [hok] at hpass
          rw [reduceLexemes_eq, sumLexemes, hpass]
          rfl
      · refine .inr (.inr ⟨reason, ?_⟩)
        rw [herror] at hpass
        rw [reduceLexemes_eq, sumLexemes, hpass]
        rfl

/-- The lexemes of the text start with an expression that divides by 0, whatever
comes after it. -/
def StartsDividingByZero (text : String) : Prop :=
  ∃ (e : Expression Operand) (more : List Lexeme),
    Lexeme.lex text.toList = .ok (e.lexemes ++ more) ∧ e.dividesByZero Operand.value = true

theorem reduce_of_startsDividingByZero {text : String} (h : StartsDividingByZero text) :
    reduce text = .error .divisionByZero := by
  obtain ⟨e, more, hlex, hzero⟩ := h
  have hpass := extend_chain text (.single e.chain.first.value) e.chain.rest more
  rw [zeroDivision_chain, hzero] at hpass
  rw [reduce_of_lex hlex, e.lexemes_eq, reduceLexemes_eq]
  simp only [List.cons_append, Operand.lexeme, sumLexemes, hpass, ↓reduceIte, conclude]

theorem source_lexemes (e : Expression Operand) : e.lexemes.flatMap Lexeme.source = e.text := by
  rw [Expression.lexemes, Expression.spell_flatMap, Expression.text]
  congr 1
  funext o
  simp [Operand.lexeme, Lexeme.source]

/-! ## The contract of the reducer -/

/-- A text has a derivation, or it starts with one that divides by 0, or it is
malformed. -/
theorem reduce_cases (text : String) :
    (∃ e : Expression Operand, e.text = text.toList) ∨ StartsDividingByZero text ∨
      ∃ reason, reduce text = .error (.malformedExpression text reason) := by
  cases hlex : Lexeme.lex text.toList with
  | error reason =>
    exact .inr (.inr ⟨reason, reduce_of_lex_error hlex⟩)
  | ok lexemes =>
    obtain ⟨hgenuine, hsource⟩ := lexFrom_sound hlex
    rcases reduceLexemes_cases text hgenuine with ⟨e, rfl⟩ | ⟨e, more, rfl, hzero⟩ | ⟨reason, herror⟩
    · exact .inl ⟨e, by rw [← source_lexemes, hsource]⟩
    · exact .inr (.inl ⟨e, more, hlex, hzero⟩)
    · refine .inr (.inr ⟨reason, ?_⟩)
      rw [reduce_of_lex hlex]
      exact herror

/-- The text has a derivation without a division by 0, and its value is the
finite number `x`. -/
def Evaluates (text : String) (x : Binary64) : Prop :=
  ∃ e : Expression Operand, e.text = text.toList ∧ e.dividesByZero Operand.value = false ∧
    (e.value Operand.value).isFinite = true ∧ e.value Operand.value = x

theorem outcome_eq_ok {α : Type} {value : α → Binary64} {text : String} {e : Expression α}
    {x : Binary64} : e.outcome value text = .ok x ↔
      e.dividesByZero value = false ∧ (e.value value).isFinite = true ∧ e.value value = x := by
  unfold Expression.outcome
  cases e.dividesByZero value <;> cases (e.value value).isFinite <;> simp

theorem reduce_eq_ok_iff {text : String} {x : Binary64} :
    reduce text = .ok x ↔ Evaluates text x := by
  constructor
  · intro h
    rcases reduce_cases text with ⟨e, he⟩ | hzero | ⟨reason, herror⟩
    · rw [reduce_text he, outcome_eq_ok] at h
      exact ⟨e, he, h⟩
    · rw [reduce_of_startsDividingByZero hzero] at h
      cases h
    · rw [herror] at h
      cases h
  · rintro ⟨e, he, h⟩
    rw [reduce_text he, outcome_eq_ok]
    exact h

theorem isFinite_of_reduce {text : String} {x : Binary64} (h : reduce text = .ok x) :
    x.isFinite = true := by
  obtain ⟨e, -, -, hfinite, rfl⟩ := reduce_eq_ok_iff.mp h
  exact hfinite

theorem reduce_eq_divisionByZero_iff {text : String} :
    reduce text = .error .divisionByZero ↔ StartsDividingByZero text := by
  refine ⟨fun h => ?_, reduce_of_startsDividingByZero⟩
  rcases reduce_cases text with ⟨e, he⟩ | hzero | ⟨reason, herror⟩
  · refine ⟨e, [], by rw [← he, lex_text, List.append_nil], ?_⟩
    rw [reduce_text he, Expression.outcome] at h
    cases hzero : e.dividesByZero Operand.value with
    | true => rfl
    | false =>
      rw [hzero] at h
      cases hfinite : (e.value Operand.value).isFinite <;> simp [hfinite] at h
  · exact hzero
  · rw [herror] at h
    cases h

/-- The two errors of the reducer, of which the second carries the text. -/
theorem reduce_error {text : String} {error : Error} (h : reduce text = .error error) :
    error = .divisionByZero ∨ ∃ reason, error = .malformedExpression text reason := by
  rcases reduce_cases text with ⟨e, he⟩ | hzero | ⟨reason, herror⟩
  · rw [reduce_text he, Expression.outcome] at h
    split at h
    · exact .inl (Except.error.inj h).symm
    · split at h
      · cases h
      · exact .inr ⟨_, (Except.error.inj h).symm⟩
  · rw [reduce_of_startsDividingByZero hzero] at h
    cases h
    exact .inl rfl
  · rw [herror] at h
    cases h
    exact .inr ⟨reason, rfl⟩

theorem reduce_malformed_iff {text : String} :
    (∃ reason, reduce text = .error (.malformedExpression text reason)) ↔
      (∀ x, ¬ Evaluates text x) ∧ ¬ StartsDividingByZero text := by
  constructor
  · rintro ⟨reason, hreduce⟩
    refine ⟨fun x hx => ?_, fun hzero => ?_⟩
    · rw [reduce_eq_ok_iff.mpr hx] at hreduce
      cases hreduce
    · rw [reduce_of_startsDividingByZero hzero] at hreduce
      cases hreduce
  · rintro ⟨hvalue, hzero⟩
    cases hreduce : reduce text with
    | ok x => exact absurd (reduce_eq_ok_iff.mp hreduce) (hvalue x)
    | error error =>
      rcases reduce_error hreduce with rfl | ⟨reason, rfl⟩
      · exact absurd (reduce_eq_divisionByZero_iff.mp hreduce) hzero
      · exact ⟨reason, rfl⟩

/-- **The contract of `reduce`**: it answers with a number exactly if the text
has a derivation, no divisor in it is 0 and its value is finite, and then with
this value. A text has at most one derivation. -/
theorem reduce_accepts_grammar (text : String) :
    (∀ x, reduce text = .ok x ↔ ∃ e : Expression Operand, e.text = text.toList ∧
      e.dividesByZero Operand.value = false ∧ (e.value Operand.value).isFinite = true ∧
        e.value Operand.value = x) ∧
      (∀ x, reduce text = .ok x → x.isFinite = true) ∧
      ∀ e e' : Expression Operand, e.text = text.toList → e'.text = text.toList → e = e' := by
  refine ⟨fun x => reduce_eq_ok_iff, ?_, fun e e' he he' => derivation_unique (he.trans he'.symm)⟩
  intro x hx
  obtain ⟨e, -, -, hfinite, rfl⟩ := reduce_eq_ok_iff.mp hx
  exact hfinite

end ArithScript.Grammar
