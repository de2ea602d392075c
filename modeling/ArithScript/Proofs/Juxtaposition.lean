import ArithScript.Proofs.Effects
import ArithScript.Proofs.Rendering

/-!
# Operands without an operator between them

The reducer gets the texts of a line's symbols with nothing between them, so it
does not see where one operand ends and the next one starts. Between two texts of
numbers it can overlook the boundary in two ways only: the second one has a sign,
which is then read as the operator, or the two together are the text of one
number. Otherwise the line has no value (`Line.evaluate_juxtaposed`).

In an expression a numeral has one point and one exponent at most. `Progress`
keeps track of this along a text, from wherever it starts, so it tells which
texts can follow each other inside an expression.
-/

namespace ArithScript

namespace Grammar

/-! ## Progress along a text -/

/-- What the numeral that may be under way has had so far. -/
inductive Progress where
  /-- Neither a point nor an exponent. -/
  | fresh
  | pointed
  /-- The mark of the exponent, which a sign or a digit has to follow. -/
  | marked
  | scaled
  deriving DecidableEq, Repr

namespace Progress

/-- The progress after a digit. -/
def digit : Progress → Progress
  | marked => scaled
  | s => s

/-- The progress after one more character, unless no expression goes on with
it. Operators start afresh. -/
def next (s : Progress) (c : Char) : Option Progress :=
  if c.isDigit then some s.digit
  else if c = '.' then if s = fresh then some pointed else none
  else if c = 'e' ∨ c = 'E' then if s = fresh ∨ s = pointed then some marked else none
  else some (if s = marked then scaled else fresh)

/-- The progress after a text. -/
def run (s : Progress) (cs : List Char) : Option Progress := cs.foldlM next s

theorem run_cons (s : Progress) (c : Char) (cs : List Char) :
    s.run (c :: cs) = (s.next c).bind fun t => t.run cs := rfl

theorem run_append (s : Progress) (cs ds : List Char) :
    s.run (cs ++ ds) = (s.run cs).bind fun t => t.run ds := List.foldlM_append

theorem digit_digit (s : Progress) : s.digit.digit = s.digit := by
  cases s <;> rfl

theorem digit_ne_fresh {s : Progress} (h : s ≠ fresh) : s.digit ≠ fresh := by
  cases s with
  | fresh => exact absurd rfl h
  | pointed | marked | scaled => exact Progress.noConfusion

theorem run_digits {cs : List Char} (h : ∀ c ∈ cs, c.isDigit = true) (s : Progress) :
    s.run cs = some (if cs = [] then s else s.digit) := by
  induction cs generalizing s with
  | nil => rfl
  | cons c cs ih =>
    have hnext : s.next c = some s.digit := by rw [next, if_pos (h c List.mem_cons_self)]
    rw [run_cons, hnext, Option.bind_some, ih fun d hd => h d (List.mem_cons_of_mem c hd),
      digit_digit, ite_self, if_neg (List.cons_ne_nil c cs)]

theorem next_point (s : Progress) : s.next '.' = if s = fresh then some pointed else none := rfl

theorem next_mark (s : Progress) (e : Exponent) :
    s.next e.mark = if s = fresh ∨ s = pointed then some marked else none := by
  rcases e.mark_eq with h | h <;> rw [h] <;> rfl

theorem next_operator (s : Progress) (op : Operator) :
    s.next op.toChar = some (if s = marked then scaled else fresh) := by
  cases op <;> rfl

theorem run_pointed {fraction : Option (List Char)}
    (h : ∀ c ∈ fraction.getD [], c.isDigit = true) (s : Progress) :
    s.run (Grammar.pointed fraction) =
      if fraction = none then some s else if s = fresh then some pointed else none := by
  cases fraction with
  | none => rfl
  | some digits =>
    rw [Grammar.pointed, run_cons, next_point, if_neg (Option.some_ne_none digits)]
    by_cases hs : s = fresh
    · rw [if_pos hs, Option.bind_some, @run_digits digits h]
      split <;> rfl
    · rw [if_neg hs, Option.bind_none]

theorem run_exponent (e : Exponent) (s : Progress) :
    s.run e.text = if s = fresh ∨ s = pointed then some scaled else none := by
  have hdigits : ∀ t : Progress, t.run e.digits.chars = some t.digit := by
    intro t
    rw [run_digits e.digits.isDigit, if_neg e.digits.nonempty]
  rw [Exponent.text, run_cons, next_mark]
  split
  · rw [Option.bind_some, run_append]
    rcases e.sign with _ | _ | _
    · exact hdigits marked
    · exact hdigits scaled
    · exact hdigits scaled
  · rfl

/-! ## Numerals on the way -/

variable {s t : Progress} {n : Numeral}

theorem exists_run_parts (h : s.run n.text = some t) : ∃ u v,
    s.run n.mantissa.wholeDigits = some u ∧ u.run (Grammar.pointed n.mantissa.fraction?) = some v ∧
      v.run (Numeral.exponentText n.exponent) = some t := by
  rw [Numeral.text, Mantissa.text_eq, run_append, run_append] at h
  obtain ⟨v, hv, ht⟩ := Option.bind_eq_some_iff.mp h
  obtain ⟨u, hu, hv⟩ := Option.bind_eq_some_iff.mp hv
  exact ⟨u, v, hu, hv, ht⟩

theorem scaled_of_run {e : Exponent} (he : n.exponent = some e) (h : s.run n.text = some t) :
    t = scaled := by
  obtain ⟨u, v, -, -, ht⟩ := exists_run_parts h
  rw [he, Numeral.exponentText, run_exponent] at ht
  split at ht <;> cases ht
  rfl

theorem pointed_of_run {digits : List Char} (he : n.exponent = none)
    (hfraction : n.mantissa.fraction? = some digits) (h : s.run n.text = some t) :
    t = pointed := by
  obtain ⟨u, v, -, hv, ht⟩ := exists_run_parts h
  rw [run_pointed n.mantissa.isDigit_fraction, hfraction, if_neg (Option.some_ne_none digits)] at hv
  rw [he] at ht
  cases ht
  split at hv <;> cases hv
  rfl

/-- A numeral that goes on with another one has no point, unless it is the first
of the two. -/
theorem fraction?_of_run (hs : s ≠ fresh) (h : s.run n.text = some t) :
    n.mantissa.fraction? = none := by
  obtain ⟨u, v, hu, hv, -⟩ := exists_run_parts h
  rw [run_digits n.mantissa.isDigit_whole] at hu
  rw [run_pointed n.mantissa.isDigit_fraction] at hv
  have hfresh : u ≠ fresh := by
    split at hu <;> cases hu
    · exact hs
    · exact digit_ne_fresh hs
  rw [if_neg hfresh] at hv
  split at hv
  · assumption
  · cases hv

theorem exponent_of_run (h : scaled.run n.text = some t) : n.exponent = none := by
  obtain ⟨u, v, hu, hv, ht⟩ := exists_run_parts h
  have hfraction : n.mantissa.fraction? = none := fraction?_of_run Progress.noConfusion h
  rw [run_digits n.mantissa.isDigit_whole] at hu
  rw [hfraction] at hv
  cases hv
  cases he : n.exponent with
  | none => rfl
  | some e =>
    rw [he, Numeral.exponentText, run_exponent] at ht
    split at hu <;> cases hu <;> cases ht

/-! ## Expressions on the way -/

theorem run_numeral (n : Numeral) : ∃ t, fresh.run n.text = some t ∧ t ≠ marked := by
  have hwhole : fresh.run n.mantissa.wholeDigits = some fresh := by
    rw [run_digits n.mantissa.isDigit_whole]
    split <;> rfl
  have hpointed := run_pointed n.mantissa.isDigit_fraction fresh
  rw [Numeral.text, Mantissa.text_eq, run_append, run_append, hwhole, Option.bind_some, hpointed]
  cases n.exponent with
  | none =>
    split
    · exact ⟨fresh, rfl, Progress.noConfusion⟩
    · exact ⟨pointed, rfl, Progress.noConfusion⟩
  | some e =>
    refine ⟨scaled, ?_, Progress.noConfusion⟩
    split <;> exact run_exponent e _

theorem run_operand (o : Operand) : ∃ t, fresh.run o.text = some t ∧ t ≠ marked := by
  rw [Operand.text, run_append]
  rcases o.sign with _ | _ | _ <;> exact run_numeral o.numeral

/-- Every expression goes on to its end. -/
theorem run_chain (o : Operand) (rest : List (Operator × Operand)) :
    ∃ t, fresh.run (Chain.text ⟨o, rest⟩) = some t := by
  induction rest generalizing o with
  | nil =>
    obtain ⟨t, ht, -⟩ := run_operand o
    exact ⟨t, by rwa [Chain.text, Chain.spell, List.flatMap_nil, List.append_nil]⟩
  | cons step rest ih =>
    obtain ⟨op, o'⟩ := step
    obtain ⟨t, ht, hmarked⟩ := run_operand o
    obtain ⟨u, hu⟩ := ih o'
    refine ⟨u, ?_⟩
    rw [Chain.text_cons, run_append, ht, Option.bind_some, run_cons, next_operator, if_neg hmarked,
      Option.bind_some, hu]

/-- What stands next to each other in an expression can be gone through, from
some progress or other. -/
theorem exists_run_of_infix {e : Expression Operand} {before cs after : List Char}
    (h : e.text = before ++ cs ++ after) : ∃ s t : Progress, s.run cs = some t := by
  obtain ⟨u, hu⟩ := run_chain e.chain.first e.chain.rest
  change fresh.run (Chain.text e.chain) = some u at hu
  rw [Chain.text, Expression.spell_chain] at hu
  change fresh.run e.text = some u at hu
  rw [h, run_append, run_append] at hu
  obtain ⟨t, ht, -⟩ := Option.bind_eq_some_iff.mp hu
  obtain ⟨s, -, ht⟩ := Option.bind_eq_some_iff.mp ht
  exact ⟨s, t, ht⟩

end Progress

/-! ## Texts that run together -/

theorem isDigit_append {cs ds : List Char} (hcs : ∀ c ∈ cs, c.isDigit = true)
    (hds : ∀ c ∈ ds, c.isDigit = true) : ∀ c ∈ cs ++ ds, c.isDigit = true := by
  intro c hc
  rcases List.mem_append.mp hc with hc | hc
  · exact hcs c hc
  · exact hds c hc

namespace Numeral

variable {x y : Numeral}

theorem exists_append_whole (hexponent : x.exponent = none) (hfraction : x.mantissa.fraction? = none)
    (y : Numeral) : ∃ n : Numeral, n.text = x.text ++ y.text := by
  have hdigits := isDigit_append x.mantissa.isDigit_whole y.mantissa.isDigit_whole
  have hsome : x.mantissa.wholeDigits ++ y.mantissa.wholeDigits ++
      y.mantissa.fraction?.getD [] ≠ [] := by
    rw [List.append_assoc]
    exact List.append_ne_nil_of_right_ne_nil _ y.mantissa.digits_ne_nil
  obtain ⟨m, hwhole, hrest⟩ := Mantissa.exists_of_parts y.mantissa.fraction? hdigits
    y.mantissa.isDigit_fraction hsome
  refine ⟨⟨m, y.exponent⟩, ?_⟩
  simp only [text, Mantissa.text_eq, hwhole, hrest, hexponent, hfraction, pointed, exponentText,
    List.append_nil, List.append_assoc]

theorem exists_append_digits (hexponent : x.exponent = none) {digits : List Char}
    (hfraction : x.mantissa.fraction? = some digits) (hy : y.mantissa.fraction? = none) :
    ∃ n : Numeral, n.text = x.text ++ y.text := by
  have hdigits := x.mantissa.isDigit_fraction
  have hsome := x.mantissa.digits_ne_nil
  rw [hfraction, Option.getD_some] at hdigits hsome
  have hsome' : x.mantissa.wholeDigits ++ (digits ++ y.mantissa.wholeDigits) ≠ [] := by
    rw [← List.append_assoc]
    exact List.append_ne_nil_of_left_ne_nil hsome _
  obtain ⟨m, hwhole, hrest⟩ := Mantissa.exists_of_parts (some (digits ++ y.mantissa.wholeDigits))
    x.mantissa.isDigit_whole (isDigit_append hdigits y.mantissa.isDigit_whole) hsome'
  refine ⟨⟨m, y.exponent⟩, ?_⟩
  simp only [text, Mantissa.text_eq, hwhole, hrest, hexponent, hfraction, hy, pointed, exponentText,
    List.append_nil, List.append_assoc, List.cons_append]

theorem exists_append_exponent {e : Exponent} (hexponent : x.exponent = some e)
    (hfraction : y.mantissa.fraction? = none) (hy : y.exponent = none) :
    ∃ n : Numeral, n.text = x.text ++ y.text := by
  refine ⟨⟨x.mantissa, some ⟨e.capital, e.sign, ⟨e.digits.chars ++ y.mantissa.wholeDigits,
    List.append_ne_nil_of_left_ne_nil e.digits.nonempty _,
    isDigit_append e.digits.isDigit y.mantissa.isDigit_whole⟩⟩⟩, ?_⟩
  simp only [text, hexponent, Mantissa.text_eq y.mantissa, hfraction, hy, pointed, exponentText,
    Exponent.text, Exponent.mark, List.append_nil, List.append_assoc, List.cons_append]

/-- Two numerals that can be gone through one after the other are one. -/
theorem exists_append_of_run {s t : Progress} (h : s.run (x.text ++ y.text) = some t) :
    ∃ n : Numeral, n.text = x.text ++ y.text := by
  rw [Progress.run_append] at h
  obtain ⟨u, hx, hy⟩ := Option.bind_eq_some_iff.mp h
  cases hexponent : x.exponent with
  | some e =>
    obtain rfl := Progress.scaled_of_run hexponent hx
    exact exists_append_exponent hexponent (Progress.fraction?_of_run Progress.noConfusion hy)
      (Progress.exponent_of_run hy)
  | none =>
    cases hfraction : x.mantissa.fraction? with
    | none => exact exists_append_whole hexponent hfraction y
    | some digits =>
      obtain rfl := Progress.pointed_of_run hexponent hfraction hx
      exact exists_append_digits hexponent hfraction (Progress.fraction?_of_run Progress.noConfusion hy)

end Numeral

/-- Texts of numbers that stand next to each other in an expression are one text
of a number, unless there is a sign between them. -/
theorem Operand.exists_append_of_infix {e : Expression Operand} {x y : Operand}
    {before after : List Char} (hsign : y.sign = none)
    (h : e.text = before ++ (x.text ++ y.text) ++ after) :
    ∃ o : Operand, o.text = x.text ++ y.text := by
  obtain ⟨s, t, hrun⟩ := Progress.exists_run_of_infix h
  have hy : y.text = y.numeral.text := by rw [text, hsign, Sign.text, List.nil_append]
  rw [hy, text, List.append_assoc, Progress.run_append] at hrun
  obtain ⟨u, -, hrun⟩ := Option.bind_eq_some_iff.mp hrun
  obtain ⟨n, hn⟩ := Numeral.exists_append_of_run hrun
  exact ⟨⟨x.sign, n⟩, by rw [hy, text, text, hn, List.append_assoc]⟩

end Grammar

open Grammar

/-! ## Evaluation of one text -/

namespace Line

variable {store : Store} {line resolved : Line} {text : String}

theorem reduceWith_eq (reducer : Reducer) (hresolve : line.resolve store = .ok resolved)
    (htext : resolved.evaluationText = .ok text) :
    line.reduceWith reducer store = (reducer text, resolved) := by
  rw [reduceWith, hresolve]
  dsimp only
  rw [htext]
  rfl

/-- An expression line fails as its text does, or has the value of its text, or
cannot register it. -/
theorem evaluate_expression (reducer : Reducer) (hsymbols : line.form.symbols ≠ [])
    (hresolve : line.resolve store = .ok resolved) (htext : resolved.evaluationText = .ok text) :
    (∃ error, reducer text = .error error ∧
      (line.evaluate reducer store).result = .error error) ∨
    ∃ n, reducer text = .ok n ∧ ((line.evaluate reducer store).result = .ok (.number n) ∨
      ∃ target error, store.register target n.text = .error error ∧
        (line.evaluate reducer store).result = .error error) := by
  have hreduce := reduceWith_eq reducer hresolve htext
  unfold evaluate
  cases hform : line.form with
  | plain symbols =>
    dsimp only
    rw [hreduce]
    cases reducer text with
    | error error => exact .inl ⟨error, rfl, rfl⟩
    | ok n => exact .inr ⟨n, rfl, .inl rfl⟩
  | scalarAssign target symbols =>
    dsimp only
    rw [hreduce]
    cases reducer text with
    | error error => exact .inl ⟨error, rfl, rfl⟩
    | ok n =>
      refine .inr ⟨n, rfl, ?_⟩
      cases hregister : store.register target n.text with
      | error error => exact .inr ⟨target, error, hregister, by simp [Except.bind, hregister, Except.map]⟩
      | ok store' => exact .inl (by simp [Except.bind, hregister, Except.map])
  | arrayAssign | call =>
    rw [hform] at hsymbols
    exact absurd rfl hsymbols

theorem evaluate_number {n : Binary64} (hsymbols : line.form.symbols ≠ [])
    (hresolve : line.resolve store = .ok resolved) (htext : resolved.evaluationText = .ok text)
    (h : (line.evaluate reduce store).result = .ok (.number n)) : Evaluates text n := by
  rcases evaluate_expression reduce hsymbols hresolve htext with
    ⟨error, -, hresult⟩ | ⟨x, hreduce, hresult | ⟨target, error, -, hresult⟩⟩
  · rw [hresult] at h
    cases h
  · rw [hresult] at h
    cases h
    exact reduce_eq_ok_iff.mp hreduce
  · rw [hresult] at h
    cases h

theorem evaluate_error {error : Error} (hsymbols : line.form.symbols ≠ [])
    (hresolve : line.resolve store = .ok resolved) (htext : resolved.evaluationText = .ok text)
    (h : reduce text = .error error) : (line.evaluate reduce store).result = .error error := by
  rcases evaluate_expression reduce hsymbols hresolve htext with
    ⟨error', hreduce, hresult⟩ | ⟨n, hreduce, -⟩
  · rw [h] at hreduce
    cases hreduce
    exact hresult
  · rw [h] at hreduce
    cases hreduce

theorem evaluate_malformed_iff (hsymbols : line.form.symbols ≠ [])
    (hresolve : line.resolve store = .ok resolved) (htext : resolved.evaluationText = .ok text) :
    (∃ reason, (line.evaluate reduce store).result =
      .error (.malformedExpression text reason)) ↔
      (∀ n, ¬ Evaluates text n) ∧ ¬ StartsDividingByZero text := by
  rw [← reduce_malformed_iff]
  constructor
  · rintro ⟨reason, h⟩
    refine ⟨reason, ?_⟩
    rcases evaluate_expression reduce hsymbols hresolve htext with
      ⟨error, hreduce, hresult⟩ | ⟨n, -, hresult | ⟨target, error, hregister, hresult⟩⟩
    · rw [h] at hresult
      cases hresult
      exact hreduce
    · rw [h] at hresult
      cases hresult
    · rw [h] at hresult
      cases hresult
      rcases Store.register_error hregister with he | he | he <;> cases he
  · rintro ⟨reason, h⟩
    exact ⟨reason, evaluate_error hsymbols hresolve htext h⟩

/-! ## Neighbouring operands -/

/-- The text of an operand of the line in the expression. -/
def operandText (store : Store) (line : Line) : Symbol → Option String
  | .number x => some x.text
  | .operator _ => none
  | .scalar r | .element r => line.textOf store r

theorem rendered_of_operandText {s : Symbol} (h : line.operandText store s = some text) :
    (line.settle store s).rendered = text := by
  cases s with
  | number x =>
    cases h
    rfl
  | operator token => cases h
  | scalar r | element r =>
    have htext : line.textOf store r = some text := h
    simp only [settle, Symbol.rendered, htext, Option.getD_some]

theorem text_ne_of_operands {e : Expression Operand} {before after : List Symbol} {a b : Symbol}
    {x y : Operand} (hsymbols : line.form.symbols = before ++ a :: b :: after)
    (ha : line.operandText store a = some (String.ofList x.text))
    (hb : line.operandText store b = some (String.ofList y.text)) (hsign : y.sign = none)
    (hapart : ∀ o : Operand, o.text ≠ x.text ++ y.text) :
    e.text ≠ (line.expressionText store).toList := by
  intro h
  rw [toList_expressionText, hsymbols, List.flatMap_append, List.flatMap_cons, List.flatMap_cons,
    rendered_of_operandText ha, rendered_of_operandText hb, String.toList_ofList,
    String.toList_ofList, ← List.append_assoc x.text, ← List.append_assoc] at h
  obtain ⟨o, ho⟩ := Operand.exists_append_of_infix hsign h
  exact hapart o ho

/-- Neighbouring operands have a value only if the boundary between them is lost
in the text: if the second has a sign, or if both together are the text of one
number. Whatever the operands, it is the text that decides. -/
theorem evaluate_juxtaposed {before after : List Symbol} {a b : Symbol}
    (hsymbols : line.form.symbols = before ++ a :: b :: after) (hbound : line.Bound store) :
    ∃ resolved text, line.resolve store = .ok resolved ∧ resolved.evaluationText = .ok text ∧
      (∀ x y : Operand, line.operandText store a = some (String.ofList x.text) →
        line.operandText store b = some (String.ofList y.text) → y.sign = none →
        (∀ o : Operand, o.text ≠ x.text ++ y.text) →
        (StartsDividingByZero text ∧
            (line.evaluate reduce store).result = .error .divisionByZero) ∨
          ∃ reason, (line.evaluate reduce store).result =
            .error (.malformedExpression text reason)) ∧
      (∀ n, (line.evaluate reduce store).result = .ok (.number n) → Evaluates text n) ∧
      ((∃ reason, (line.evaluate reduce store).result =
          .error (.malformedExpression text reason)) ↔
        (∀ n, ¬ Evaluates text n) ∧ ¬ StartsDividingByZero text) := by
  have hne : line.form.symbols ≠ [] := by
    rw [hsymbols]
    exact List.append_ne_nil_of_right_ne_nil before (List.cons_ne_nil a _)
  obtain ⟨resolved, hresolve, htext⟩ := exists_expressionText hne hbound
  refine ⟨resolved, _, hresolve, htext, ?_, fun n => evaluate_number hne hresolve htext,
    evaluate_malformed_iff hne hresolve htext⟩
  intro x y ha hb hsign hapart
  by_cases hzero : StartsDividingByZero (line.expressionText store)
  · exact .inl ⟨hzero, evaluate_error hne hresolve htext (reduce_of_startsDividingByZero hzero)⟩
  · refine .inr ((evaluate_malformed_iff hne hresolve htext).mpr ⟨?_, hzero⟩)
    rintro n ⟨e, he, -⟩
    exact text_ne_of_operands hsymbols ha hb hsign hapart he

/-- Two numbers with points, the second of them in a store. -/
theorem evaluate_juxtaposed_points :
    let store : Store := ⟨.ofList [("$X", Entry.scalar "1.5")], ∅⟩
    let line : Line := ⟨.plain [.number (Decimal.toBinary64 false ⟨25, -1⟩),
      .scalar ⟨"$X", none⟩], false⟩
    line.Bound store ∧ ∃ resolved text, line.resolve store = .ok resolved ∧
      resolved.evaluationText = .ok text ∧
      ((StartsDividingByZero text ∧
          (line.evaluate reduce store).result = .error .divisionByZero) ∨
        ∃ reason, (line.evaluate reduce store).result =
          .error (.malformedExpression text reason)) := by
  intro store line
  have hbound : line.Bound store := by
    intro s hs r hr
    simp only [line, Form.symbols, List.mem_cons, List.not_mem_nil, or_false] at hs
    rcases hs with rfl | rfl
    · cases hr
    · cases hr
      exact ⟨"1.5", by rfl⟩
  obtain ⟨resolved, text, hresolve, htext, hapart, -⟩ :=
    @evaluate_juxtaposed store line [] [] _ _ rfl hbound
  refine ⟨hbound, resolved, text, hresolve, htext, ?_⟩
  refine hapart ⟨none, .plain (.ofNat 2) (some (.ofNat 5))⟩
    ⟨none, .plain (.ofNat 1) (some (.ofNat 5))⟩ (by decide +kernel) (by rfl) rfl ?_
  intro o ho
  have hread := o.read_text
  rw [ho] at hread
  have hnone : Binary64.read? ['2', '.', '5', '1', '.', '5'] = none := by decide +kernel
  exact Option.some_ne_none _ (hread.symm.trans hnone)

/-- `1 2` is 12, so neighbouring operands are not rejected in general. -/
theorem evaluate_juxtaposed_digits : ¬ ∀ (store : Store) (statement : String) (line : Line)
    (before after : List Symbol) (a b : Symbol), Line.parse statement = .ok line →
      line.form.symbols = before ++ a :: b :: after → line.Bound store →
      (line.operandText store a).isSome = true → (line.operandText store b).isSome = true →
      ∃ text reason, (line.evaluate reduce store).result =
        .error (.malformedExpression text reason) := by
  intro h
  let line : Line := ⟨.plain [.number (.ofNat 1), .number (.ofNat 2)], false⟩
  have hparse : Line.parse "1 2" = .ok line := eq_ok_of_toOption (by decide +kernel)
  have hbound : line.Bound .empty := by
    intro s hs r hr
    simp only [line, Form.symbols, List.mem_cons, List.not_mem_nil, or_false] at hs
    rcases hs with rfl | rfl <;> cases hr
  have hresult : (line.evaluate reduce .empty).result = .ok (.number (.ofNat 12)) :=
    eq_ok_of_toOption (by decide +kernel)
  obtain ⟨text, reason, herror⟩ := h .empty "1 2" line [] [] _ _ hparse rfl hbound rfl rfl
  rw [hresult] at herror
  cases herror

end Line

end ArithScript
