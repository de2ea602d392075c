import ArithScript.Expression.Reduction

/-!
# Two tiers in one pass

The two tiers of an expression can be read in a single pass that carries a partial sum: the
sum of the finished terms, and the value of the open term so far. A product changes the open
term, a sum closes it. The pass answers as the reader of sums does, whatever the lexemes are
(`Reader.sum_read`), so it stands for the reader where lexemes are taken one by one.
-/

namespace ArithScript

/-- An expression read up to some operand: the sum of the finished terms with
the operator that will join the open term to it, if there are any, and the value
of the open term so far. -/
structure PartialSum where
  settled : Option (Binary64 × Operator)
  term : Binary64

namespace PartialSum

/-- The expression of one operand. -/
def single (operand : Binary64) : PartialSum := ⟨none, operand⟩

/-- The value of the expression if it ends here. -/
def value (sum : PartialSum) : Binary64 :=
  match sum.settled with
  | none => sum.term
  | some (total, op) => op.apply total sum.term

/-- The expression with one more operator and operand. -/
def push (sum : PartialSum) (op : Operator) (operand : Binary64) : Except Error PartialSum :=
  match op with
  | .add | .sub => .ok ⟨some (sum.value, op), operand⟩
  | .mul => .ok { sum with term := sum.term * operand }
  | .div =>
    if operand.isZero then .error .divisionByZero
    else .ok { sum with term := sum.term / operand }

/-- Reads on after an operand, as long as operators follow. The answer is the
value and the lexemes left over. -/
def extend (expression : String) (sum : PartialSum) :
    List Lexeme → Except Error (Binary64 × List Lexeme)
  | .operator op :: .number _ operand :: rest =>
    match sum.push op operand with
    | .error e => .error e
    | .ok sum => extend expression sum rest
  | .operator _ :: .operator found :: _ =>
    .error (.malformedExpression expression (.expectedNumber found))
  | [.operator _] => .error (.malformedExpression expression .trailingOperator)
  | rest => .ok (sum.value, rest)

end PartialSum

/-- The value of the longest expression at the start of the lexemes, and the
lexemes left over. -/
def sumLexemes (expression : String) : List Lexeme → Except Error (Binary64 × List Lexeme)
  | [] => .error (.malformedExpression expression .empty)
  | .operator found :: _ => .error (.malformedExpression expression (.expectedNumber found))
  | .number _ operand :: rest => (PartialSum.single operand).extend expression rest

namespace PartialSum

theorem push_joinsTerms {op : Operator} (h : Reader.joinsTerms op = true) (sum : PartialSum)
    (operand : Binary64) : sum.push op operand = .ok ⟨some (sum.value, op), operand⟩ := by
  cases op with
  | add | sub => rfl
  | mul | div => cases h

theorem push_joinsFactors {op : Operator} (h : Reader.joinsFactors op = true) (sum : PartialSum)
    (operand : Binary64) : sum.push op operand =
      (Reader.combineFactors op sum.term operand).map fun term => ⟨sum.settled, term⟩ := by
  cases op with
  | add | sub => cases h
  | mul => rfl
  | div =>
    rw [push, Reader.combineFactors]
    cases operand.isZero <;> rfl

end PartialSum

namespace Reader

/-! ## Equations of the readers -/

section Tiers

variable (reader : Reader) (joins : Operator → Bool)
  (combine : Operator → Binary64 → Binary64 → Except Error Binary64)

theorem continueFrom_operator (acc : Binary64) (op : Operator) (lexemes : List Lexeme) :
    reader.continueFrom joins combine acc (.operator op :: lexemes) =
      if joins op then
        (reader.read lexemes).bind fun (value, rest) =>
          (combine op acc value).bind fun acc => reader.continueFrom joins combine acc rest
      else .ok (acc, .operator op :: lexemes) := by
  rw [continueFrom]
  split
  · split
    · next hread =>
      rw [hread]
      rfl
    · next hread =>
      rw [hread]
      dsimp only [Except.bind]
      split <;> next hcombine => rw [hcombine]
  · rfl

/-- Where no operator comes next, there is nothing to read on. -/
theorem continueFrom_of_head? (acc : Binary64) {lexemes : List Lexeme}
    (h : ∀ op, lexemes.head? ≠ some (.operator op)) :
    reader.continueFrom joins combine acc lexemes = .ok (acc, lexemes) := by
  rw [continueFrom]
  rintro op rest rfl
  exact h op rfl

theorem tier_read (lexemes : List Lexeme) : (reader.tier joins combine).read lexemes =
    (reader.read lexemes).bind fun (value, rest) =>
      reader.continueFrom joins combine value rest := by
  dsimp only [tier]
  cases reader.read lexemes <;> rfl

end Tiers

/-! ## The reader of sums behind an operand -/

section Sums

variable {expression : String} {sum : PartialSum} {op : Operator} {source : List Char}
  {value : Binary64} {lexemes : List Lexeme}

/-- Reads the factors that follow in an open term. -/
def factors (expression : String) :
    Binary64 → List Lexeme → Except Error (Binary64 × List Lexeme) :=
  (operand expression).continueFrom joinsFactors combineFactors

/-- Reads the terms that follow in a sum. -/
def summands (expression : String) :
    Binary64 → List Lexeme → Except Error (Binary64 × List Lexeme) :=
  (term expression).continueFrom joinsTerms combineTerms

/-- Reads on behind an operand: first the factors of the open term, then the terms. -/
def continueSum (expression : String) (sum : PartialSum) (lexemes : List Lexeme) :
    Except Error (Binary64 × List Lexeme) :=
  (factors expression sum.term lexemes).bind fun (term, rest) =>
    summands expression (PartialSum.value ⟨sum.settled, term⟩) rest

theorem term_read : (term expression).read (.number source value :: lexemes) =
    factors expression value lexemes := by
  rw [term, tier_read]
  rfl

theorem sum_read : (Reader.sum expression).read (.number source value :: lexemes) =
    continueSum expression (.single value) lexemes := by
  rw [Reader.sum, tier_read, term_read]
  rfl

/-- A sum or a difference closes the term, and the next one is opened. -/
theorem continueSum_joinsTerms (h : joinsTerms op = true) :
    continueSum expression sum (.operator op :: lexemes) =
      ((term expression).read lexemes).bind fun (value, rest) =>
        summands expression (op.apply sum.value value) rest := by
  have hfactors : joinsFactors op = false := by
    rwa [joinsTerms, Bool.not_eq_true'] at h
  have hclosed : factors expression sum.term (.operator op :: lexemes) =
      .ok (sum.term, .operator op :: lexemes) := by
    rw [factors, continueFrom_operator, hfactors]
    exact if_neg Bool.false_ne_true
  rw [continueSum, hclosed]
  change summands expression sum.value (.operator op :: lexemes) = _
  rw [summands, continueFrom_operator, if_pos h]
  rfl

/-- A product or a quotient goes into the open term. -/
theorem continueSum_joinsFactors (h : joinsFactors op = true) :
    continueSum expression sum (.operator op :: lexemes) =
      ((operand expression).read lexemes).bind fun (value, rest) =>
        (combineFactors op sum.term value).bind fun term =>
          continueSum expression ⟨sum.settled, term⟩ rest := by
  rw [continueSum, factors, continueFrom_operator, if_pos h]
  cases (operand expression).read lexemes with
  | error e => rfl
  | ok read =>
    dsimp only [Except.bind]
    cases combineFactors op sum.term read.1 with
    | error e => rfl
    | ok term => rfl

/-- An operator and an operand go into the partial sum. -/
theorem continueSum_operand (rest : List Lexeme) :
    continueSum expression sum (.operator op :: .number source value :: rest) =
      (sum.push op value).bind fun sum => continueSum expression sum rest := by
  cases hop : joinsFactors op with
  | true =>
    rw [continueSum_joinsFactors hop, PartialSum.push_joinsFactors hop]
    change (combineFactors op sum.term value).bind _ = _
    cases combineFactors op sum.term value <;> rfl
  | false =>
    have hterms : joinsTerms op = true := congrArg (!·) hop
    rw [continueSum_joinsTerms hterms, PartialSum.push_joinsTerms hterms, term_read]
    rfl

/-- Behind an operator without an operand the reading fails as the reading of the operand
does. -/
theorem continueSum_of_error {e : Error} (h : (operand expression).read lexemes = .error e) :
    continueSum expression sum (.operator op :: lexemes) = .error e := by
  cases hop : joinsFactors op with
  | true =>
    rw [continueSum_joinsFactors hop, h]
    rfl
  | false =>
    have hterms : joinsTerms op = true := congrArg (!·) hop
    rw [continueSum_joinsTerms hterms, term, tier_read, h]
    rfl

end Sums

/-! ## The pass -/

/-- The pass reads on behind an operand as the two tiers do, by induction on the lexemes that
it takes. -/
theorem extend_eq (expression : String) (sum : PartialSum) (lexemes : List Lexeme) :
    sum.extend expression lexemes = continueSum expression sum lexemes := by
  fun_induction PartialSum.extend expression sum lexemes with
  | case1 sum op source value rest e hpush =>
    rw [continueSum_operand, hpush]
    rfl
  | case2 sum op source value rest sum' hpush ih =>
    rw [ih, continueSum_operand, hpush]
    rfl
  | case3 sum op found rest => rw [continueSum_of_error rfl]
  | case4 sum op => rw [continueSum_of_error rfl]
  | case5 sum lexemes hnumber hoperator hlast =>
    have hhead : ∀ op, lexemes.head? ≠ some (.operator op) := by
      intro op hop
      obtain ⟨more, rfl⟩ := List.head?_eq_some_iff.mp hop
      match more with
      | [] => exact hlast op rfl
      | .number source x :: more => exact hnumber op source x more rfl
      | .operator found :: more => exact hoperator op found more rfl
    rw [continueSum, factors, continueFrom_of_head? _ _ _ _ hhead]
    exact (continueFrom_of_head? _ _ _ _ hhead).symm

theorem sumLexemes_eq {expression : String} {lexemes : List Lexeme} (h : lexemes ≠ []) :
    (Reader.sum expression).read lexemes = sumLexemes expression lexemes := by
  match lexemes, h with
  | .number source value :: rest, _ => rw [sum_read, sumLexemes, extend_eq]
  | .operator found :: rest, _ => rfl

end Reader

/-- The reducer in one pass. -/
theorem reduceLexemes_eq (expression : String) (lexemes : List Lexeme) :
    reduceLexemes expression lexemes = conclude expression (sumLexemes expression lexemes) := by
  cases lexemes with
  | nil => rfl
  | cons lexeme rest =>
    rw [reduceLexemes, Reader.sumLexemes_eq (List.cons_ne_nil _ _)]
    rfl

end ArithScript
