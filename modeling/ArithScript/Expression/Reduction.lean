import ArithScript.Expression.Scanner

/-!
# Reduction of expressions

`reduce` scans an expression and reads its lexemes in two tiers. Products and quotients join
operands into terms, sums and differences join terms, and both tiers associate to the left:

    expression = term { ( "+" | "-" ) term }
    term       = number { ( "*" | "/" ) number }

A division by zero ends the reading at once; so it is reported even if the rest of the
expression is malformed, but only when all of the text could be cut into lexemes.
-/

namespace ArithScript

/-! ## Readers -/

/-- A way to read a value from the front of lexemes, with the lexemes left over. -/
structure Reader where
  read : List Lexeme → Except Error (Binary64 × List Lexeme)
  /-- What is read is taken off. -/
  shortens : ∀ {lexemes rest : List Lexeme} {value : Binary64},
    read lexemes = .ok (value, rest) → rest.length < lexemes.length

namespace Reader

/-- Reads on after the value `acc`, as long as an operator of the tier follows and a value
behind it. -/
def continueFrom (reader : Reader) (joins : Operator → Bool)
    (combine : Operator → Binary64 → Binary64 → Except Error Binary64) (acc : Binary64) :
    List Lexeme → Except Error (Binary64 × List Lexeme)
  | .operator op :: rest =>
    if joins op then
      match _h : reader.read rest with
      | .error e => .error e
      | .ok (value, rest') =>
        match combine op acc value with
        | .error e => .error e
        | .ok acc => continueFrom reader joins combine acc rest'
    else .ok (acc, .operator op :: rest)
  | lexemes => .ok (acc, lexemes)
termination_by lexemes => lexemes.length
decreasing_by exact Nat.lt_succ_of_lt (reader.shortens _h)

theorem length_continueFrom {reader : Reader} {joins : Operator → Bool}
    {combine : Operator → Binary64 → Binary64 → Except Error Binary64} {acc value : Binary64}
    {lexemes rest : List Lexeme}
    (h : reader.continueFrom joins combine acc lexemes = .ok (value, rest)) :
    rest.length ≤ lexemes.length := by
  fun_induction continueFrom reader joins combine acc lexemes with
  | case1 acc op more _ e hread => cases h
  | case2 acc op more _ operand more' hread e hcombine => cases h
  | case3 acc op more _ operand more' hread acc' hcombine ih =>
    have hlt := reader.shortens hread
    have hle := ih h
    rw [List.length_cons]
    omega
  | case4 acc op more _ =>
    cases h
    exact Nat.le_refl _
  | case5 acc lexemes =>
    cases h
    exact Nat.le_refl _

/-- Reads values with operators of a tier between them, and combines them from the left. -/
def tier (reader : Reader) (joins : Operator → Bool)
    (combine : Operator → Binary64 → Binary64 → Except Error Binary64) : Reader where
  read lexemes :=
    match reader.read lexemes with
    | .error e => .error e
    | .ok (value, rest) => reader.continueFrom joins combine value rest
  shortens {lexemes rest value} h := by
    split at h
    · cases h
    · next hread => exact Nat.lt_of_le_of_lt (length_continueFrom h) (reader.shortens hread)

def operand (expression : String) : Reader where
  read
    | .number _ value :: rest => .ok (value, rest)
    | .operator found :: _ => .error (.malformedExpression expression (.expectedNumber found))
    | [] => .error (.malformedExpression expression .trailingOperator)
  shortens {lexemes rest value} h := by
    split at h <;> cases h
    exact Nat.lt_succ_self _

def joinsFactors : Operator → Bool
  | .mul | .div => true
  | .add | .sub => false

def joinsTerms (op : Operator) : Bool := !joinsFactors op

/-- The product or the quotient of two values. -/
def combineFactors (op : Operator) (acc value : Binary64) : Except Error Binary64 :=
  if op = .div ∧ value.isZero then .error .divisionByZero else .ok (op.apply acc value)

/-- The sum or the difference of two values. -/
def combineTerms (op : Operator) (acc value : Binary64) : Except Error Binary64 :=
  .ok (op.apply acc value)

def term (expression : String) : Reader :=
  (operand expression).tier joinsFactors combineFactors

def sum (expression : String) : Reader := (term expression).tier joinsTerms combineTerms

end Reader

/-! ## The reducer -/

/-- What comes of a sum that is read: nothing may be left over, and the value has to be
finite. -/
def conclude (expression : String) :
    Except Error (Binary64 × List Lexeme) → Except Error Binary64
  | .error e => .error e
  | .ok (value, []) =>
    if value.isFinite then .ok value
    else .error (.malformedExpression expression .notFinite)
  | .ok (_, .number _ n :: _) => .error (.malformedExpression expression (.missingOperator n))
  | .ok (_, .operator op :: _) => .error (.malformedExpression expression (.unexpectedOperator op))

/-- The value of an expression cut into lexemes. -/
def reduceLexemes (expression : String) (lexemes : List Lexeme) : Except Error Binary64 :=
  if lexemes.isEmpty then .error (.malformedExpression expression .empty)
  else conclude expression ((Reader.sum expression).read lexemes)

/-- The value of an expression. All that the scan cuts out are slices, so there are always
lexemes or a fault. -/
def reduce (expression : String) : Except Error Binary64 :=
  match Scanner.lexemes? expression with
  | some (.ok lexemes) => reduceLexemes expression lexemes
  | some (.error reason) => .error (.malformedExpression expression reason)
  | none => .error (.malformedExpression expression .empty)

end ArithScript
