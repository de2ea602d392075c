import ArithScript.Expression.Operator
import ArithScript.Number.Text

/-!
# Errors

Everything that can go wrong with a statement is one of the causes below, and
`Malformation.message` and `Error.message` are the only places with their
wording. An error ends the statement it occurs in and leaves the store as it
was.
-/

namespace ArithScript

/-! ## Malformed expressions -/

/-- Why a text is no expression, or has no value. -/
inductive Malformation where
  | empty
  | notFinite
  | missingOperator (before : Binary64)
  | unexpectedOperator (found : Operator)
  | expectedNumber (found : Operator)
  | trailingOperator
  | invalidNumber (text : String)
  | parenthesis
  | unexpectedCharacter (found : Char)
  /-- Another reducer than that of the language gives a reason in words of its own. -/
  | other (reason : String)
  deriving DecidableEq

def Malformation.message : Malformation → String
  | empty => "empty expression"
  | notFinite => "result is not finite"
  | missingOperator n => "missing operator before " ++ n.positional
  | unexpectedOperator op => "unexpected operator '" ++ op.toChar.toString ++ "'"
  | expectedNumber op => "expected a number, found '" ++ op.toChar.toString ++ "'"
  | trailingOperator => "expression ends with an operator"
  | invalidNumber text => "invalid number '" ++ text ++ "'"
  | parenthesis => "parentheses are not supported"
  | unexpectedCharacter c => "unexpected character '" ++ c.toString ++ "'"
  | other reason => reason

/-! ## Errors -/

/-- Why a statement, or an operation of the store, fails. -/
inductive Error where
  /-- A token is no symbol. -/
  | invalidSymbol (token : String)
  /-- A name does not have the shape that its use asks for. -/
  | invalidName (name : String)
  /-- The name is registered already. -/
  | duplicateName (name : String)
  /-- Nothing is registered under the name. -/
  | notFound (name : String)
  /-- The array has no element at the position. -/
  | indexOutOfRange (array position : String) (length : Nat)
  /-- Two separators stand next to each other, or one at an end. -/
  | malformedSeparator (body : String)
  /-- The value of a line is asked for before its references are resolved. -/
  | notResolved
  | malformedExpression (expression : String) (reason : Malformation)
  | divisionByZero
  /-- A function refuses its arguments, in words of its own. -/
  | functionFailed (name reason : String)
  deriving DecidableEq

namespace Error

def message : Error → String
  | invalidSymbol token => "Invalid symbol '" ++ token ++ "'"
  | invalidName name => "Invalid name '" ++ name ++ "'"
  | duplicateName name => "Name '" ++ name ++ "' is already defined"
  | notFound name => "Undefined name '" ++ name ++ "'"
  | indexOutOfRange array position length =>
    "Index " ++ position ++ " is out of range for '" ++ array ++ "' (length " ++
      toString length ++ ")"
  | malformedSeparator body => "Empty token between separators in '" ++ body ++ "'"
  | notResolved => "References must be resolved before evaluation"
  | malformedExpression expression reason =>
    "Malformed expression '" ++ expression ++ "': " ++ reason.message
  | divisionByZero => "Division by zero"
  | functionFailed name reason => "Function '" ++ name ++ "' failed: " ++ reason

/-- The error lies in the writing of a statement and not in its evaluation. -/
def isSyntactic : Error → Bool
  | invalidSymbol _ | malformedSeparator _ => true
  | _ => false

end Error

end ArithScript
