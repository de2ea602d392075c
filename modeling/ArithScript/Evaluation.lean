import ArithScript.Expression.Reduction
import ArithScript.Line.Parser

/-!
# Evaluation of lines

Evaluation takes a line and a store to a result, a line and a store. The store
changes only if a statement succeeds, by one registration; the line changes when
its references get resolved, also if a later step fails. How expressions are
reduced is an argument, for which `reduce` stands in the language itself.
-/

namespace ArithScript

/-- How the text of an expression becomes a number. A reducer is a function of the
text alone: it sees no store and no reduction before this one, so equal texts have
equal results wherever they stand in a script. -/
abbrev Reducer := String → Except Error Binary64

/-! ## Values -/

/-- What a statement evaluates to. -/
inductive Value where
  | number (value : Binary64)
  /-- The result of a function, as it wrote it. -/
  | text (result : String)
  /-- An array assignment has no value of its own. -/
  | nop
  deriving DecidableEq

def Value.render : Value → String
  | number value => value.text
  | text result => result
  | nop => "NOP"

/-! ## Evaluation -/

structure Evaluated where
  result : Except Error Value
  line : Line
  store : Store

namespace Line

/-- The number that the expression of a line reduces to, with the line as it is
left. -/
def reduceWith (reducer : Reducer) (store : Store) (line : Line) : Except Error Binary64 × Line :=
  match line.resolve store with
  | .error e => (.error e, line)
  | .ok line => (line.evaluationText.bind reducer, line)

/-- Evaluates a line. An assignment registers its target after everything else
has succeeded; a call looks for the function before its argument. -/
def evaluate (reducer : Reducer) (store : Store) (line : Line) : Evaluated :=
  match line.form with
  | .plain _ =>
    let (number, line) := line.reduceWith reducer store
    ⟨number.map .number, line, store⟩
  | .scalarAssign target _ =>
    let (number, line) := line.reduceWith reducer store
    match number.bind fun n => (store.register target n.text).map fun store => (n, store) with
    | .error e => ⟨.error e, line, store⟩
    | .ok (n, store) => ⟨.ok (.number n), line, store⟩
  | .arrayAssign target payload =>
    match store.register target payload with
    | .error e => ⟨.error e, line, store⟩
    | .ok store => ⟨.ok .nop, line, store⟩
  | .call target argument =>
    let result :=
      if store.hasFunction target then
        (store.arguments argument).bind fun arguments => store.call target arguments
      else .error (.notFound target)
    ⟨result.map .text, line, store⟩

end Line

def evaluateStatement (reducer : Reducer) (store : Store) (statement : String) :
    Except Error Value × Store :=
  match Line.parse statement with
  | .error e => (.error e, store)
  | .ok line =>
    let evaluated := line.evaluate reducer store
    (evaluated.result, evaluated.store)

end ArithScript
