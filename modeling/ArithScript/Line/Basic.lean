import ArithScript.Symbol

/-!
# Lines

A line is one parsed statement. Its form says what the statement does, and a
flag says whether the references in it are resolved. Resolution happens at most
once and to all references or to none, so a resolved line keeps its values
however the store changes.
-/

namespace ArithScript

inductive Form where
  /-- Computes an expression. -/
  | plain (symbols : List Symbol)
  /-- Computes an expression and registers its value as a scalar. -/
  | scalarAssign (target : String) (symbols : List Symbol)
  /-- Registers an array; the payload lists its elements. -/
  | arrayAssign (target payload : String)
  /-- Calls a function with the value or the elements of a variable. -/
  | call (target argument : String)
  deriving DecidableEq

namespace Form

/-- The name that a statement assigns or calls. -/
def target? : Form → Option String
  | plain _ => none
  | scalarAssign target _ | arrayAssign target _ | call target _ => some target

/-- The symbols of an expression; the other forms have none. -/
def symbols : Form → List Symbol
  | plain symbols | scalarAssign _ symbols => symbols
  | arrayAssign _ _ | call _ _ => []

/-- The text in the brackets of a form without symbols. -/
def payload? : Form → Option String
  | plain _ | scalarAssign _ _ => none
  | arrayAssign _ payload => some payload
  | call _ argument => some argument

def kind : Form → String
  | plain _ => "Plain"
  | scalarAssign _ _ => "ScalarAssign"
  | arrayAssign _ _ => "ArrayAssign"
  | call _ _ => "FuncCall"

def resolve (store : Store) : Form → Except Error Form
  | plain symbols => (symbols.mapM (Symbol.resolve store)).map plain
  | scalarAssign target symbols =>
    (symbols.mapM (Symbol.resolve store)).map (scalarAssign target)
  | form => .ok form

/-- The sources of the symbols, single spaces between them. -/
def sources (symbols : List Symbol) : String := " ".intercalate (symbols.map Symbol.source)

/-- The statement, written in the one way that `Line.parse` expects. -/
def text : Form → String
  | plain symbols => sources symbols
  | scalarAssign target symbols => target ++ "=( " ++ sources symbols ++ " )"
  | arrayAssign target payload => target ++ "=[ " ++ payload ++ " ]"
  | call target argument => target ++ "( " ++ argument ++ " )"

end Form

/-- A parsed statement. -/
structure Line where
  form : Form
  resolved : Bool
  deriving DecidableEq

namespace Line

/-- The statement as text, references by name. -/
def text (line : Line) : String := line.form.text

/-- The line with its references resolved. A resolved line stays as it is, and
the first reference that has no value in the store ends the attempt. -/
def resolve (store : Store) (line : Line) : Except Error Line :=
  if line.resolved then .ok line
  else (line.form.resolve store).map fun form => ⟨form, true⟩

/-- The text that is evaluated: of an expression the renderings of its symbols,
with nothing between them, and of the other forms the payload. -/
def evaluationText (line : Line) : Except Error String :=
  match line.form with
  | .plain symbols | .scalarAssign _ symbols =>
    if line.resolved then .ok (String.join (symbols.map Symbol.rendered))
    else .error .notResolved
  | .arrayAssign _ payload => .ok payload
  | .call _ argument => .ok argument

/-- The text that is evaluated of the line once it is resolved, with the line as it is
left. -/
def resolvedText (store : Store) (line : Line) : Except Error String × Line :=
  match line.resolve store with
  | .error e => (.error e, line)
  | .ok line => (line.evaluationText, line)

end Line

end ArithScript
