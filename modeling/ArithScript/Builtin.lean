import ArithScript.Number.Text
import ArithScript.Store
import ArithScript.Text.Blank

/-!
# Built-in functions

The five functions that a session starts with: sum, least, greatest and mean
value of the arguments, and their number. All but the last read their arguments
as numbers and refuse the first one that is none.
-/

namespace ArithScript.Builtin

/-- The number that an argument writes, blanks around it aside, or the words with
which it is refused. -/
def number (argument : String) : Except String Binary64 :=
  match Binary64.read? (Text.trim argument).toList with
  | some number => .ok number
  | none => .error ("'" ++ argument ++ "' is not a number")

/-- The numbers that the arguments write. -/
def numbers (arguments : List String) : Except String (List Binary64) := arguments.mapM number

/-- The numbers that the arguments write, of which there is at least one. -/
def someNumbers (arguments : List String) : Except String (List Binary64) :=
  match numbers arguments with
  | .ok [] => .error "expected at least one argument"
  | result => result

/-- The sum of the numbers, added from the left. -/
def total (numbers : List Binary64) : Binary64 := numbers.foldl (· + ·) (.zero false)

def sum : Routine := fun arguments => (numbers arguments).map fun ns => (total ns).text

def min : Routine := fun arguments =>
  (someNumbers arguments).map fun ns => (ns.foldl Binary64.min (.infinite false)).text

def max : Routine := fun arguments =>
  (someNumbers arguments).map fun ns => (ns.foldl Binary64.max (.infinite true)).text

def avg : Routine := fun arguments =>
  (someNumbers arguments).map fun ns => (total ns / Binary64.ofNat ns.length).text

/-- The number of arguments, whatever they are. -/
def count : Routine := fun arguments => .ok (toString arguments.length)

/-- The built-in functions under their names. -/
def all : List (String × Routine) :=
  [("#SUM", sum), ("#MIN", min), ("#MAX", max), ("#AVG", avg), ("#COUNT", count)]

end ArithScript.Builtin

/-- The store of a new session, with the built-in functions. -/
def ArithScript.Store.withBuiltins : Store := .ofFunctions Builtin.all
