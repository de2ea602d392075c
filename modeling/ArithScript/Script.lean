import ArithScript.Evaluation
import ArithScript.Text.Slice

/-!
# Scripts

A script is a text with one statement a line. The lines are cut out of the source
between its line breaks, which are searched for in its bytes. Blank lines and lines
that start with `//` are no statements, but they count in the numbering. The
statements are evaluated in order, each in the store that the ones before it left,
and one that fails stops none of the others.
-/

namespace ArithScript

/-- A line of a script that holds a statement. -/
structure Statement where
  /-- The number of the line, from 1. -/
  number : Nat
  text : String
  deriving DecidableEq, Repr

/-- What a statement of a script comes to. -/
structure Outcome where
  statement : Statement
  result : Except Error Value

namespace Script

/-- The text without a carriage return at its end. -/
def dropReturn (text : String) : String :=
  if text.toList.getLast? = some '\r' then String.ofList text.toList.dropLast else text

/-- The text holds a statement: it is not blank and no comment. -/
def isStatement (text : String) : Bool :=
  let trimmed := (Text.trim text).toList
  !trimmed.isEmpty && trimmed.take 2 != ['/', '/']

/-- Where the lines of a source end: at its line breaks and at its own end. -/
def lineEnds (source : String) : List Nat :=
  Text.offsets '\n'.toUInt8 source ++ [source.utf8ByteSize]

/-- Where a scan of a source stands, before one of its lines. -/
structure Scan where
  /-- The place at which the line starts. Behind the last line it is a place too far. -/
  start : Nat
  /-- The number of the line, from 1. -/
  number : Nat
  /-- The statements on the lines before it. -/
  found : Array Statement

def Scan.first : Scan := ⟨0, 1, #[]⟩

/-- The scan behind the line that ends at `stop`; `none` if the line is no slice of the
source. -/
def Scan.next? (source : String) (scan : Scan) (stop : Nat) : Option Scan := do
  let line ← Text.slice? source scan.start stop
  let text := dropReturn line
  let found := if isStatement text then scan.found.push ⟨scan.number, text⟩ else scan.found
  return ⟨stop + 1, scan.number + 1, found⟩

/-- The scan of a whole source. Its lines are slices, so there is always one
(`Script.scan?_eq`). -/
def scan? (source : String) : Option Scan :=
  (lineEnds source).foldlM (Scan.next? source) Scan.first

def statements (source : String) : List Statement :=
  match scan? source with
  | some scan => scan.found.toList
  | none => []

def runStatements (reducer : Reducer) (store : Store) :
    List Statement → List Outcome × Store
  | [] => ([], store)
  | statement :: rest =>
    let (result, store) := evaluateStatement reducer store statement.text
    let (outcomes, store) := runStatements reducer store rest
    (⟨statement, result⟩ :: outcomes, store)

def run (reducer : Reducer) (store : Store) (source : String) : List Outcome × Store :=
  runStatements reducer store (statements source)

end Script

end ArithScript
