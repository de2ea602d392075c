import ArithScript.Line.Basic

/-!
# Reading lines

A statement, without the blanks around it, is one of

    $NAME=( body )      a scalar assignment; the body is not empty and has no line break
    @NAME=[ payload ]   an array assignment; the payload is decimal digits and commas
    #NAME( argument )   a call; the argument is the name of a scalar or an array

and everything else is a plain expression. Body and plain expression are cut at
single spaces and each piece has to be a symbol. The first characters of the
three shapes differ, so no statement has two of them.
-/

namespace ArithScript.Line

/-! ## Statement shapes -/

/-- The name and the text in brackets of a statement that starts with `sigil`
and letters, and then has `opening` and, at its end, `closing`. -/
def bracketed? (sigil : Char) (opening closing : String) :
    List Char → Option (String × List Char)
  | [] => none
  | c :: cs =>
    let letters := cs.takeWhile Char.isUpper
    let inner := (opening.toList.isPrefixOf? (cs.dropWhile Char.isUpper)).bind
      closing.toList.isSuffixOf?
    match inner with
    | some inner =>
      if c = sigil ∧ letters ≠ [] then some (String.ofList (sigil :: letters), inner) else none
    | none => none

def scalarShape? (cs : List Char) : Option (String × List Char) :=
  (bracketed? '$' "=( " " )" cs).filter fun (_, body) => body ≠ [] ∧ '\n' ∉ body

def arrayShape? (cs : List Char) : Option (String × List Char) :=
  (bracketed? '@' "=[ " " ]" cs).filter fun (_, payload) =>
    payload ≠ [] ∧ payload.all fun c => Text.isDecimalDigit c || c == ','

def callShape? (cs : List Char) : Option (String × List Char) :=
  (bracketed? '#' "( " " )" cs).filter fun (_, argument) =>
    match argument with
    | c :: letters => (c = '$' ∨ c = '@') ∧ Name.isLetters letters
    | [] => false

/-! ## The parser -/

def tokenize (body : String) : Except Error (List Symbol) :=
  let pieces := Text.pieces ' ' body
  if "" ∈ pieces then .error (.malformedSeparator body) else pieces.mapM Symbol.classify

def parseForm (statement : String) : Except Error Form :=
  let cs := statement.toList
  match scalarShape? cs, arrayShape? cs, callShape? cs with
  | some (target, body), _, _ => (tokenize (String.ofList body)).map (.scalarAssign target)
  | none, some (target, payload), _ => .ok (.arrayAssign target (String.ofList payload))
  | none, none, some (target, argument) => .ok (.call target (String.ofList argument))
  | none, none, none => (tokenize statement).map .plain

/-- The line that a statement is, with its references unresolved. -/
def parse (statement : String) : Except Error Line :=
  (parseForm (Text.trim statement)).map fun form => ⟨form, false⟩

end ArithScript.Line
