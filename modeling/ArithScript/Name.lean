import ArithScript.Text.DecimalDigit

/-!
# Names

The shape of a name alone decides what it can stand for: `$NAME` a scalar,
`@NAME` an array, `#NAME` a function, and `NAME[i]` one element of the array
`@NAME`. The letters are `A` to `Z`, at least one of them.
-/

namespace ArithScript

/-- What a name can stand for. -/
inductive NameShape where
  | scalar
  | array
  | function
  /-- An element of the array with this name, at the position that these digits
  write. -/
  | element (array position : String)
  deriving DecidableEq, Repr

namespace Name

/-- The characters are one or more of the letters `A` to `Z`. -/
def isLetters (cs : List Char) : Bool := !cs.isEmpty && cs.all Char.isUpper

/-- The shape of an element name without a sigil: letters, then decimal digits
in square brackets. -/
def elementShape? (cs : List Char) : Option NameShape :=
  let letters := cs.takeWhile Char.isUpper
  match cs.dropWhile Char.isUpper with
  | '[' :: rest =>
    let digits := rest.takeWhile Text.isDecimalDigit
    if letters ≠ [] ∧ digits ≠ [] ∧ rest.dropWhile Text.isDecimalDigit = [']'] then
      some (.element (String.ofList ('@' :: letters)) (String.ofList digits))
    else none
  | _ => none

/-- The shape of a name, if it has one. -/
def shape? (name : String) : Option NameShape :=
  match name.toList with
  | '$' :: letters => if isLetters letters then some .scalar else none
  | '@' :: letters => if isLetters letters then some .array else none
  | '#' :: letters => if isLetters letters then some .function else none
  | cs => elementShape? cs

end Name

end ArithScript
