import ArithScript.Number.Binary64

/-!
# Decimal numerals

A `Decimal` is a whole number of some power of ten. It is what a numeral
denotes exactly, before `Decimal.toBinary64` rounds it to a number of the
language.

The numeral grammar, over ASCII digits and with nothing around it:

    numeral   = mantissa [ ("e" | "E") [ "+" | "-" ] digit+ ]
    mantissa  = digit+ [ "." digit* ] | "." digit+
    number    = [ "+" | "-" ] ( numeral | "inf" | "infinity" | "nan" )

The three words stand in any letter case.
-/

namespace ArithScript

/-- The number `coefficient * 10 ^ exponent`. -/
structure Decimal where
  coefficient : Nat
  exponent : Int
  deriving DecidableEq, Repr, Inhabited

namespace Decimal

/-- The binary64 number nearest to a decimal, with a sign. Beyond 10 ^ 400 and
below 10 ^ -400 the answer needs no exact quotient: such a decimal is far above
the greatest number of the format, or far below half of the least. -/
def toBinary64 (negative : Bool) (d : Decimal) : Binary64 :=
  if d.coefficient = 0 then .zero negative
  else if 400 < d.exponent then .infinite negative
  else if d.exponent + d.coefficient.log2 + 1 < -400 then .zero negative
  else
    .ofRatio negative (d.coefficient * Nat.pow 10 d.exponent.toNat * unitsPerOne)
      (Nat.pow 10 (-d.exponent).toNat)

/-! ## Reading -/

/-- The number that a run of digits denotes. -/
def ofDigits (digits : List Char) : Nat := Nat.ofDigitChars 10 digits 0

/-- The exponent part of a numeral, or nothing at all, which is exponent 0. -/
def readExponent? : List Char → Option Int
  | [] => some 0
  | mark :: rest =>
    let (negative, digits) : Bool × List Char :=
      match rest with
      | '-' :: digits => (true, digits)
      | '+' :: digits => (false, digits)
      | digits => (false, digits)
    if (mark = 'e' ∨ mark = 'E') ∧ digits ≠ [] ∧ digits.all Char.isDigit then
      some (if negative then -(ofDigits digits) else ofDigits digits)
    else none

/-- The decimal that an unsigned numeral denotes: the digits on both sides of
the point are one coefficient, and each digit after the point lowers the
exponent by 1. -/
def read? (text : List Char) : Option Decimal :=
  let whole := text.takeWhile Char.isDigit
  let rest := text.dropWhile Char.isDigit
  let (fraction, rest) : List Char × List Char :=
    match rest with
    | '.' :: rest => (rest.takeWhile Char.isDigit, rest.dropWhile Char.isDigit)
    | rest => ([], rest)
  if whole ++ fraction = [] then none
  else
    (readExponent? rest).map fun exponent =>
      ⟨ofDigits (whole ++ fraction), exponent - fraction.length⟩

end Decimal

namespace Binary64

/-- A number without its sign: a word or a numeral. -/
def readUnsigned? (negative : Bool) (text : List Char) : Option Binary64 :=
  let word := text.map Char.toLower
  if word = "inf".toList ∨ word = "infinity".toList then some (.infinite negative)
  else if word = "nan".toList then some .nan
  else (Decimal.read? text).map (Decimal.toBinary64 negative)

/-- The number that a text denotes: one optional sign, then a word or a
numeral. -/
def read? : List Char → Option Binary64
  | '+' :: text => readUnsigned? false text
  | '-' :: text => readUnsigned? true text
  | text => readUnsigned? false text

end Binary64

end ArithScript
