import ArithScript.Number.Arithmetic
import ArithScript.Number.Shortest

/-!
# Texts of numbers

Three written forms, all from the shortest digits:

* `Binary64.positional` writes any number without an exponent;
* `Binary64.text`, the form of results and of stored values, writes an integer
  below 9 * 10 ^ 15 as that integer and any other number positionally;
* `Binary64.jsonText` writes a fraction or an exponent always, so that a reader
  of JSON sees a floating-point number.
-/

namespace ArithScript

namespace Decimal

def digits (d : Decimal) : List Char := Nat.toDigits 10 d.coefficient

/-- The decimal without an exponent: zeros are added on the right of the digits,
or the point is set among them, with zeros before them so that a digit stands in
front of it. -/
def positional (d : Decimal) : List Char :=
  if 0 ≤ d.exponent then d.digits ++ List.replicate d.exponent.toNat '0'
  else
    let places := (-d.exponent).toNat
    let padded := List.replicate (places + 1 - d.digits.length) '0' ++ d.digits
    padded.take (padded.length - places) ++ '.' :: padded.drop (padded.length - places)

/-- The decimal with one digit before the point and the exponent after `e`, its
sign always written. -/
def scientific (d : Decimal) : List Char :=
  let power := d.exponent + d.digits.length - 1
  let sign := if 0 ≤ power then '+' else '-'
  let fraction := d.digits.drop 1
  d.digits.take 1 ++ (if fraction = [] then [] else '.' :: fraction) ++
    'e' :: sign :: Nat.toDigits 10 power.natAbs

end Decimal

namespace Binary64

/-- The text with a minus sign in front of it, if asked for. -/
def signed (negative : Bool) (text : List Char) : String :=
  String.ofList (if negative then '-' :: text else text)

/-- The number without an exponent, with the fewest digits that read back. -/
def positional : Binary64 → String
  | .nan => "NaN"
  | .infinite negative => signed negative "inf".toList
  | .finite negative m =>
    if m.units = 0 then signed negative ['0']
    else signed negative (m.shortest .upward).positional

/-- Integers from here on are written as any other number. -/
def integerLimit : Nat := 9000000000000000

/-- The text of a number: an integer below the limit plainly (a zero has no
sign), any other number positionally. -/
def text (x : Binary64) : String :=
  match x.toInt? with
  | some n => if n.natAbs < integerLimit then toString n else x.positional
  | none => x.positional

/-- The number in JSON: positional, with `.0` after an integer, from 10 ^ -5 up
to below 10 ^ 16, scientific outside. JSON has no word for the numbers that are
not finite. -/
def jsonText : Binary64 → String
  | .nan | .infinite _ => "null"
  | .finite negative m =>
    if m.units = 0 then signed negative "0.0".toList
    else
      let d := m.shortest .toEven
      let power := d.exponent + d.digits.length - 1
      if power < -5 ∨ 15 < power then signed negative d.scientific
      else if 0 ≤ d.exponent then signed negative (d.positional ++ ".0".toList)
      else signed negative d.positional

end Binary64

end ArithScript
