import ArithScript.Number.Binary64

/-!
# The interchange form of binary64

A bit of sign, 11 bits of exponent, 52 bits of fraction. In units of the least
positive number the encoding is arithmetic: a finite number whose spacing is
2 ^ k and whose significand is s has the bits k * 2 ^ 52 + s, because the hidden
bit of s carries into the exponent field exactly when the number is normal.
-/

namespace ArithScript.Binary64

/-- A NaN that stands for all of them. -/
def nanBits : Nat := 0x7FF8000000000000

/-- The bit of sign in front of the other 63 bits. -/
def withSignBit (negative : Bool) (rest : Nat) : Nat := negative.toNat * Nat.pow 2 63 + rest

def toBits : Binary64 → Nat
  | .nan => nanBits
  | .infinite negative => withSignBit negative (2047 * Nat.pow 2 52)
  | .finite negative m =>
    let exponent := Magnitude.spacing m.units
    withSignBit negative (exponent * Nat.pow 2 52 + m.units / Nat.pow 2 exponent)

/-- The number with these fields. -/
def ofFields (negative : Bool) (exponent fraction : Nat) (h : fraction < Nat.pow 2 52) : Binary64 :=
  if exponent = 2047 then if fraction = 0 then .infinite negative else .nan
  else if exponent = 0 then
    ofUnits negative fraction
      ⟨fraction, 0, Nat.lt_trans h (by decide), (Nat.mul_one _).symm⟩
  else
    ofUnits negative ((Nat.pow 2 52 + fraction) * Nat.pow 2 (exponent - 1))
      ⟨Nat.pow 2 52 + fraction, exponent - 1, Nat.add_lt_add_left h (Nat.pow 2 52), rfl⟩

def ofBits (bits : Nat) : Binary64 :=
  ofFields (bits / Nat.pow 2 63 % 2 == 1) (bits / Nat.pow 2 52 % Nat.pow 2 11)
    (bits % Nat.pow 2 52) (Nat.mod_lt bits (by decide))

end ArithScript.Binary64
