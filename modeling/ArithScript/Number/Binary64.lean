/-!
# Binary floating-point numbers

The numbers of the language are those of the IEEE 754 format binary64. Every
finite one is a whole number of *units* of 2 ^ -1074, the least positive number
of the format, so a magnitude is a natural number here and the value of a
number is exact integer data.

`Binary64.ofRatio` is the one place where rounding happens: an exact quotient
goes to the nearest number of the format, and of two equally near ones to the
one with the even significand. Reading decimals and all four operations go
through it.
-/

namespace ArithScript

/-- The number 1, in units. -/
def unitsPerOne : Nat := Nat.pow 2 1074

/-- The least power of two above the format, in units: what rounds to it or
beyond is infinite. -/
def unitsBound : Nat := Nat.pow 2 2098

theorem unitsBound_pos : 0 < unitsBound := by
  decide +kernel

/-- The magnitude of a finite number of the format, in units. -/
structure Magnitude where
  units : Nat
  /-- The units are 53 bits, followed by zeros. -/
  fits : ∃ significand exponent, significand < Nat.pow 2 53 ∧
    units = significand * Nat.pow 2 exponent
  bounded : units < unitsBound
  deriving DecidableEq

namespace Magnitude

def zero : Magnitude := ⟨0, ⟨0, 0, by decide, by decide⟩, unitsBound_pos⟩

instance : Inhabited Magnitude := ⟨zero⟩

/-- The exponent of the spacing around `units`: the numbers of the format in the
same power-of-two range are the multiples of 2 to this power. -/
def spacing (units : Nat) : Nat := units.log2 - 52

end Magnitude

/-- A binary64 number. The format has many NaN patterns, which no part of the
language tells apart. -/
inductive Binary64 where
  | nan
  | infinite (negative : Bool)
  | finite (negative : Bool) (magnitude : Magnitude)
  deriving DecidableEq, Inhabited

/-! ## Rounding -/

/-- The integer nearest to `num / den`, of two equally near ones the even one. -/
def divNearest (num den : Nat) : Nat :=
  let quotient := num / den
  let twice := 2 * (num % den)
  if den < twice ∨ (twice = den ∧ quotient % 2 = 1) then quotient + 1 else quotient

theorem divNearest_le (num den : Nat) : divNearest num den ≤ num / den + 1 := by
  unfold divNearest
  dsimp only
  split <;> omega

/-- The 53-bit number of units nearest to `num / den`, however large. -/
def roundUnits (num den : Nat) : Nat :=
  let step := Nat.pow 2 (Magnitude.spacing (num / den))
  divNearest num (den * step) * step

/-- Rounding a quotient to the spacing around it leaves at most 53 bits: 2 ^ 53,
reached by a carry, is 2 ^ 52 at the next exponent. -/
theorem roundUnits_fits (num den : Nat) :
    ∃ significand exponent, significand < Nat.pow 2 53 ∧
      roundUnits num den = significand * Nat.pow 2 exponent := by
  simp only [roundUnits, Nat.pow_eq]
  generalize hk : Magnitude.spacing (num / den) = k
  have hlog : (num / den).log2 + 1 ≤ 53 + k := by unfold Magnitude.spacing at hk; omega
  have hlt : num / den < 2 ^ 53 * 2 ^ k := by
    rw [← Nat.pow_add]
    exact Nat.lt_of_lt_of_le Nat.lt_log2_self (Nat.pow_le_pow_right (by decide) hlog)
  have hq : num / (den * 2 ^ k) < 2 ^ 53 := by
    rw [← Nat.div_div_eq_div_mul]
    exact Nat.div_lt_of_lt_mul (by rw [Nat.mul_comm]; exact hlt)
  have hle := divNearest_le num (den * 2 ^ k)
  by_cases hcarry : divNearest num (den * 2 ^ k) = 2 ^ 53
  · exact ⟨2 ^ 52, k + 1, by decide, by simp only [hcarry, Nat.pow_succ]; omega⟩
  · exact ⟨_, k, by omega, rfl⟩

namespace Binary64

/-- The number with these units, or infinity if they lie beyond the format. -/
def ofUnits (negative : Bool) (units : Nat)
    (fits : ∃ significand exponent, significand < Nat.pow 2 53 ∧
      units = significand * Nat.pow 2 exponent) : Binary64 :=
  if bounded : units < unitsBound then .finite negative ⟨units, fits, bounded⟩
  else .infinite negative

/-- The number nearest to `num / den` units. -/
def ofRatio (negative : Bool) (num den : Nat) : Binary64 :=
  ofUnits negative (roundUnits num den) (roundUnits_fits num den)

def zero (negative : Bool) : Binary64 := .finite negative .zero

def ofNat (n : Nat) : Binary64 := ofRatio false (n * unitsPerOne) 1

/-! ## Kinds of numbers -/

def isFinite : Binary64 → Bool
  | .finite _ _ => true
  | _ => false

/-- The number is 0, with either sign. -/
def isZero : Binary64 → Bool
  | .finite _ m => m.units == 0
  | _ => false

/-- The integer that the number is, if it is one. Both zeros are the integer 0. -/
def toInt? : Binary64 → Option Int
  | .finite negative m =>
    if m.units % unitsPerOne = 0 then
      let n : Int := m.units / unitsPerOne
      some (if negative then -n else n)
    else none
  | _ => none

end Binary64

end ArithScript
