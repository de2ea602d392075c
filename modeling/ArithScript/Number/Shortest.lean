import ArithScript.Number.Decimal

/-!
# Shortest decimals

`Magnitude.shortest` is the decimal with the fewest digits that reads back as
the magnitude. The multiples of a power of ten form a grid, and a finer grid
contains every coarser one, so the coarsest grid with a point that reads back
gives the fewest digits. Of a grid only the two neighbours of the magnitude
matter, and of these the nearer one that reads back is taken.

The search ends because every magnitude is itself on the grid of 10 ^ -1074: a
unit is 2 ^ -1074, which is 5 ^ 1074 times 10 ^ -1074.
-/

namespace ArithScript

/-- What becomes of a magnitude half-way between two decimals that both read
back as it. -/
inductive TieRule where
  | upward
  | toEven
  deriving DecidableEq, Repr

namespace Magnitude

/-- The decimal reads back as the magnitude. -/
def ReadsBack (m : Magnitude) (d : Decimal) : Prop := d.toBinary64 false = .finite false m

instance (m : Magnitude) (d : Decimal) : Decidable (m.ReadsBack d) :=
  inferInstanceAs (Decidable (_ = _))

/-- The magnitude's neighbours on the grid of 10 ^ `exponent`, the nearer one
first, and of two equally near ones the one that the rule takes. -/
def neighbours (m : Magnitude) (tie : TieRule) (exponent : Int) : Decimal × Decimal :=
  let num := m.units * Nat.pow 10 (-exponent).toNat
  let den := unitsPerOne * Nat.pow 10 exponent.toNat
  let below := num / den
  let twice := 2 * (num % den)
  let up := match tie with
    | .upward => true
    | .toEven => below % 2 = 1
  if twice < den ∨ (twice = den ∧ !up) then (⟨below, exponent⟩, ⟨below + 1, exponent⟩)
  else (⟨below + 1, exponent⟩, ⟨below, exponent⟩)

/-- The decimal on the grid of 10 ^ `exponent` that reads back as the
magnitude. -/
def onGrid? (m : Magnitude) (tie : TieRule) (exponent : Int) : Option Decimal :=
  let (near, far) := m.neighbours tie exponent
  if m.ReadsBack near then some near
  else if m.ReadsBack far then some far
  else none

/-- The decimal of the coarsest grid from 10 ^ (`steps` - 1074) down. -/
def shortestFrom (m : Magnitude) (tie : TieRule) : Nat → Decimal
  | 0 => ⟨m.units * Nat.pow 5 1074, -1074⟩
  | steps + 1 => (m.onGrid? tie (steps + 1 - 1074)).getD (m.shortestFrom tie steps)

/-- Where the search starts, counted from 10 ^ -1074: on every coarser grid the
points other than 0 lie beyond the magnitude. The fraction is just above the
decimal logarithm of 2. -/
def coarsestGrid (m : Magnitude) : Nat := m.units.log2 * 30103 / 100000 + 752

/-- The decimal with the fewest digits that reads back as the magnitude. -/
def shortest (m : Magnitude) (tie : TieRule) : Decimal := m.shortestFrom tie m.coarsestGrid

end Magnitude

end ArithScript
