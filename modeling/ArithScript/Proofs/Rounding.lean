import ArithScript.Number.Text

/-!
# Rounding keeps the numbers of the format

A magnitude is a multiple of the spacing around it, so rounding an exact
quotient that is a magnitude answers with this magnitude (`ofRatio_units`). From
this it follows that the shortest decimal of a number reads back as the number:
the search for it ends, at the latest, on the grid that holds every magnitude.
-/

namespace ArithScript

/-! ## Exact quotients -/

namespace Magnitude

theorem spacing_dvd (m : Magnitude) : Nat.pow 2 (spacing m.units) ∣ m.units := by
  obtain ⟨s, e, hs, hunits⟩ := m.fits
  rw [Nat.pow_eq] at hs hunits ⊢
  by_cases hzero : m.units = 0
  · rw [hzero]
    exact Nat.dvd_zero _
  · have hlog : m.units.log2 < 53 + e := by
      rw [Nat.log2_lt hzero, hunits, Nat.pow_add]
      exact Nat.mul_lt_mul_of_pos_right hs (Nat.two_pow_pos e)
    have hspacing : spacing m.units ≤ e := by unfold spacing; omega
    have hpow := Nat.pow_dvd_pow 2 hspacing
    rw [hunits] at hpow ⊢
    exact Nat.dvd_mul_left_of_dvd hpow s

theorem ext_units {m m' : Magnitude} (h : m.units = m'.units) : m = m' := by
  cases m
  cases m'
  cases h
  rfl

end Magnitude

theorem divNearest_mul (q : Nat) {den : Nat} (hden : 0 < den) : divNearest (q * den) den = q := by
  simp only [divNearest, Nat.mul_div_cancel q hden, Nat.mul_mod_left]
  rw [if_neg (by omega)]

/-- A quotient that is a magnitude is not rounded. -/
theorem roundUnits_units (m : Magnitude) {k : Nat} (hk : 0 < k) :
    roundUnits (m.units * k) k = m.units := by
  obtain ⟨q, hq⟩ := m.spacing_dvd
  simp only [roundUnits, Nat.mul_div_cancel m.units hk]
  generalize Nat.pow 2 (Magnitude.spacing m.units) = step at hq
  have hnum : m.units * k = q * (k * step) := by
    rw [hq, Nat.mul_comm step q, Nat.mul_assoc, Nat.mul_comm step k]
  by_cases hstep : step = 0
  · rw [hq, hstep, Nat.mul_zero, Nat.zero_mul]
  · rw [hnum, divNearest_mul q (Nat.mul_pos hk (Nat.pos_of_ne_zero hstep)), hq, Nat.mul_comm]

namespace Binary64

theorem ofUnits_units (negative : Bool) {m : Magnitude} {units : Nat}
    (fits : ∃ significand exponent, significand < Nat.pow 2 53 ∧
      units = significand * Nat.pow 2 exponent) (h : units = m.units) :
    ofUnits negative units fits = .finite negative m := by
  subst h
  exact dif_pos m.bounded

theorem ofRatio_units (negative : Bool) (m : Magnitude) {k : Nat} (hk : 0 < k) :
    ofRatio negative (m.units * k) k = .finite negative m :=
  ofUnits_units negative _ (roundUnits_units m hk)

/-- The number with a sign in place of its own. -/
def withSign (negative : Bool) : Binary64 → Binary64
  | .nan => .nan
  | .infinite _ => .infinite negative
  | .finite _ m => .finite negative m

theorem ofRatio_sign (negative : Bool) (num den : Nat) :
    ofRatio negative num den = (ofRatio false num den).withSign negative := by
  unfold ofRatio ofUnits
  split <;> rfl

end Binary64

/-! ## Reading decimals -/

namespace Decimal

theorem toBinary64_sign (negative : Bool) (d : Decimal) :
    d.toBinary64 negative = (d.toBinary64 false).withSign negative := by
  unfold toBinary64
  split
  · rfl
  split
  · rfl
  split
  · rfl
  exact Binary64.ofRatio_sign negative _ _

/-- A decimal without a fraction may as well be written with its zeros. -/
theorem toBinary64_scaled {negative : Bool} {c : Nat} {e : Int} (he : 0 ≤ e)
    (hfinite : (toBinary64 negative ⟨c, e⟩).isFinite = true) :
    toBinary64 negative ⟨c * Nat.pow 10 e.toNat, 0⟩ = toBinary64 negative ⟨c, e⟩ := by
  have hpow : 0 < Nat.pow 10 e.toNat := Nat.pow_pos (by decide)
  have hneg : (-e).toNat = 0 := by omega
  by_cases hc : c = 0
  · simp [toBinary64, hc]
  · have hle : ¬ 400 < e := by
      intro hlt
      simp [toBinary64, hc, hlt, Binary64.isFinite] at hfinite
    unfold toBinary64
    rw [if_neg (Nat.ne_of_gt (Nat.mul_pos (Nat.pos_of_ne_zero hc) hpow)), if_neg hc,
      if_neg (by dsimp only; omega), if_neg hle, if_neg (by dsimp only; omega),
      if_neg (by dsimp only; omega)]
    simp only [Int.toNat_zero, Int.neg_zero, Nat.pow_eq, Nat.pow_zero, Nat.mul_one, hneg]

theorem toBinary64_integer (negative : Bool) {n : Nat} {m : Magnitude}
    (h : m.units = n * unitsPerOne) : toBinary64 negative ⟨n, 0⟩ = .finite negative m := by
  by_cases hn : n = 0
  · subst hn
    rw [Nat.zero_mul] at h
    simp only [toBinary64, ↓reduceIte, Binary64.zero]
    exact congrArg (Binary64.finite negative) (Magnitude.ext_units h.symm)
  · unfold toBinary64
    rw [if_neg hn, if_neg (by dsimp only; omega), if_neg (by dsimp only; omega)]
    simp only [Int.toNat_zero, Int.neg_zero, Nat.pow_eq, Nat.pow_zero, Nat.mul_one, ← h]
    have hexact := Binary64.ofRatio_units negative m Nat.one_pos
    rwa [Nat.mul_one] at hexact

end Decimal

/-! ## Shortest decimals -/

namespace Magnitude

/-- Every magnitude is a decimal on the grid of 10 ^ -`k` if a unit is 2 ^ -`k`. -/
theorem readsBack_finest (m : Magnitude) (hm : m.units ≠ 0) {k : Nat} (hk : unitsPerOne = Nat.pow 2 k) :
    m.ReadsBack ⟨m.units * Nat.pow 5 k, -k⟩ := by
  rw [Nat.pow_eq] at hk ⊢
  have hpos : 0 < 5 ^ k := Nat.pow_pos (by decide)
  have hc : m.units * 5 ^ k ≠ 0 := Nat.mul_ne_zero hm (Nat.ne_of_gt hpos)
  have hlog : k ≤ (m.units * 5 ^ k).log2 := by
    rw [Nat.le_log2 hc]
    exact Nat.le_trans (Nat.pow_le_pow_left (by decide) k)
      (Nat.le_mul_of_pos_left _ (Nat.pos_of_ne_zero hm))
  have hnum : m.units * 5 ^ k * 2 ^ k = m.units * 10 ^ k := by
    rw [Nat.mul_assoc, ← Nat.mul_pow]
  have hzero : (-(k : Int)).toNat = 0 := by omega
  unfold ReadsBack Decimal.toBinary64
  rw [if_neg hc, if_neg (by dsimp only; omega), if_neg (by dsimp only; omega)]
  simp only [Int.neg_neg, hzero, Int.toNat_natCast, Nat.pow_eq, Nat.pow_zero, Nat.mul_one, hk, hnum]
  exact Binary64.ofRatio_units false m (Nat.pow_pos (by decide))

theorem readsBack_onGrid {m : Magnitude} {tie : TieRule} {exponent : Int} {d : Decimal}
    (h : m.onGrid? tie exponent = some d) : m.ReadsBack d := by
  unfold onGrid? at h
  generalize m.neighbours tie exponent = pair at h
  obtain ⟨near, far⟩ := pair
  dsimp only at h
  split at h
  · rename_i hnear
    cases h
    exact hnear
  · split at h
    · rename_i hfar
      cases h
      exact hfar
    · cases h

theorem readsBack_shortestFrom (m : Magnitude) (hm : m.units ≠ 0) (tie : TieRule) (steps : Nat) :
    m.ReadsBack (m.shortestFrom tie steps) := by
  induction steps with
  | zero =>
    have hunit : unitsPerOne = Nat.pow 2 1074 := by decide +kernel
    have hfinest := m.readsBack_finest hm hunit
    rw [shortestFrom]
    exact hfinest
  | succ steps ih =>
    rw [shortestFrom]
    cases hgrid : m.onGrid? tie (steps + 1 - 1074) with
    | none => exact ih
    | some d => exact readsBack_onGrid hgrid

/-- The shortest decimal of a number reads back as the number. -/
theorem readsBack_shortest (m : Magnitude) (hm : m.units ≠ 0) (tie : TieRule) :
    m.ReadsBack (m.shortest tie) := m.readsBack_shortestFrom hm tie _

end Magnitude

end ArithScript
