import Mathlib.Tactic.Ring
import ArithScript.Proofs.Rounding

/-!
# Rounding keeps the order

Of two quotients the lesser one is not rounded to the greater number (`roundUnits_mono`).
Quotients around which the numbers of the format have the same spacing are rounded to the
same grid, and between any others lies a power of two, which is not rounded at all. So
every number of the format bounds what the quotients on either side of it are rounded to,
and equal quotients are rounded to the same number.
-/

namespace ArithScript

/-! ## Quotients -/

section Quotients

variable {num den num' den' : Nat}

theorem div_le_divNearest (num den : Nat) : num / den ≤ divNearest num den := by
  unfold divNearest
  dsimp only
  split <;> omega

theorem div_le_div_of_le (hden : 0 < den) (hden' : 0 < den') (h : num * den' ≤ num' * den) :
    num / den ≤ num' / den' := by
  rw [Nat.le_div_iff_mul_le hden']
  refine Nat.le_of_mul_le_mul_right ?_ hden
  calc num / den * den' * den = num / den * den * den' := Nat.mul_right_comm _ _ _
    _ ≤ num * den' := Nat.mul_le_mul_right den' (Nat.div_mul_le_self num den)
    _ ≤ num' * den := h

/-- Over the same integer, the remainders have the order of the quotients. -/
theorem mod_le_mod_of_le (hfloor : num / den = num' / den') (h : num * den' ≤ num' * den) :
    num % den * den' ≤ num' % den' * den := by
  have hnum : num * den' = den * den' * (num' / den') + num % den * den' := by
    conv_lhs => rw [← Nat.div_add_mod num den, hfloor]
    ring
  have hnum' : num' * den = den * den' * (num' / den') + num' % den' * den := by
    conv_lhs => rw [← Nat.div_add_mod num' den']
    ring
  omega

theorem divNearest_mono (hden : 0 < den) (hden' : 0 < den') (h : num * den' ≤ num' * den) :
    divNearest num den ≤ divNearest num' den' := by
  rcases Nat.lt_or_eq_of_le (div_le_div_of_le hden hden' h) with hlt | hfloor
  · exact Nat.le_trans (divNearest_le num den) (Nat.le_trans hlt (div_le_divNearest num' den'))
  · have hrest := mod_le_mod_of_le hfloor h
    have hover (hup : den < 2 * (num % den)) : den' < 2 * (num' % den') := by
      refine Nat.lt_of_mul_lt_mul_right (a := den) ?_
      calc den' * den = den * den' := Nat.mul_comm _ _
        _ < 2 * (num % den) * den' := Nat.mul_lt_mul_of_pos_right hup hden'
        _ = 2 * (num % den * den') := Nat.mul_assoc _ _ _
        _ ≤ 2 * (num' % den' * den) := Nat.mul_le_mul_left 2 hrest
        _ = 2 * (num' % den') * den := (Nat.mul_assoc _ _ _).symm
    have htie (hhalf : 2 * (num % den) = den) : den' ≤ 2 * (num' % den') := by
      refine Nat.le_of_mul_le_mul_right (c := den) ?_ hden
      calc den' * den = 2 * (num % den) * den' := by rw [hhalf, Nat.mul_comm]
        _ = 2 * (num % den * den') := Nat.mul_assoc _ _ _
        _ ≤ 2 * (num' % den' * den) := Nat.mul_le_mul_left 2 hrest
        _ = 2 * (num' % den') * den := (Nat.mul_assoc _ _ _).symm
    simp only [divNearest, hfloor]
    split
    · rw [if_pos (by omega)]
    · split <;> omega

end Quotients

/-! ## Grids -/

/-- The multiple of `step` nearest to `num / den`. -/
def roundTo (step num den : Nat) : Nat := divNearest num (den * step) * step

theorem roundUnits_eq_roundTo (num den : Nat) :
    roundUnits num den = roundTo (2 ^ Magnitude.spacing (num / den)) num den := rfl

theorem roundTo_mono {step num den num' den' : Nat} (hstep : 0 < step) (hden : 0 < den)
    (hden' : 0 < den') (h : num * den' ≤ num' * den) :
    roundTo step num den ≤ roundTo step num' den' := by
  refine Nat.mul_le_mul_right step ?_
  refine divNearest_mono (Nat.mul_pos hden hstep) (Nat.mul_pos hden' hstep) ?_
  rw [← Nat.mul_assoc, ← Nat.mul_assoc]
  exact Nat.mul_le_mul_right step h

theorem roundTo_of_dvd {step n : Nat} (hstep : 0 < step) (h : step ∣ n) : roundTo step n 1 = n := by
  obtain ⟨k, rfl⟩ := h
  rw [roundTo, Nat.one_mul, Nat.mul_comm step k, divNearest_mul k hstep]

/-! ## Rounding -/

section Rounding

variable {num den num' den' : Nat}

theorem spacing_mono {units units' : Nat} (h : units ≤ units') :
    Magnitude.spacing units ≤ Magnitude.spacing units' := by
  have hlog : units.log2 ≤ units'.log2 := by
    by_cases hzero : units = 0
    · rw [hzero, Nat.log2_zero]
      exact Nat.zero_le _
    · have hzero' : units' ≠ 0 := by omega
      rw [Nat.le_log2 hzero']
      exact Nat.le_trans (Nat.log2_self_le hzero) h
  unfold Magnitude.spacing
  omega

/-- Where the spacing changes lies a power of two. -/
theorem exists_pow_between {units units' : Nat}
    (h : Magnitude.spacing units < Magnitude.spacing units') :
    ∃ k, Magnitude.spacing units' ≤ k ∧ units < 2 ^ k ∧ 2 ^ k ≤ units' := by
  unfold Magnitude.spacing at h
  have hzero' : units' ≠ 0 := by
    rintro rfl
    rw [Nat.log2_zero] at h
    omega
  refine ⟨units'.log2, by unfold Magnitude.spacing; omega, ?_, Nat.log2_self_le hzero'⟩
  by_cases hzero : units = 0
  · rw [hzero]
    exact Nat.two_pow_pos _
  · rw [← Nat.log2_lt hzero]
    omega

theorem roundUnits_mono (hden : 0 < den) (hden' : 0 < den') (h : num * den' ≤ num' * den) :
    roundUnits num den ≤ roundUnits num' den' := by
  rw [roundUnits_eq_roundTo, roundUnits_eq_roundTo]
  have hstep (units : Nat) : 0 < 2 ^ Magnitude.spacing units := Nat.two_pow_pos _
  have hspacing := spacing_mono (div_le_div_of_le hden hden' h)
  rcases Nat.lt_or_eq_of_le hspacing with hlt | heq
  · obtain ⟨k, hk, hbelow, habove⟩ := exists_pow_between hlt
    have hdvd {s : Nat} (hs : s ≤ k) : 2 ^ s ∣ 2 ^ k := Nat.pow_dvd_pow 2 hs
    calc roundTo (2 ^ Magnitude.spacing (num / den)) num den
        ≤ roundTo (2 ^ Magnitude.spacing (num / den)) (2 ^ k) 1 := by
          refine roundTo_mono (hstep _) hden Nat.one_pos ?_
          rw [Nat.mul_one]
          exact Nat.le_of_lt ((Nat.div_lt_iff_lt_mul hden).mp hbelow)
      _ = 2 ^ k := roundTo_of_dvd (hstep _) (hdvd (Nat.le_trans hspacing hk))
      _ = roundTo (2 ^ Magnitude.spacing (num' / den')) (2 ^ k) 1 :=
          (roundTo_of_dvd (hstep _) (hdvd hk)).symm
      _ ≤ roundTo (2 ^ Magnitude.spacing (num' / den')) num' den' := by
          refine roundTo_mono (hstep _) Nat.one_pos hden' ?_
          rw [Nat.mul_one]
          exact (Nat.le_div_iff_mul_le hden').mp habove
  · rw [heq]
    exact roundTo_mono (hstep _) hden hden' h

theorem roundUnits_congr (hden : 0 < den) (hden' : 0 < den') (h : num * den' = num' * den) :
    roundUnits num den = roundUnits num' den' :=
  Nat.le_antisymm (roundUnits_mono hden hden' (Nat.le_of_eq h))
    (roundUnits_mono hden' hden (Nat.le_of_eq h.symm))

/-- A power of two is not rounded, however large. -/
theorem roundUnits_pow (k : Nat) : roundUnits (2 ^ k) 1 = 2 ^ k := by
  rw [roundUnits_eq_roundTo, Nat.div_one]
  refine roundTo_of_dvd (Nat.two_pow_pos _) (Nat.pow_dvd_pow 2 ?_)
  unfold Magnitude.spacing
  rw [Nat.log2_two_pow]
  omega

theorem le_roundUnits_of_pow {k : Nat} (hden : 0 < den) (h : 2 ^ k * den ≤ num) :
    2 ^ k ≤ roundUnits num den := by
  rw [← roundUnits_pow k]
  exact roundUnits_mono Nat.one_pos hden (by rwa [Nat.mul_one])

theorem Magnitude.roundUnits_le (m : Magnitude) (hden : 0 < den) (h : num ≤ m.units * den) :
    roundUnits num den ≤ m.units := by
  rw [← roundUnits_units m Nat.one_pos, Nat.mul_one]
  exact roundUnits_mono hden Nat.one_pos (by rwa [Nat.mul_one])

theorem Magnitude.le_roundUnits (m : Magnitude) (hden : 0 < den) (h : m.units * den ≤ num) :
    m.units ≤ roundUnits num den := by
  rw [← roundUnits_units m Nat.one_pos, Nat.mul_one]
  exact roundUnits_mono Nat.one_pos hden (by rwa [Nat.mul_one])

end Rounding

namespace Binary64

variable {num den : Nat}

/-- A quotient goes to the number with the rounded units, if there is one. -/
theorem ofRatio_eq_finite_iff {negative : Bool} {m : Magnitude} :
    ofRatio negative num den = .finite negative m ↔ roundUnits num den = m.units := by
  unfold ofRatio ofUnits
  constructor
  · intro h
    split at h <;> cases h
    rfl
  · intro h
    rw [dif_pos (by rw [h]; exact m.bounded)]
    exact congrArg (finite negative) (Magnitude.ext_units h)

theorem ofRatio_infinite (negative : Bool) (hden : 0 < den) (h : unitsBound * den ≤ num) :
    ofRatio negative num den = .infinite negative := by
  obtain ⟨k, hbound⟩ : ∃ k, unitsBound = Nat.pow 2 k := ⟨2098, by decide +kernel⟩
  unfold ofRatio ofUnits
  rw [dif_neg]
  rw [hbound, Nat.pow_eq] at h ⊢
  exact Nat.not_lt.mpr (le_roundUnits_of_pow hden h)

/-- Less than half a unit is rounded to 0. -/
theorem ofRatio_zero (negative : Bool) (h : 2 * num < den) : ofRatio negative num den = zero negative := by
  rw [zero, ofRatio_eq_finite_iff]
  have hfloor : num / den = 0 := Nat.div_eq_of_lt (by omega)
  have hrest : num % den = num := Nat.mod_eq_of_lt (by omega)
  rw [roundUnits_eq_roundTo, hfloor]
  have hstep : 2 ^ Magnitude.spacing 0 = 1 := by decide
  rw [hstep, roundTo, Nat.mul_one, Nat.mul_one, divNearest, hfloor, hrest]
  exact if_neg (by omega)

/-- A quotient below a number of the format is rounded to one that is no greater. -/
theorem exists_ofRatio (negative : Bool) (m : Magnitude) (hden : 0 < den)
    (h : num ≤ m.units * den) :
    ∃ m', ofRatio negative num den = .finite negative m' ∧ m'.units = roundUnits num den ∧
      m'.units ≤ m.units := by
  have hle := m.roundUnits_le hden h
  exact ⟨⟨_, roundUnits_fits num den, Nat.lt_of_le_of_lt hle m.bounded⟩,
    ofRatio_eq_finite_iff.mpr rfl, rfl, hle⟩

end Binary64

/-! ## Decimals -/

namespace Decimal

/-- The decimal in units is `numerator / denominator`. -/
def numerator (d : Decimal) : Nat := d.coefficient * 10 ^ d.exponent.toNat * unitsPerOne

def denominator (d : Decimal) : Nat := 10 ^ (-d.exponent).toNat

theorem denominator_pos (d : Decimal) : 0 < d.denominator := Nat.pow_pos (by decide)

/-- Very great and very small decimals are told from their exponents, but their exact
quotients have the same answer. -/
theorem toBinary64_eq_ofRatio (negative : Bool) (d : Decimal) :
    d.toBinary64 negative = .ofRatio negative d.numerator d.denominator := by
  obtain ⟨c, e⟩ := d
  unfold toBinary64
  dsimp only
  split
  · next hc =>
    subst hc
    rw [Binary64.ofRatio_zero]
    rw [numerator, Nat.zero_mul, Nat.zero_mul]
    exact denominator_pos _
  next hc =>
  split
  · next hlarge =>
    symm
    apply Binary64.ofRatio_infinite negative (denominator_pos _)
    have hden : denominator ⟨c, e⟩ = 1 := by
      have hneg : (-e).toNat = 0 := by omega
      rw [denominator, hneg, Nat.pow_zero]
    rw [hden, Nat.mul_one]
    obtain ⟨k, hk, hbound⟩ : ∃ k ≤ 400, unitsBound ≤ Nat.pow 10 k * unitsPerOne :=
      ⟨400, Nat.le_refl _, by decide +kernel⟩
    rw [Nat.pow_eq] at hbound
    calc unitsBound ≤ 10 ^ k * unitsPerOne := hbound
      _ ≤ 10 ^ e.toNat * unitsPerOne :=
          Nat.mul_le_mul_right _ (Nat.pow_le_pow_right (by decide) (by omega))
      _ ≤ c * 10 ^ e.toNat * unitsPerOne :=
          Nat.mul_le_mul_right _ (Nat.le_mul_of_pos_left _ (Nat.pos_of_ne_zero hc))
  split
  · next hsmall =>
    symm
    apply Binary64.ofRatio_zero negative
    have hexp : e.toNat = 0 := by omega
    rw [numerator, denominator, hexp, Nat.pow_zero, Nat.mul_one]
    obtain ⟨k, hk, hbound⟩ : ∃ k ≤ 400, 2 * unitsPerOne ≤ Nat.pow 10 k :=
      ⟨400, Nat.le_refl _, by decide +kernel⟩
    rw [Nat.pow_eq] at hbound
    calc 2 * (c * unitsPerOne) < 2 * (2 ^ (c.log2 + 1) * unitsPerOne) := by
          refine Nat.mul_lt_mul_of_pos_left (Nat.mul_lt_mul_of_pos_right Nat.lt_log2_self ?_) ?_
          · decide +kernel
          · decide
      _ = 2 ^ (c.log2 + 1) * (2 * unitsPerOne) := by ring
      _ ≤ 10 ^ (c.log2 + 1) * 10 ^ k :=
          Nat.mul_le_mul (Nat.pow_le_pow_left (by decide) _) hbound
      _ = 10 ^ (c.log2 + 1 + k) := (Nat.pow_add 10 _ _).symm
      _ ≤ 10 ^ (-e).toNat := Nat.pow_le_pow_right (by decide) (by omega)
  · rfl

end Decimal

end ArithScript
