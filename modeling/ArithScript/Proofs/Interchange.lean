import ArithScript.Number.Bits
import ArithScript.Proofs.Rounding

/-!
# The interchange form is faithful

Every number has 64 bits, which are read as this number again (`Binary64.ofBits_toBits`), and
64 bits that are no NaN are the bits of the number that they are read as
(`Binary64.toBits_ofBits`). What is behind both is that a magnitude has one significand at the
spacing around it (`Magnitude.significand`), with the hidden bit set unless the spacing is the
finest, and that the hidden bit carries into the field of the exponent.
-/

namespace ArithScript

/-! ## Significands -/

/-- The significand has at most 53 bits, and fewer only at the finest spacing; the coarsest
spacing is 2 ^ 2045. -/
structure Significand (spacing significand : Nat) : Prop where
  bits : significand < Nat.pow 2 53
  hidden : spacing ≠ 0 → Nat.pow 2 52 ≤ significand
  coarsest : spacing ≤ 2045

/-- The first units beyond the format have a 54th bit at the coarsest spacing. The exponent is
named here, since the power is too large to be evaluated. -/
theorem exists_unitsBound : ∃ n, n = 2045 ∧ unitsBound = Nat.pow 2 (53 + n) :=
  ⟨2045, rfl, by decide +kernel⟩

namespace Significand

variable {k s : Nat}

theorem lt_unitsBound (h : Significand k s) : s * Nat.pow 2 k < unitsBound := by
  obtain ⟨n, hn, hbound⟩ := exists_unitsBound
  rw [hbound, Nat.pow_eq, Nat.pow_eq, Nat.pow_add]
  exact Nat.lt_of_lt_of_le (Nat.mul_lt_mul_of_pos_right h.bits (Nat.two_pow_pos k))
    (Nat.mul_le_mul_left _ (Nat.pow_le_pow_right (by decide) (hn ▸ h.coarsest)))

/-- The spacing is told from the units. -/
theorem spacing_eq (h : Significand k s) : Magnitude.spacing (s * Nat.pow 2 k) = k := by
  have hlt : s < 2 ^ 53 := h.bits
  rw [Nat.pow_eq, Magnitude.spacing]
  by_cases hk : k = 0
  · have hlog : s.log2 < 53 := by
      by_cases hs : s = 0
      · rw [hs]
        decide
      · exact (Nat.log2_lt hs).mpr hlt
    rw [hk, Nat.pow_zero, Nat.mul_one]
    omega
  · have hle : 2 ^ 52 ≤ s := h.hidden hk
    have hne : s * 2 ^ k ≠ 0 := Nat.mul_ne_zero (by omega) (Nat.ne_of_gt (Nat.two_pow_pos k))
    have hlow : 52 + k ≤ (s * 2 ^ k).log2 := by
      rw [Nat.le_log2 hne, Nat.pow_add]
      exact Nat.mul_le_mul_right _ hle
    have hhigh : (s * 2 ^ k).log2 < 53 + k := by
      rw [Nat.log2_lt hne, Nat.pow_add]
      exact Nat.mul_lt_mul_of_pos_right hlt (Nat.two_pow_pos k)
    omega

/-- Together, spacing and significand take the 63 bits behind the sign. -/
theorem carried_lt (h : Significand k s) : k * Nat.pow 2 52 + s < Nat.pow 2 63 := by
  have hbits := h.bits
  have hcoarsest := h.coarsest
  simp only [Nat.pow_eq] at hbits ⊢
  omega

end Significand

namespace Magnitude

/-- The units of a magnitude are its significand at the spacing around it. -/
theorem significand_mul (m : Magnitude) :
    m.units / Nat.pow 2 (spacing m.units) * Nat.pow 2 (spacing m.units) = m.units :=
  Nat.div_mul_cancel m.spacing_dvd

theorem log2_units_lt (m : Magnitude) : m.units.log2 < 2098 := by
  by_cases hzero : m.units = 0
  · rw [hzero]
    decide
  · obtain ⟨n, hn, hbound⟩ := exists_unitsBound
    have hbounded := m.bounded
    rw [hbound, Nat.pow_eq, ← Nat.log2_lt hzero, hn] at hbounded
    exact hbounded

theorem significand (m : Magnitude) :
    Significand (spacing m.units) (m.units / Nat.pow 2 (spacing m.units)) := by
  have hunits := m.significand_mul
  have hlog := m.log2_units_lt
  simp only [Nat.pow_eq] at hunits ⊢
  generalize hs : m.units / 2 ^ spacing m.units = s at hunits ⊢
  by_cases hzero : m.units = 0
  · have hs' : s = 0 := by rw [← hs, hzero, Nat.zero_div]
    have hspacing : spacing m.units = 0 := by rw [hzero]; decide
    rw [hs', hspacing]
    exact ⟨by decide, absurd rfl, Nat.zero_le _⟩
  have hpos : 0 < 2 ^ spacing m.units := Nat.two_pow_pos _
  refine ⟨?_, fun hspacing => ?_, by unfold spacing; omega⟩
  · have hle : m.units.log2 + 1 ≤ 53 + spacing m.units := by unfold spacing; omega
    have hlt : s * 2 ^ spacing m.units < 2 ^ 53 * 2 ^ spacing m.units :=
      calc s * 2 ^ spacing m.units = m.units := hunits
        _ < 2 ^ (m.units.log2 + 1) := Nat.lt_log2_self
        _ ≤ 2 ^ (53 + spacing m.units) := Nat.pow_le_pow_right (by decide) hle
        _ = 2 ^ 53 * 2 ^ spacing m.units := Nat.pow_add ..
    exact Nat.lt_of_mul_lt_mul_right hlt
  · have hsum : 52 + spacing m.units = m.units.log2 := by unfold spacing at hspacing ⊢; omega
    have hle : 2 ^ 52 * 2 ^ spacing m.units ≤ s * 2 ^ spacing m.units :=
      calc 2 ^ 52 * 2 ^ spacing m.units = 2 ^ m.units.log2 := by rw [← Nat.pow_add, hsum]
        _ ≤ m.units := Nat.log2_self_le hzero
        _ = s * 2 ^ spacing m.units := hunits.symm
    exact Nat.le_of_mul_le_mul_right hle hpos

end Magnitude

/-! ## Fields -/

namespace Binary64

variable {negative : Bool} {rest : Nat}

theorem withSignBit_lt (hrest : rest < Nat.pow 2 63) :
    withSignBit negative rest < Nat.pow 2 64 := by
  have hsign := negative.toNat_le
  simp only [withSignBit, Nat.pow_eq] at hrest ⊢
  omega

/-- 64 bits are a bit of sign and 63 others. -/
theorem exists_withSignBit {bits : Nat} (h : bits < Nat.pow 2 64) :
    ∃ negative rest, rest < Nat.pow 2 63 ∧ bits = withSignBit negative rest := by
  simp only [withSignBit, Nat.pow_eq] at h ⊢
  by_cases hbits : bits < 2 ^ 63
  · exact ⟨false, bits, hbits, by rw [Bool.toNat_false]; omega⟩
  · exact ⟨true, bits - 2 ^ 63, by omega, by rw [Bool.toNat_true]; omega⟩

theorem ofBits_withSignBit (hrest : rest < Nat.pow 2 63) :
    ofBits (withSignBit negative rest) = ofFields negative (rest / Nat.pow 2 52)
      (rest % Nat.pow 2 52) (Nat.mod_lt rest (by decide)) := by
  have hbit := negative.toNat_le
  simp only [Nat.pow_eq] at hrest
  have hsign : withSignBit negative rest / Nat.pow 2 63 % 2 = negative.toNat := by
    simp only [withSignBit, Nat.pow_eq]
    omega
  have hexponent :
      withSignBit negative rest / Nat.pow 2 52 % Nat.pow 2 11 = rest / Nat.pow 2 52 := by
    simp only [withSignBit, Nat.pow_eq]
    omega
  have hfraction : withSignBit negative rest % Nat.pow 2 52 = rest % Nat.pow 2 52 := by
    simp only [withSignBit, Nat.pow_eq]
    omega
  have hnegative : (negative.toNat == 1) = negative := by cases negative <;> rfl
  simp only [ofBits, hsign, hexponent, hfraction, hnegative]

/-! ## Both directions -/

/-- The bits of a number are those of its significand, carried into the exponent. -/
theorem toBits_ofUnits {k s : Nat} (h : Significand k s) (negative : Bool)
    (fits : ∃ significand exponent, significand < Nat.pow 2 53 ∧
      s * Nat.pow 2 k = significand * Nat.pow 2 exponent) :
    toBits (ofUnits negative (s * Nat.pow 2 k) fits) =
      withSignBit negative (k * Nat.pow 2 52 + s) := by
  have hunits : ofUnits negative (s * Nat.pow 2 k) fits =
      .finite negative ⟨s * Nat.pow 2 k, fits, h.lt_unitsBound⟩ := dif_pos h.lt_unitsBound
  have hsignificand : s * Nat.pow 2 k / Nat.pow 2 k = s := Nat.mul_div_cancel s (Nat.two_pow_pos k)
  rw [hunits]
  simp only [toBits, h.spacing_eq, hsignificand]

/-- Fields of a number that is not NaN are found again in its bits. -/
theorem toBits_ofFields {exponent fraction : Nat} (hexponent : exponent < Nat.pow 2 11)
    (hfraction : fraction < Nat.pow 2 52)
    (hnan : ofFields negative exponent fraction hfraction ≠ .nan) :
    toBits (ofFields negative exponent fraction hfraction) =
      withSignBit negative (exponent * Nat.pow 2 52 + fraction) := by
  unfold ofFields at hnan ⊢
  simp only [Nat.pow_eq] at hexponent
  split
  · next hlast =>
    rw [if_pos hlast] at hnan
    split
    · next hzero =>
      rw [hlast, hzero]
      rfl
    · next hfraction =>
      rw [if_neg hfraction] at hnan
      exact absurd rfl hnan
  split
  · next hfirst =>
    have h : Significand 0 fraction := ⟨Nat.lt_trans hfraction (by decide), absurd rfl, by decide⟩
    rw [hfirst, ← toBits_ofUnits h negative ⟨fraction, 0, h.bits, rfl⟩]
    simp only [Nat.pow_eq, Nat.pow_zero, Nat.mul_one]
  · next hlast hfirst =>
    have h : Significand (exponent - 1) (Nat.pow 2 52 + fraction) :=
      ⟨Nat.add_lt_add_left hfraction _, fun _ => Nat.le_add_right _ _, by omega⟩
    have hcarry : (exponent - 1) * Nat.pow 2 52 + (Nat.pow 2 52 + fraction) =
        exponent * Nat.pow 2 52 + fraction := by
      simp only [Nat.pow_eq]
      omega
    rw [toBits_ofUnits h, hcarry]

/-- What the significand of a magnitude carries into the exponent is taken back. -/
theorem ofFields_carried {k s : Nat} {m : Magnitude} (h : Significand k s)
    (hunits : s * Nat.pow 2 k = m.units)
    (hfraction : (k * Nat.pow 2 52 + s) % Nat.pow 2 52 < Nat.pow 2 52) :
    ofFields negative ((k * Nat.pow 2 52 + s) / Nat.pow 2 52)
      ((k * Nat.pow 2 52 + s) % Nat.pow 2 52) hfraction = .finite negative m := by
  have hbits := h.bits
  have hcoarsest := h.coarsest
  by_cases hs : s < Nat.pow 2 52
  · have hk : k = 0 := by
      refine Decidable.byContradiction fun hk => ?_
      exact absurd (h.hidden hk) (Nat.not_le.mpr hs)
    subst hk
    simp only [Nat.zero_mul, Nat.zero_add, Nat.div_eq_of_lt hs, Nat.mod_eq_of_lt hs, ofFields]
    rw [if_neg (by decide), if_pos trivial]
    exact ofUnits_units negative _ ((Nat.mul_one s).symm.trans hunits)
  · obtain ⟨fraction, rfl⟩ := Nat.exists_eq_add_of_le (Nat.not_lt.mp hs)
    have hexponent : (k * Nat.pow 2 52 + (Nat.pow 2 52 + fraction)) / Nat.pow 2 52 = k + 1 := by
      simp only [Nat.pow_eq] at hbits ⊢
      omega
    have hfraction' : (k * Nat.pow 2 52 + (Nat.pow 2 52 + fraction)) % Nat.pow 2 52 = fraction := by
      simp only [Nat.pow_eq] at hbits ⊢
      omega
    simp only [hexponent, hfraction', ofFields]
    rw [if_neg (by omega), if_neg (Nat.succ_ne_zero k)]
    exact ofUnits_units negative _ hunits

/-- Every number has 64 bits. -/
theorem toBits_lt (x : Binary64) : x.toBits < Nat.pow 2 64 := by
  cases x with
  | nan => decide
  | infinite negative => exact withSignBit_lt (by decide)
  | finite negative m => exact withSignBit_lt m.significand.carried_lt

/-- The bits of 1 and of the infinity below all numbers. -/
example : (ofNat 1).toBits = 0x3FF0000000000000 ∧ (infinite true).toBits = 0xFFF0000000000000 := by
  decide +kernel

/-- **The bits of a number are read as the number.** -/
theorem ofBits_toBits (x : Binary64) : ofBits x.toBits = x := by
  cases x with
  | nan => decide
  | infinite negative =>
    rw [toBits, ofBits_withSignBit (by decide)]
    rfl
  | finite negative m =>
    rw [toBits, ofBits_withSignBit m.significand.carried_lt]
    exact ofFields_carried m.significand m.significand_mul _

/-- **Bits that are no NaN are the bits of the number that they are read as.** -/
theorem toBits_ofBits {bits : Nat} (h : bits < Nat.pow 2 64) (hnan : ofBits bits ≠ .nan) :
    (ofBits bits).toBits = bits := by
  obtain ⟨negative, rest, hrest, rfl⟩ := exists_withSignBit h
  have hexponent : rest / Nat.pow 2 52 < Nat.pow 2 11 := by
    simp only [Nat.pow_eq] at hrest ⊢
    omega
  rw [ofBits_withSignBit hrest] at hnan ⊢
  rw [toBits_ofFields hexponent _ hnan, Nat.mul_comm, Nat.div_add_mod]

end Binary64

end ArithScript
