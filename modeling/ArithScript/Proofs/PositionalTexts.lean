import Mathlib.Data.List.Basic
import ArithScript.Proofs.NumberText
import ArithScript.Proofs.ShortestDecimals

/-!
# One text for every number

`Binary64.text` writes the integers below a limit in a way of their own, through a machine
word. Below 2 ^ 53 the numbers of the format are no further apart than the integers, so the
shortest decimal of such an integer is the integer itself and its positional text has the
same digits (`positional_integer`). Only the sign of a negative zero is written by one of
the two forms and not by the other.
-/

namespace ArithScript

/-! ## Integers of the format -/

namespace Magnitude

/-- A unit and the bound of the format as powers of two. -/
theorem exists_units_eq_pow :
    ∃ j k, j = 971 ∧ unitsPerOne = 2 ^ k ∧ unitsBound = 2 ^ 53 * 2 ^ j * 2 ^ k := by
  obtain ⟨j, k, hj, hunit, hbound⟩ : ∃ j k, j = 971 ∧ unitsPerOne = Nat.pow 2 k ∧
      unitsBound = Nat.pow 2 53 * Nat.pow 2 j * Nat.pow 2 k := ⟨971, 1074, rfl, by decide +kernel⟩
  simp only [Nat.pow_eq] at hunit hbound
  exact ⟨j, k, hj, hunit, hbound⟩

theorem exists_integer {significand exponent : Nat} (hs : significand < 2 ^ 53)
    (he : exponent ≤ 971) :
    ∃ m : Magnitude, m.units = significand * 2 ^ exponent * unitsPerOne := by
  obtain ⟨j, k, hj, hunit, hbound⟩ := exists_units_eq_pow
  refine ⟨⟨significand * 2 ^ exponent * unitsPerOne, ⟨significand, exponent + k, ?_, ?_⟩, ?_⟩, rfl⟩
  · rwa [Nat.pow_eq]
  · rw [hunit, Nat.pow_eq, Nat.pow_add, Nat.mul_assoc]
  · rw [hunit, hbound]
    refine Nat.mul_lt_mul_of_pos_right ?_ (Nat.two_pow_pos k)
    refine Nat.mul_lt_mul_of_lt_of_le hs ?_ (Nat.two_pow_pos _)
    exact Nat.pow_le_pow_right (by decide) (by omega)

variable {m : Magnitude} {n k : Nat}

/-- The integers below 2 ^ 53 are numbers of the format. -/
theorem exists_small_integer (hn : n < 2 ^ 53) : ∃ m : Magnitude, m.units = n * unitsPerOne := by
  obtain ⟨m, hm⟩ := exists_integer hn (Nat.zero_le 971)
  exact ⟨m, by rw [hm, Nat.pow_zero, Nat.mul_one]⟩

/-- No other integer is rounded to an integer below 2 ^ 53. -/
theorem eq_of_roundUnits (hlimit : n + 1 < 2 ^ 53)
    (h : roundUnits (k * unitsPerOne) 1 = n * unitsPerOne) : k = n := by
  have hone := Grammar.unitsPerOne_pos
  rcases Nat.lt_or_ge n k with hlt | hle
  · obtain ⟨m, hm⟩ := exists_small_integer hlimit
    have hnum : m.units * 1 ≤ k * unitsPerOne := by
      rw [hm, Nat.mul_one]
      exact Nat.mul_le_mul_right _ hlt
    have hround := m.le_roundUnits Nat.one_pos hnum
    rw [h, hm] at hround
    have habsurd := Nat.le_of_mul_le_mul_right hround hone
    omega
  · obtain ⟨m, hm⟩ := exists_small_integer (show k < 2 ^ 53 by omega)
    have hround := roundUnits_units m Nat.one_pos
    rw [Nat.mul_one, hm, h] at hround
    exact (Nat.eq_of_mul_eq_mul_right hone hround).symm

/-- The shortest decimal of an integer below the limit is the integer. -/
theorem shortest_integer (tie : TieRule) (h : m.units = n * unitsPerOne) (hn : n ≠ 0)
    (hlimit : n < Binary64.integerLimit) :
    0 ≤ (m.shortest tie).exponent ∧
      (m.shortest tie).coefficient * 10 ^ (m.shortest tie).exponent.toNat = n := by
  have hm : m.units ≠ 0 := by
    rw [h]
    exact Nat.mul_ne_zero hn (Nat.ne_of_gt Grammar.unitsPerOne_pos)
  have hback := m.readsBack_shortest hm tie
  have hcoarse : ¬ (m.shortest tie).exponent < 0 := fun hlt =>
    not_onGrid_of_shortest hm hlt ⟨n, Decimal.toBinary64_integer false h⟩
  generalize m.shortest tie = d at hback hcoarse ⊢
  obtain ⟨c, e⟩ := d
  dsimp only at hcoarse ⊢
  obtain ⟨k, rfl⟩ : ∃ k : Nat, e = 0 + k := ⟨e.toNat, by omega⟩
  refine ⟨by omega, ?_⟩
  have hexp : (0 + (k : Int)).toNat = k := by omega
  rw [hexp]
  rw [← readsBack_zeros, readsBack_iff, h] at hback
  refine eq_of_roundUnits ?_ ?_
  · unfold Binary64.integerLimit at hlimit
    omega
  · rw [← hback, Decimal.numerator, Decimal.denominator]
    simp only [Int.toNat_zero, Int.neg_zero, Nat.pow_zero, Nat.mul_one]

end Magnitude

/-- The zeros of a power of ten are written behind the digits. -/
theorem toDigits_mul_pow {c : Nat} (hc : c ≠ 0) (k : Nat) :
    Nat.toDigits 10 (c * 10 ^ k) = Nat.toDigits 10 c ++ List.replicate k '0' := by
  induction k with
  | zero => rw [Nat.pow_zero, Nat.mul_one, List.replicate_zero, List.append_nil]
  | succ k ih =>
    have hpos : 0 < c * 10 ^ k := Nat.mul_pos (Nat.pos_of_ne_zero hc) (Nat.pow_pos (by decide))
    have hsucc : c * 10 ^ (k + 1) = 10 * (c * 10 ^ k) + 0 := by ring
    rw [hsucc, ← Nat.toDigits_append_toDigits (by decide) hpos (by decide), ih,
      List.replicate_succ', List.append_assoc]
    rfl

/-! ## Last digits -/

theorem toDigits_getLast? (c : Nat) : (Nat.toDigits 10 c).getLast? = some (c % 10).digitChar := by
  rcases Nat.lt_or_ge c 10 with hlt | hle
  · rw [Nat.toDigits_of_lt_base hlt, Nat.mod_eq_of_lt hlt]
    rfl
  · rw [Nat.toDigits_of_base_le (by decide) hle, List.getLast?_concat]

theorem Decimal.positional_getLast? {d : Decimal} (he : d.exponent < 0) :
    d.positional.getLast? = d.digits.getLast? := by
  have hdigits : d.digits ≠ [] := Nat.toDigits_ne_nil
  rw [positional, if_neg (by omega)]
  dsimp only
  obtain ⟨places, hplaces⟩ : ∃ places, (-d.exponent).toNat = places := ⟨_, rfl⟩
  have hlast : (List.replicate (places + 1 - d.digits.length) '0' ++ d.digits).getLast? =
      d.digits.getLast? := List.getLast?_append_of_ne_nil _ hdigits
  have hlength : places < (List.replicate (places + 1 - d.digits.length) '0' ++ d.digits).length := by
    rw [List.length_append, List.length_replicate]
    omega
  rw [hplaces, ← hlast]
  generalize List.replicate (places + 1 - d.digits.length) '0' ++ d.digits = padded at hlength
  have hfraction : padded.drop (padded.length - places) ≠ [] := by
    rw [← List.length_pos_iff, List.length_drop]
    omega
  rw [List.append_cons, List.getLast?_append_of_ne_nil _ hfraction, List.getLast?_drop,
    if_neg (by omega)]

open Grammar in
/-- A decimal without a zero at its end is written without one behind the point. -/
theorem Decimal.exists_plain (d : Decimal) (hmod : d.coefficient % 10 ≠ 0) :
    ∃ whole fraction, (Numeral.plain whole fraction).text = d.positional ∧
      ∀ digits, fraction = some digits → digits.chars.getLast? ≠ some '0' := by
  obtain ⟨c, e⟩ := d
  by_cases he : 0 ≤ e
  · obtain ⟨whole, htext, -⟩ := exists_plain_of_nonneg (c := c) he
    exact ⟨whole, none, htext, fun _ h => nomatch h⟩
  · obtain ⟨whole, fraction, htext, -⟩ := exists_plain_of_neg (c := c) he
    refine ⟨whole, some fraction, htext, ?_⟩
    rintro _ ⟨rfl⟩ hzero
    have hlast := positional_getLast? (d := ⟨c, e⟩) (Int.not_le.mp he)
    rw [← htext, Numeral.plain_text, Option.elim_some, List.append_cons,
      List.getLast?_append_of_ne_nil _ fraction.nonempty, hzero, digits, toDigits_getLast?] at hlast
    have hdigit : ∀ r < 10, '0' = Nat.digitChar r → r = 0 := by decide
    exact hmod (hdigit _ (Nat.mod_lt _ (by decide)) (Option.some.inj hlast))

/-! ## Texts -/

namespace Binary64

open Grammar

variable {negative : Bool} {m : Magnitude} {n : Nat}

/-- The conversion to a signed machine word: the fraction is cut off, what lies beyond the
words becomes the last word, and NaN becomes 0. -/
def truncate : Binary64 → Int64
  | .nan => 0
  | .infinite negative => if negative then Int64.minValue else Int64.maxValue
  | .finite negative m => Int64.ofIntClamp ((signedUnits negative m).tdiv unitsPerOne)

/-- The text of a number where the digits of a small integer are those of its machine
word. -/
def wordText (x : Binary64) : String :=
  if x.toInt?.any (·.natAbs < integerLimit) then toString x.truncate.toInt else x.positional

/-- The conversion of a small integer is exact. -/
theorem truncate_toInt {k : Int} (h : (finite negative m).toInt? = some k)
    (hlimit : k.natAbs < integerLimit) :
    (finite negative m).truncate.toInt = k ∧ signedUnits negative m = k * unitsPerOne := by
  have hunits : signedUnits negative m = k * unitsPerOne := by
    rw [toInt?] at h
    split at h
    · next hint =>
      have hm := Nat.div_mul_cancel (Nat.dvd_of_mod_eq_zero hint)
      obtain rfl := Option.some.inj h
      unfold signedUnits
      rw [← Int.natCast_ediv]
      cases negative with
      | false =>
        simp only [Bool.false_eq_true, ↓reduceIte]
        exact_mod_cast hm.symm
      | true =>
        simp only [↓reduceIte, Int.neg_mul]
        exact_mod_cast congrArg (fun units : Nat => -(units : Int)) hm.symm
    · cases h
  refine ⟨?_, hunits⟩
  have hone : (unitsPerOne : Int) ≠ 0 := by exact_mod_cast Nat.ne_of_gt unitsPerOne_pos
  have hmin : Int64.minValue.toInt = -9223372036854775808 := by decide
  have hmax : Int64.maxValue.toInt = 9223372036854775807 := by decide
  unfold integerLimit at hlimit
  rw [truncate, hunits, Int.mul_tdiv_cancel _ hone, Int64.toInt_ofIntClamp]
  · omega
  · omega

theorem text_eq_wordText (negative : Bool) (m : Magnitude) :
    (finite negative m).text = (finite negative m).wordText := by
  unfold text wordText
  cases hint : (finite negative m).toInt? with
  | none => rfl
  | some k =>
    simp only [Option.any_some, decide_eq_true_eq]
    split
    · next hlimit => rw [(truncate_toInt hint hlimit).1]
    · rfl

/-- Below the limit the shortest digits of an integer are all of its digits. -/
theorem positional_integer (h : m.units = n * unitsPerOne) (hn : n ≠ 0)
    (hlimit : n < integerLimit) (negative : Bool) :
    (finite negative m).positional = signed negative (Nat.toDigits 10 n) := by
  have hm : m.units ≠ 0 := by
    rw [h]
    exact Nat.mul_ne_zero hn (Nat.ne_of_gt unitsPerOne_pos)
  obtain ⟨he, hvalue⟩ := Magnitude.shortest_integer .upward h hn hlimit
  have hc : (m.shortest .upward).coefficient ≠ 0 := by
    intro hzero
    rw [hzero, Nat.zero_mul] at hvalue
    exact hn hvalue.symm
  rw [positional, if_neg hm, Decimal.positional, if_pos he, Decimal.digits,
    ← toDigits_mul_pow hc, hvalue]

/-- The two forms of a number other than 0 are one text. -/
theorem text_of_ne_zero (hm : m.units ≠ 0) (negative : Bool) :
    (finite negative m).text = (finite negative m).positional := by
  by_cases hshort : ∃ n < integerLimit, m.units = n * unitsPerOne
  · obtain ⟨n, hlimit, hunits⟩ := hshort
    have hn : n ≠ 0 := by
      rintro rfl
      exact hm (by rw [hunits, Nat.zero_mul])
    rw [integer_text hunits hlimit, positional_integer hunits hn hlimit, bne_iff_ne.mpr hn,
      Bool.and_true, ← signed_text, Numeral.plain_text, Option.elim_none, List.append_nil]
    rfl
  · exact text_of_not_short hshort

theorem text_of_zero (hm : m.units = 0) (negative : Bool) : (finite negative m).text = "0" := by
  have hzero : m.units = 0 * unitsPerOne := by rw [hm, Nat.zero_mul]
  rw [integer_text hzero (by decide), bne_self_eq_false, Bool.and_false]
  rfl

/-- **One text**: a finite number is written with the fewest digits that read back as it, by
their places, whichever side of the limit it is on; the machine word that a small integer
goes through is that integer. -/
theorem text_spec (negative : Bool) (m : Magnitude) :
    let x := finite negative m
    (¬ (negative = true ∧ m.units = 0) → x.text = x.positional) ∧
    (m.units = 0 → x.text = "0") ∧
    (m.units ≠ 0 → ∃ d, m.Shortest d ∧ x.positional = signed negative d.positional) ∧
    x.text = x.wordText ∧
    (∀ k, x.toInt? = some k → k.natAbs < integerLimit →
      x.truncate.toInt = k ∧ signedUnits negative m = k * unitsPerOne) ∧
    ∃ (minus : Bool) (whole : Digits) (fraction : Option Digits),
      x.text = signed minus (whole.chars ++ fraction.elim [] fun digits => '.' :: digits.chars) ∧
      ∀ digits, fraction = some digits → digits.chars.getLast? ≠ some '0' := by
  intro x
  refine ⟨fun hsign => ?_, (text_of_zero · negative), fun hm => ?_, text_eq_wordText negative m,
    fun k => truncate_toInt, ?_⟩
  · by_cases hm : m.units = 0
    · have hpositive : (finite negative m).positional = "0" := by
        cases negative with
        | false => exact if_pos hm
        | true => exact absurd ⟨rfl, hm⟩ hsign
      exact (text_of_zero hm negative).trans hpositive.symm
    · exact text_of_ne_zero hm negative
  · exact ⟨m.shortest .upward, Magnitude.shortest_spec hm .upward, if_neg hm⟩
  · by_cases hm : m.units = 0
    · exact ⟨false, .ofNat 0, none, text_of_zero hm negative, fun _ h => nomatch h⟩
    · obtain ⟨whole, fraction, htext, hlast⟩ :=
        (m.shortest .upward).exists_plain (Magnitude.shortest_coefficient_mod hm .upward)
      refine ⟨negative, whole, fraction, ?_, hlast⟩
      rw [text_of_ne_zero hm, positional, if_neg hm, ← htext, Numeral.plain_text]

/-- The number -3 is one of the small integers. -/
theorem text_spec_minus_three : ∃ m : Magnitude, m.units = 3 * unitsPerOne ∧
    (finite true m).positional = "-3" ∧ (finite true m).truncate.toInt = -3 := by
  obtain ⟨m, hm⟩ := Magnitude.exists_small_integer (show 3 < 2 ^ 53 by decide)
  have hne : m.units ≠ 0 := by
    rw [hm]
    exact Nat.mul_ne_zero (by decide) (Nat.ne_of_gt unitsPerOne_pos)
  have hint : (finite true m).toInt? = some (-3) := by
    rw [toInt?, hm, Nat.mul_mod_left, if_pos rfl, ← Int.natCast_ediv,
      Nat.mul_div_cancel 3 unitsPerOne_pos]
    rfl
  obtain ⟨hpositional, -, -, -, hword, -⟩ := text_spec true m
  refine ⟨m, hm, ?_, (hword (-3) hint (by decide)).1⟩
  rw [← hpositional (fun h => hne h.2), integer_text hm (by decide)]
  decide

end Binary64

end ArithScript
