import ArithScript.Proofs.Lexing
import ArithScript.Proofs.NumberText
import ArithScript.Proofs.ShortestDecimals

/-!
# Numbers in JSON

JSON writes a number from its shortest decimal, positionally with a fraction at least of zero,
or with an exponent. Whichever it is, the text is an operand, and the decimal that it denotes
reads back as the number (`exists_operand_of_jsonText`). So the text of a number that is finite
is read as the number itself, its sign included, and no two of them have one text
(`Binary64.jsonText_inj`).
-/

namespace ArithScript.Grammar

/-! ## Scientific texts -/

/-- An exponent as it is written, with its sign always. -/
theorem exists_exponent (power : Int) : ∃ e : Exponent,
    e.text = 'e' :: (if 0 ≤ power then '+' else '-') :: Nat.toDigits 10 power.natAbs ∧
      e.value = power := by
  have hdigits := Digits.ofDigits_ofNat power.natAbs
  by_cases hpower : 0 ≤ power
  · refine ⟨⟨false, some .plus, .ofNat power.natAbs⟩, by rw [if_pos hpower]; rfl, ?_⟩
    rw [Exponent.value, if_neg (by simp), hdigits]
    exact Int.natAbs_of_nonneg hpower
  · refine ⟨⟨false, some .minus, .ofNat power.natAbs⟩, by rw [if_neg hpower]; rfl, ?_⟩
    rw [Exponent.value, if_pos rfl, hdigits]
    omega

/-- One digit, and a point with more digits if there are more. -/
theorem exists_mantissa {first : Char} {fraction : List Char}
    (hdigits : ∀ c ∈ first :: fraction, c.isDigit = true) : ∃ m : Mantissa,
      m.text = first :: (if fraction = [] then [] else '.' :: fraction) ∧
        m.wholeDigits = [first] ∧ m.fraction?.getD [] = fraction := by
  obtain ⟨hfirst, hfraction⟩ := List.forall_mem_cons.mp hdigits
  let whole : Digits := ⟨[first], by simp, by simpa using hfirst⟩
  by_cases hnil : fraction = []
  · exact ⟨.whole whole none, by simp [hnil, Mantissa.text, whole], rfl, hnil.symm⟩
  · exact ⟨.whole whole (some (some ⟨fraction, hnil, hfraction⟩)),
      by simp [hnil, Mantissa.text, whole], rfl, rfl⟩

/-- A scientific text is a numeral that denotes its decimal. -/
theorem exists_numeral_of_scientific (d : Decimal) :
    ∃ n : Numeral, n.text = d.scientific ∧ n.decimal = d := by
  have hvalue : Decimal.ofDigits d.digits = d.coefficient := Digits.ofDigits_ofNat d.coefficient
  have hisDigit : ∀ c ∈ d.digits, c.isDigit = true := (Digits.ofNat d.coefficient).isDigit
  obtain ⟨first, fraction, hdigits⟩ : ∃ first fraction, d.digits = first :: fraction :=
    List.exists_cons_of_ne_nil Nat.toDigits_ne_nil
  rw [hdigits] at hvalue hisDigit
  obtain ⟨m, hmtext, hwhole, hfraction⟩ := exists_mantissa hisDigit
  obtain ⟨e, hetext, hevalue⟩ := exists_exponent (d.exponent + d.digits.length - 1)
  refine ⟨⟨m, some e⟩, ?_, ?_⟩
  · change m.text ++ e.text = _
    rw [hmtext, hetext, Decimal.scientific, hdigits]
    rfl
  · have hexponent : e.value - fraction.length = d.exponent := by
      rw [hevalue, hdigits, List.length_cons]
      omega
    simp only [Numeral.decimal, hwhole, hfraction, Option.elim_some, List.singleton_append, hvalue,
      hexponent]

/-! ## Positional texts with a fraction -/

/-- A zero behind the point changes nothing. -/
theorem exists_numeral_of_integer {m : Magnitude} {d : Decimal} (he : 0 ≤ d.exponent)
    (hread : m.ReadsBack d) : ∃ n : Numeral, n.text = d.positional ++ ".0".toList ∧
      m.ReadsBack n.decimal := by
  obtain ⟨c, e⟩ := d
  obtain ⟨whole, htext, hdecimal⟩ := exists_plain_of_nonneg (c := c) he
  rw [Numeral.plain_text, Option.elim_none, List.append_nil] at htext
  have hwhole : Decimal.ofDigits whole.chars = c * 10 ^ e.toNat := by
    rw [Numeral.plain_decimal, Option.elim_none, List.append_nil] at hdecimal
    exact congrArg Decimal.coefficient hdecimal
  refine ⟨.plain whole (some (.ofNat 0)), ?_, ?_⟩
  · rw [Numeral.plain_text, htext]
    rfl
  · have hcoefficient : Decimal.ofDigits (whole.chars ++ ['0']) = c * 10 ^ (e.toNat + 1) := by
      have hzero := ofDigits_append_zeros whole.chars 1
      rw [hwhole, Nat.mul_assoc] at hzero
      exact hzero
    have hexponent : (-1 : Int) + (e.toNat + 1 : Nat) = e := by
      have : 0 ≤ e := he
      omega
    have hdecimal' : (Numeral.plain whole (some (.ofNat 0))).decimal =
        ⟨c * 10 ^ (e.toNat + 1), -1⟩ := by
      rw [Numeral.plain_decimal, ← hcoefficient]
      rfl
    rw [hdecimal', Magnitude.readsBack_zeros, hexponent]
    exact hread

/-! ## Texts of finite numbers -/

/-- A finite number is written in JSON as an operand that reads back as the number. -/
theorem exists_operand_of_jsonText (negative : Bool) (m : Magnitude) : ∃ n : Numeral,
    (Binary64.finite negative m).jsonText = String.ofList (Operand.text ⟨minus negative, n⟩) ∧
      m.ReadsBack n.decimal := by
  by_cases hzero : m.units = 0
  · have hm : m = .zero := Magnitude.ext_units hzero
    refine ⟨.plain (.ofNat 0) (some (.ofNat 0)), ?_, by rw [hm]; decide⟩
    rw [← signed_text, Binary64.jsonText, if_pos hzero]
    rfl
  · have hread := m.readsBack_shortest hzero .toEven
    simp only [Binary64.jsonText, if_neg hzero]
    generalize m.shortest .toEven = d at hread
    split
    · obtain ⟨n, htext, hdecimal⟩ := exists_numeral_of_scientific d
      exact ⟨n, by rw [← htext, signed_text], by rwa [hdecimal]⟩
    · split
      · next he =>
        obtain ⟨n, htext, hdecimal⟩ := exists_numeral_of_integer he hread
        exact ⟨n, by rw [← htext, signed_text], hdecimal⟩
      · next he =>
        obtain ⟨c, e⟩ := d
        obtain ⟨whole, fraction, htext, hdecimal⟩ := exists_plain_of_neg (c := c) he
        exact ⟨.plain whole (some fraction), by rw [← htext, signed_text], by rwa [hdecimal]⟩

end ArithScript.Grammar

namespace ArithScript.Binary64

open Grammar

variable {x y : Binary64}

theorem exists_finite_of_isFinite (h : x.isFinite = true) :
    ∃ negative m, x = .finite negative m := by
  cases x with
  | finite negative m => exact ⟨negative, m, rfl⟩
  | nan | infinite => cases h

/-- The text of a finite number is read as the number. -/
theorem read?_jsonText (h : x.isFinite = true) : read? x.jsonText.toList = some x := by
  obtain ⟨negative, m, rfl⟩ := exists_finite_of_isFinite h
  obtain ⟨n, htext, hread⟩ := exists_operand_of_jsonText negative m
  rw [htext, String.toList_ofList, Operand.read_text, minus_value, Decimal.toBinary64_sign, hread]
  rfl

theorem isNumeralChar_jsonText (h : x.isFinite = true) :
    ∀ c ∈ x.jsonText.toList, isNumeralChar c = true := by
  obtain ⟨negative, m, rfl⟩ := exists_finite_of_isFinite h
  obtain ⟨n, htext, -⟩ := exists_operand_of_jsonText negative m
  rw [htext, String.toList_ofList]
  exact Operand.isNumeralChar_text _

theorem jsonText_inj (hx : x.isFinite = true) (hy : y.isFinite = true)
    (h : x.jsonText = y.jsonText) : x = y := by
  have hread := read?_jsonText hx
  rw [h, read?_jsonText hy] at hread
  exact (Option.some.inj hread).symm

end ArithScript.Binary64
