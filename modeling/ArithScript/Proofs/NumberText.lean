import ArithScript.Proofs.Numerals
import ArithScript.Proofs.Rounding

/-!
# Texts of numbers are operands

The text of a finite number is digits, perhaps with a point and more digits, and
perhaps with a minus sign in front. As an operand it has the value that it was
written for, except that a zero loses its sign (`exists_operand_of_text`).
-/

namespace ArithScript.Grammar

/-! ## Plain numerals -/

/-- A numeral without an exponent, with digits on both sides of its point if it
has one. -/
def Numeral.plain (whole : Digits) (fraction : Option Digits) : Numeral :=
  ⟨.whole whole (fraction.map some), none⟩

theorem Numeral.plain_text (whole : Digits) (fraction : Option Digits) :
    (Numeral.plain whole fraction).text =
      whole.chars ++ fraction.elim [] fun digits => '.' :: digits.chars := by
  cases fraction <;> simp [plain, text, Mantissa.text, exponentText]

theorem Numeral.plain_decimal (whole : Digits) (fraction : Option Digits) :
    (Numeral.plain whole fraction).decimal =
      ⟨Decimal.ofDigits (whole.chars ++ fraction.elim [] Digits.chars),
        -(fraction.elim [] Digits.chars).length⟩ := by
  cases fraction <;> simp [plain, decimal, Mantissa.wholeDigits, Mantissa.fraction?]

/-- The digits that write a natural number. -/
def Digits.ofNat (n : Nat) : Digits :=
  ⟨Nat.toDigits 10 n, Nat.toDigits_ne_nil,
    fun _ hc => Nat.isDigit_of_mem_toDigits (by decide) (by decide) hc⟩

theorem Digits.ofDigits_ofNat (n : Nat) : Decimal.ofDigits (Digits.ofNat n).chars = n :=
  Nat.ofDigitChars_ten_toDigits

theorem isDigit_zeros {n : Nat} {c : Char} (hc : c ∈ List.replicate n '0') : c.isDigit = true := by
  rw [List.eq_of_mem_replicate hc]
  decide

theorem ofDigits_zeros_append (n : Nat) (digits : List Char) :
    Decimal.ofDigits (List.replicate n '0' ++ digits) = Decimal.ofDigits digits := by
  rw [Decimal.ofDigits, Nat.ofDigitChars_append, Nat.ofDigitChars_replicate_zero, Nat.mul_zero,
    Decimal.ofDigits]

theorem ofDigits_append_zeros (digits : List Char) (n : Nat) :
    Decimal.ofDigits (digits ++ List.replicate n '0') = Decimal.ofDigits digits * Nat.pow 10 n := by
  rw [Decimal.ofDigits, Nat.ofDigitChars_append, Nat.ofDigitChars_replicate_zero, Nat.mul_comm,
    Decimal.ofDigits, Nat.pow_eq]

/-! ## Positional texts -/

theorem exists_plain_of_nonneg {c : Nat} {e : Int} (he : 0 ≤ e) :
    ∃ whole, (Numeral.plain whole none).text = Decimal.positional ⟨c, e⟩ ∧
      (Numeral.plain whole none).decimal = ⟨c * Nat.pow 10 e.toNat, 0⟩ := by
  have hdigits := (Digits.ofNat c).isDigit
  have hne := (Digits.ofNat c).nonempty
  have hvalue := ofDigits_append_zeros (Digits.ofNat c).chars e.toNat
  rw [Digits.ofDigits_ofNat] at hvalue
  refine ⟨⟨(Digits.ofNat c).chars ++ List.replicate e.toNat '0', by simp [hne], ?_⟩, ?_, ?_⟩
  · intro d hd
    rcases List.mem_append.mp hd with hd | hd
    · exact hdigits d hd
    · exact isDigit_zeros hd
  · simp [Numeral.plain_text, Decimal.positional, he, Decimal.digits, Digits.ofNat]
  · simp [Numeral.plain_decimal, hvalue]

theorem exists_plain_of_neg {c : Nat} {e : Int} (he : ¬ 0 ≤ e) :
    ∃ whole fraction, (Numeral.plain whole (some fraction)).text = Decimal.positional ⟨c, e⟩ ∧
      (Numeral.plain whole (some fraction)).decimal = ⟨c, e⟩ := by
  have hdigits := (Digits.ofNat c).isDigit
  have hvalue := Digits.ofDigits_ofNat c
  have htext : Decimal.digits ⟨c, e⟩ = (Digits.ofNat c).chars := rfl
  simp only [Decimal.positional, he, ↓reduceIte, htext]
  generalize (Digits.ofNat c).chars = digits at hdigits hvalue
  obtain ⟨places, hplaces⟩ : ∃ places : Nat, e = -places := ⟨(-e).toNat, by omega⟩
  have hpos : 0 < places := by omega
  have hnat : (-e).toNat = places := by omega
  rw [hnat]
  have hvalue' := ofDigits_zeros_append (places + 1 - digits.length) digits
  have hlength : places + 1 ≤ (List.replicate (places + 1 - digits.length) '0' ++ digits).length := by
    rw [List.length_append, List.length_replicate]
    omega
  have hpadded : ∀ d ∈ List.replicate (places + 1 - digits.length) '0' ++ digits,
      d.isDigit = true := by
    intro d hd
    rcases List.mem_append.mp hd with hd | hd
    · exact isDigit_zeros hd
    · exact hdigits d hd
  generalize List.replicate (places + 1 - digits.length) '0' ++ digits = padded at *
  refine ⟨⟨padded.take (padded.length - places), ?_, fun d hd => hpadded d (List.mem_of_mem_take hd)⟩,
    ⟨padded.drop (padded.length - places), ?_, fun d hd => hpadded d (List.mem_of_mem_drop hd)⟩,
    ?_, ?_⟩
  · rw [← List.length_pos_iff, List.length_take]
    omega
  · rw [← List.length_pos_iff, List.length_drop]
    omega
  · rw [Numeral.plain_text]
    rfl
  · have hfraction : padded.length - (padded.length - places) = places := by omega
    rw [Numeral.plain_decimal]
    simp only [Option.elim_some, List.take_append_drop, List.length_drop, hvalue', hvalue,
      hfraction, hplaces]

/-- A number that is read from a decimal is read from its positional text. -/
theorem exists_plain_of_positional (negative : Bool) {d : Decimal}
    (hfinite : (d.toBinary64 negative).isFinite = true) :
    ∃ whole fraction, (Numeral.plain whole fraction).text = d.positional ∧
      (Numeral.plain whole fraction).decimal.toBinary64 negative = d.toBinary64 negative := by
  obtain ⟨c, e⟩ := d
  by_cases he : 0 ≤ e
  · obtain ⟨whole, htext, hdecimal⟩ := exists_plain_of_nonneg (c := c) he
    exact ⟨whole, none, htext, by rw [hdecimal, Decimal.toBinary64_scaled he hfinite]⟩
  · obtain ⟨whole, fraction, htext, hdecimal⟩ := exists_plain_of_neg (c := c) he
    exact ⟨whole, some fraction, htext, by rw [hdecimal]⟩

/-! ## Texts of finite numbers -/

/-- The number, and a zero without its sign. -/
def unsignedZero (x : Binary64) : Binary64 := if x.isZero then .zero false else x

/-- The sign of a text. -/
def minus (negative : Bool) : Option Sign := if negative then some .minus else none

theorem signed_text (negative : Bool) (n : Numeral) :
    Binary64.signed negative n.text = String.ofList (Operand.text ⟨minus negative, n⟩) := by
  cases negative <;> rfl

theorem minus_value (negative : Bool) (n : Numeral) :
    Operand.value ⟨minus negative, n⟩ = n.decimal.toBinary64 negative := by
  cases negative <;> rfl

theorem toString_nat (n : Nat) :
    toString (n : Int) = String.ofList (Numeral.plain (.ofNat n) none).text := by
  rw [Numeral.plain_text]
  simp [Int.toString_eq_repr, Int.repr_eq_if, Digits.ofNat, Nat.repr_eq_ofList_toDigits]

theorem toString_neg {n : Nat} (hn : n ≠ 0) :
    toString (-(n : Int)) = String.ofList ('-' :: (Numeral.plain (.ofNat n) none).text) := by
  obtain ⟨k, rfl⟩ := Nat.exists_eq_succ_of_ne_zero hn
  have htext : toString (-((k + 1 : Nat) : Int)) = "-" ++ Nat.repr (k + 1) := rfl
  rw [htext, Nat.repr_eq_ofList_toDigits, Numeral.plain_text, ← String.toList_inj]
  simp [Digits.ofNat]

theorem plain_integer_value (negative : Bool) {n : Nat} {m : Magnitude}
    (h : m.units = n * unitsPerOne) :
    (Numeral.plain (.ofNat n) none).decimal.toBinary64 negative = .finite negative m := by
  rw [Numeral.plain_decimal]
  simp only [Option.elim_none, List.append_nil, List.length_nil, Digits.ofDigits_ofNat]
  exact Decimal.toBinary64_integer negative h

theorem unitsPerOne_pos : 0 < unitsPerOne := by
  decide +kernel

theorem unsignedZero_of_ne {negative : Bool} {m : Magnitude} (h : m.units ≠ 0) :
    unsignedZero (.finite negative m) = .finite negative m := by
  simp [unsignedZero, Binary64.isZero, h]

theorem isFinite_unsignedZero {x : Binary64} (h : x.isFinite = true) :
    (unsignedZero x).isFinite = true := by
  unfold unsignedZero
  split
  · rfl
  · exact h

theorem unsignedZero_unsigned (m : Magnitude) :
    unsignedZero (.finite false m) = .finite false m := by
  by_cases hzero : m.units = 0
  · have hm : m = .zero := Magnitude.ext_units hzero
    rw [hm]
    rfl
  · exact unsignedZero_of_ne hzero

theorem positional_operand (negative : Bool) {m : Magnitude} (hm : m.units ≠ 0) :
    ∃ (whole : Digits) (fraction : Option Digits),
      (Binary64.finite negative m).positional =
        String.ofList (Operand.text ⟨minus negative, .plain whole fraction⟩) ∧
      Operand.value ⟨minus negative, .plain whole fraction⟩ = .finite negative m := by
  have hread : (m.shortest .upward).toBinary64 negative = .finite negative m := by
    rw [Decimal.toBinary64_sign, m.readsBack_shortest hm .upward]
    rfl
  obtain ⟨whole, fraction, htext, hvalue⟩ :=
    exists_plain_of_positional negative (d := m.shortest .upward) (by rw [hread]; rfl)
  refine ⟨whole, fraction, ?_, by rw [minus_value, hvalue, hread]⟩
  rw [Binary64.positional, if_neg hm, ← htext, signed_text]

theorem integer_text {n : Nat} {m : Magnitude} (h : m.units = n * unitsPerOne)
    (hlimit : n < Binary64.integerLimit) (negative : Bool) :
    (Binary64.finite negative m).text =
      String.ofList (Operand.text ⟨minus (negative && n != 0), .plain (.ofNat n) none⟩) := by
  have hint : m.units % unitsPerOne = 0 := by rw [h, Nat.mul_mod_left]
  have hn : m.units / unitsPerOne = n := by rw [h, Nat.mul_div_cancel n unitsPerOne_pos]
  have hcast : (m.units : Int) / (unitsPerOne : Int) = (n : Int) := by
    rw [← Int.natCast_ediv, hn]
  unfold Binary64.text Binary64.toInt?
  simp only [hint, ↓reduceIte, hcast]
  cases negative with
  | false =>
    simp only [Bool.false_eq_true, ↓reduceIte, Int.natAbs_natCast, hlimit]
    exact toString_nat n
  | true =>
    simp only [↓reduceIte, Int.natAbs_neg, Int.natAbs_natCast, hlimit, Bool.true_and]
    by_cases hzero : n = 0
    · subst hzero
      exact toString_nat 0
    · rw [toString_neg hzero, bne_iff_ne.mpr hzero]
      rfl

theorem toInt?_eq_some {negative : Bool} {m : Magnitude} {n : Int}
    (h : (Binary64.finite negative m).toInt? = some n) :
    unitsPerOne ∣ m.units ∧ n.natAbs = m.units / unitsPerOne := by
  rw [Binary64.toInt?] at h
  by_cases hint : m.units % unitsPerOne = 0
  · rw [if_pos hint] at h
    obtain rfl := Option.some.inj h
    refine ⟨Nat.dvd_of_mod_eq_zero hint, ?_⟩
    rw [← Int.natCast_ediv]
    cases negative with
    | false => rfl
    | true => exact Int.natAbs_neg _
  · rw [if_neg hint] at h
    cases h

theorem text_eq_positional {x : Binary64}
    (h : ∀ n, x.toInt? = some n → ¬ n.natAbs < Binary64.integerLimit) :
    x.text = x.positional := by
  unfold Binary64.text
  cases hint : x.toInt? with
  | none => rfl
  | some n => exact if_neg (h n hint)

theorem text_of_not_short {negative : Bool} {m : Magnitude}
    (hshort : ¬ ∃ n < Binary64.integerLimit, m.units = n * unitsPerOne) :
    (Binary64.finite negative m).text = (Binary64.finite negative m).positional := by
  apply text_eq_positional
  intro n hn hlimit
  obtain ⟨hdvd, hnat⟩ := toInt?_eq_some hn
  exact hshort ⟨n.natAbs, hlimit, by rw [hnat, Nat.div_mul_cancel hdvd]⟩

/-- A finite number is written as an operand that has its value. -/
theorem exists_operand_of_text (negative : Bool) (m : Magnitude) :
    ∃ (whole : Digits) (fraction : Option Digits),
      (Binary64.finite negative m).text =
        String.ofList (Operand.text ⟨minus (negative && m.units != 0), .plain whole fraction⟩) ∧
      Operand.value ⟨minus (negative && m.units != 0), .plain whole fraction⟩ =
        unsignedZero (.finite negative m) := by
  by_cases hshort : ∃ n < Binary64.integerLimit, m.units = n * unitsPerOne
  · obtain ⟨n, hlimit, hunits⟩ := hshort
    have hzero : (m.units != 0) = (n != 0) := by
      rw [hunits, Bool.eq_iff_iff, bne_iff_ne, bne_iff_ne, Nat.mul_ne_zero_iff]
      exact and_iff_left (Nat.ne_of_gt unitsPerOne_pos)
    refine ⟨.ofNat n, none, ?_, ?_⟩
    · rw [hzero, integer_text hunits hlimit]
    · rw [minus_value, plain_integer_value _ hunits]
      by_cases hunit : m.units = 0
      · have hm : m = .zero := Magnitude.ext_units hunit
        rw [hunit, hm]
        cases negative <;> rfl
      · rw [unsignedZero_of_ne hunit, bne_iff_ne.mpr hunit, Bool.and_true]
  · have hzero : m.units ≠ 0 := by
      intro hzero
      exact hshort ⟨0, by decide, by rw [hzero, Nat.zero_mul]⟩
    have hsign : (negative && m.units != 0) = negative := by simp [hzero]
    rw [hsign, unsignedZero_of_ne hzero, text_of_not_short hshort]
    exact positional_operand negative hzero

end ArithScript.Grammar
