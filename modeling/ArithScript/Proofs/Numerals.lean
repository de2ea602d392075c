import ArithScript.Proofs.Grammar

/-!
# Numerals are read exactly

`Decimal.read?` accepts the texts of numerals and nothing else, and answers with
the decimal that the tree of the numeral denotes. A numeral has one tree: a text
falls apart at the first character that is no digit, so the digits before the
point, the digits after it and the exponent can be told from the text alone.
-/

namespace ArithScript.Grammar

/-! ## First characters -/

/-- The text is empty, or its first character is not of this kind. -/
def NotStarting (kind : Char → Bool) (cs : List Char) : Prop := ∀ c ∈ cs.head?, kind c = false

section Runs

variable {kind : Char → Bool}

theorem notStarting_cons {c : Char} {cs : List Char} :
    NotStarting kind (c :: cs) ↔ kind c = false := by
  simp [NotStarting]

theorem NotStarting.append {cs : List Char} (h : NotStarting kind cs) (hne : cs ≠ [])
    (tail : List Char) : NotStarting kind (cs ++ tail) := by
  cases cs with
  | nil => exact absurd rfl hne
  | cons c cs => exact h

theorem NotStarting.takeWhile_eq {cs : List Char} (h : NotStarting kind cs) :
    cs.takeWhile kind = [] := by
  cases cs with
  | nil => rfl
  | cons c cs => simp [notStarting_cons.mp h]

theorem NotStarting.dropWhile_eq {cs : List Char} (h : NotStarting kind cs) :
    cs.dropWhile kind = cs := by
  cases cs with
  | nil => rfl
  | cons c cs => simp [notStarting_cons.mp h]

/-- A run ends where the text after it starts with something else. -/
theorem takeWhile_run {run tail : List Char} (hrun : ∀ c ∈ run, kind c = true)
    (htail : NotStarting kind tail) : (run ++ tail).takeWhile kind = run := by
  rw [List.takeWhile_append_of_pos hrun, htail.takeWhile_eq, List.append_nil]

theorem dropWhile_run {run tail : List Char} (hrun : ∀ c ∈ run, kind c = true)
    (htail : NotStarting kind tail) : (run ++ tail).dropWhile kind = tail := by
  rw [List.dropWhile_append_of_pos hrun, htail.dropWhile_eq]

theorem run_inj {run run' tail tail' : List Char} (hrun : ∀ c ∈ run, kind c = true)
    (hrun' : ∀ c ∈ run', kind c = true) (htail : NotStarting kind tail)
    (htail' : NotStarting kind tail') (h : run ++ tail = run' ++ tail') :
    run = run' ∧ tail = tail' := by
  constructor
  · rw [← takeWhile_run hrun htail, h, takeWhile_run hrun' htail']
  · rw [← dropWhile_run hrun htail, h, dropWhile_run hrun' htail']

theorem of_mem_takeWhile {c : Char} {cs : List Char} (h : c ∈ cs.takeWhile kind) :
    kind c = true := List.all_eq_true.mp List.all_takeWhile c h

end Runs

/-! ## The parts of a mantissa -/

/-- The text of the part of a mantissa from its point on, if it has one. -/
def pointed : Option (List Char) → List Char
  | none => []
  | some fraction => '.' :: fraction

namespace Mantissa

theorem text_eq (m : Mantissa) : m.text = m.wholeDigits ++ pointed m.fraction? := by
  rcases m with ⟨digits, _ | _ | fraction⟩ | fraction <;> simp [text, wholeDigits, fraction?, pointed]

theorem isDigit_whole (m : Mantissa) : ∀ c ∈ m.wholeDigits, c.isDigit = true := by
  cases m with
  | whole digits _ => exact digits.isDigit
  | bare _ => simp [wholeDigits]

theorem isDigit_fraction (m : Mantissa) : ∀ c ∈ m.fraction?.getD [], c.isDigit = true := by
  rcases m with ⟨digits, _ | _ | fraction⟩ | fraction
  · simp [fraction?]
  · simp [fraction?]
  · exact fraction.isDigit
  · exact fraction.isDigit

theorem digits_ne_nil (m : Mantissa) : m.wholeDigits ++ m.fraction?.getD [] ≠ [] := by
  cases m with
  | whole digits _ => simp [wholeDigits, digits.nonempty]
  | bare fraction => simpa [wholeDigits, fraction?] using fraction.nonempty

theorem fraction?_inj {digits : Digits} {f f' : Option (Option Digits)}
    (h : (whole digits f).fraction? = (whole digits f').fraction?) : f = f' := by
  rcases f with _ | _ | d
  · rcases f' with _ | _ | d'
    · rfl
    · cases h
    · cases h
  · rcases f' with _ | _ | d'
    · cases h
    · rfl
    · exact absurd (Option.some.inj h).symm d'.nonempty
  · rcases f' with _ | _ | d'
    · cases h
    · exact absurd (Option.some.inj h) d.nonempty
    · rw [Digits.ext (Option.some.inj h)]

/-- The two parts determine the mantissa. -/
theorem ext_parts {m m' : Mantissa} (hwhole : m.wholeDigits = m'.wholeDigits)
    (hfraction : m.fraction? = m'.fraction?) : m = m' := by
  cases m with
  | whole digits f =>
    cases m' with
    | whole digits' f' =>
      obtain rfl : digits = digits' := Digits.ext hwhole
      rw [fraction?_inj hfraction]
    | bare d' => exact absurd hwhole digits.nonempty
  | bare d =>
    cases m' with
    | whole digits' f' => exact absurd hwhole.symm digits'.nonempty
    | bare d' => rw [Digits.ext (Option.some.inj hfraction)]

/-- Digits on one side of the point, at least, make a mantissa. -/
theorem exists_of_parts {whole : List Char} (fraction : Option (List Char))
    (hwhole : ∀ c ∈ whole, c.isDigit = true) (hfraction : ∀ c ∈ fraction.getD [], c.isDigit = true)
    (hsome : whole ++ fraction.getD [] ≠ []) :
    ∃ m : Mantissa, m.wholeDigits = whole ∧ m.fraction? = fraction := by
  by_cases hnil : whole = []
  · subst hnil
    cases fraction with
    | none => simp at hsome
    | some digits => exact ⟨.bare ⟨digits, by simpa using hsome, hfraction⟩, rfl, rfl⟩
  · match fraction, hfraction with
    | none, _ => exact ⟨.whole ⟨whole, hnil, hwhole⟩ none, rfl, rfl⟩
    | some [], _ => exact ⟨.whole ⟨whole, hnil, hwhole⟩ (some none), rfl, rfl⟩
    | some (c :: cs), hfraction =>
      exact ⟨.whole ⟨whole, hnil, hwhole⟩ (some (some ⟨c :: cs, by simp, hfraction⟩)), rfl, rfl⟩

end Mantissa

/-! ## Exponents -/

namespace Digits

theorem notStarting_sign (digits : Digits) : NotStarting Cut.isSign digits.chars := by
  intro c hc
  have hdigit := digits.isDigit c (List.mem_of_mem_head? hc)
  cases hsign : Cut.isSign c with
  | false => rfl
  | true =>
    simp only [Cut.isSign, Bool.or_eq_true, beq_iff_eq] at hsign
    rcases hsign with rfl | rfl <;> cases hdigit

end Digits

theorem Sign.isSign (sign : Sign) : Cut.isSign sign.toChar = true := by
  cases sign <;> rfl

/-- A sign can be told from what it stands before. -/
theorem Sign.text_append_inj {sign sign' : Option Sign} {tail tail' : List Char}
    (htail : NotStarting Cut.isSign tail) (htail' : NotStarting Cut.isSign tail')
    (h : Sign.text sign ++ tail = Sign.text sign' ++ tail') : sign = sign' ∧ tail = tail' := by
  cases sign with
  | none =>
    cases sign' with
    | none => exact ⟨rfl, h⟩
    | some sign' =>
      change tail = sign'.toChar :: tail' at h
      rw [h, notStarting_cons, sign'.isSign] at htail
      cases htail
  | some sign =>
    cases sign' with
    | none =>
      change sign.toChar :: tail = tail' at h
      rw [← h, notStarting_cons, sign.isSign] at htail'
      cases htail'
    | some sign' =>
      obtain ⟨hchar, htails⟩ := List.cons.inj h
      refine ⟨?_, htails⟩
      cases sign <;> cases sign' <;> first | rfl | cases hchar

namespace Exponent

theorem mark_eq (e : Exponent) : e.mark = 'e' ∨ e.mark = 'E' := by
  unfold mark
  cases e.capital <;> simp

theorem read_text (e : Exponent) : Decimal.readExponent? e.text = some e.value := by
  obtain ⟨capital, sign, digits⟩ := e
  have hmark := mark_eq ⟨capital, sign, digits⟩
  have hall : digits.chars.all Char.isDigit = true := List.all_eq_true.mpr digits.isDigit
  match sign with
  | some .minus => simp [text, Decimal.readExponent?, Sign.text, Sign.toChar, value, hmark,
      digits.nonempty, hall]
  | some .plus => simp [text, Decimal.readExponent?, Sign.text, Sign.toChar, value, hmark,
      digits.nonempty, hall]
  | none =>
    have hsign := digits.notStarting_sign
    cases hdigits : digits.chars with
    | nil => exact absurd hdigits digits.nonempty
    | cons d ds =>
      rw [hdigits, notStarting_cons] at hsign
      simp only [Cut.isSign, Bool.or_eq_false_iff, beq_eq_false_iff_ne] at hsign
      rw [hdigits] at hall
      simp [text, Decimal.readExponent?, Sign.text, value, hmark, hdigits, hsign, hall]

theorem text_inj {e e' : Exponent} (h : e.text = e'.text) : e = e' := by
  obtain ⟨capital, sign, digits⟩ := e
  obtain ⟨capital', sign', digits'⟩ := e'
  obtain ⟨hmark, htail⟩ := List.cons.inj h
  obtain ⟨rfl, hdigits⟩ := Sign.text_append_inj digits.notStarting_sign digits'.notStarting_sign htail
  obtain rfl := Digits.ext hdigits
  cases capital <;> cases capital' <;> first | rfl | cases hmark

/-- What is read as an exponent is the text of one, or empty. -/
theorem exists_of_read {cs : List Char} {n : Int} (h : Decimal.readExponent? cs = some n) :
    ∃ e : Option Exponent, Numeral.exponentText e = cs ∧ e.elim 0 value = n := by
  unfold Decimal.readExponent? at h
  split at h
  · cases h
    exact ⟨none, rfl, rfl⟩
  · rename_i mark rest
    split at h
    rename_i negative digits hsplit
    split at h
    · rename_i hok
      obtain ⟨hmark, hne, hall⟩ := hok
      let run : Digits := ⟨digits, hne, List.all_eq_true.mp hall⟩
      have hcapital : (if mark = 'E' then 'E' else 'e') = mark := by
        rcases hmark with rfl | rfl <;> rfl
      cases h
      split at hsplit
      · cases hsplit
        exact ⟨some ⟨mark = 'E', some .minus, run⟩,
          by simp [Numeral.exponentText, text, Exponent.mark, hcapital, Sign.text, Sign.toChar, run],
          by simp [value, run]⟩
      · cases hsplit
        exact ⟨some ⟨mark = 'E', some .plus, run⟩,
          by simp [Numeral.exponentText, text, Exponent.mark, hcapital, Sign.text, Sign.toChar, run],
          by simp [value, run]⟩
      · cases hsplit
        exact ⟨some ⟨mark = 'E', none, run⟩,
          by simp [Numeral.exponentText, text, Exponent.mark, hcapital, Sign.text, run],
          by simp [value, run]⟩
    · cases h

end Exponent

/-! ## Numerals -/

namespace Numeral

/-- What follows a mantissa is empty or starts with the mark of an exponent. -/
theorem exponentText_head {e : Option Exponent} {c : Char} (h : c ∈ (exponentText e).head?) :
    c = 'e' ∨ c = 'E' := by
  cases e with
  | none => cases h
  | some e =>
    simp only [exponentText, Exponent.text, List.head?_cons, Option.mem_some_iff] at h
    rw [← h]
    exact e.mark_eq

theorem notStarting_digit_exponentText (e : Option Exponent) :
    NotStarting Char.isDigit (exponentText e) := by
  intro c hc
  rcases exponentText_head hc with rfl | rfl <;> rfl

theorem read_exponentText (e : Option Exponent) :
    Decimal.readExponent? (exponentText e) = some (e.elim 0 Exponent.value) := by
  cases e with
  | none => rfl
  | some e => exact e.read_text

theorem notStarting_digit_pointed (m : Mantissa) (e : Option Exponent) :
    NotStarting Char.isDigit (pointed m.fraction? ++ exponentText e) := by
  cases m.fraction? with
  | none => exact notStarting_digit_exponentText e
  | some fraction => exact notStarting_cons.mpr rfl

/-- A numeral reads as the decimal it denotes. -/
theorem read_text (n : Numeral) : Decimal.read? n.text = some n.decimal := by
  obtain ⟨m, e⟩ := n
  have hwhole := takeWhile_run m.isDigit_whole (notStarting_digit_pointed m e)
  have hrest := dropWhile_run m.isDigit_whole (notStarting_digit_pointed m e)
  have hfraction := takeWhile_run m.isDigit_fraction (notStarting_digit_exponentText e)
  have hexponent := dropWhile_run m.isDigit_fraction (notStarting_digit_exponentText e)
  have hne := m.digits_ne_nil
  unfold Decimal.read?
  simp only [text, m.text_eq, List.append_assoc, hwhole, hrest]
  cases hf : m.fraction? with
  | none =>
    rw [hf] at hne
    simp only [Option.getD_none] at hne
    simp only [pointed, List.nil_append]
    have hread := read_exponentText e
    cases e with
    | none => simp_all [exponentText, decimal]
    | some e =>
      rcases e.mark_eq with hmark | hmark <;>
        simp_all [exponentText, Exponent.text, decimal]
  | some fraction =>
    rw [hf] at hfraction hexponent hne
    simp only [Option.getD_some] at hfraction hexponent hne
    simp only [pointed, List.cons_append, hfraction, hexponent, hne, ↓reduceIte,
      read_exponentText, Option.map_some, decimal, hf, Option.getD_some]

/-- A text that reads as a decimal is the text of a numeral that denotes it. -/
theorem exists_of_read {cs : List Char} {d : Decimal} (h : Decimal.read? cs = some d) :
    ∃ n : Numeral, n.text = cs ∧ n.decimal = d := by
  have hsplit := List.takeWhile_append_dropWhile (p := Char.isDigit) (l := cs)
  have hwhole : ∀ c ∈ cs.takeWhile Char.isDigit, c.isDigit = true := fun _ => of_mem_takeWhile
  unfold Decimal.read? at h
  generalize cs.takeWhile Char.isDigit = whole at h hsplit hwhole
  generalize cs.dropWhile Char.isDigit = rest at h hsplit
  subst hsplit
  dsimp only at h
  split at h
  · rename_i tail
    dsimp only at h
    split at h
    · cases h
    · rename_i hne
      obtain ⟨exponent, hexponent, rfl⟩ := Option.map_eq_some_iff.mp h
      obtain ⟨e, htext, rfl⟩ := Exponent.exists_of_read hexponent
      obtain ⟨m, hm, hf⟩ := Mantissa.exists_of_parts (some _) hwhole
        (fun _ => of_mem_takeWhile) hne
      refine ⟨⟨m, e⟩, ?_, by simp [decimal, hm, hf]⟩
      rw [text, m.text_eq, hm, hf, htext, pointed, List.append_assoc, List.cons_append,
        List.takeWhile_append_dropWhile]
  · dsimp only at h
    split at h
    · cases h
    · rename_i hne
      obtain ⟨exponent, hexponent, rfl⟩ := Option.map_eq_some_iff.mp h
      obtain ⟨e, htext, rfl⟩ := Exponent.exists_of_read hexponent
      obtain ⟨m, hm, hf⟩ := Mantissa.exists_of_parts none hwhole (by simp) hne
      refine ⟨⟨m, e⟩, ?_, by simp [decimal, hm, hf]⟩
      rw [text, m.text_eq, hm, hf, htext, pointed, List.append_nil]

/-- A numeral starts with a digit or with its point. -/
theorem head_text (n : Numeral) : ∃ c cs, n.text = c :: cs ∧ Cut.startsNumeral c = true := by
  obtain ⟨⟨digits, fraction⟩ | digits, e⟩ := n
  · have hmantissa := (Mantissa.whole digits fraction).text_eq
    obtain ⟨chars, hne, hall⟩ := digits
    cases chars with
    | nil => exact absurd rfl hne
    | cons c cs =>
      refine ⟨c, _, by rw [text, hmantissa, Mantissa.wholeDigits]; rfl, ?_⟩
      simp [Cut.startsNumeral, hall c List.mem_cons_self]
  · exact ⟨'.', _, rfl, rfl⟩

theorem notStarting_sign (n : Numeral) : NotStarting Cut.isSign n.text := by
  obtain ⟨c, cs, htext, hstart⟩ := n.head_text
  rw [htext, notStarting_cons]
  cases hsign : Cut.isSign c with
  | false => rfl
  | true =>
    simp only [Cut.isSign, Bool.or_eq_true, beq_iff_eq] at hsign
    rcases hsign with rfl | rfl <;> cases hstart

theorem exponentText_inj {e e' : Option Exponent} (h : exponentText e = exponentText e') :
    e = e' := by
  cases e with
  | none =>
    cases e' with
    | none => rfl
    | some e' => cases h
  | some e =>
    cases e' with
    | none => cases h
    | some e' => rw [Exponent.text_inj h]

theorem pointed_append_inj {f f' : Option (List Char)} {e e' : Option Exponent}
    (hf : ∀ c ∈ f.getD [], c.isDigit = true) (hf' : ∀ c ∈ f'.getD [], c.isDigit = true)
    (h : pointed f ++ exponentText e = pointed f' ++ exponentText e') : f = f' ∧ e = e' := by
  have no_point : ∀ {e : Option Exponent} {cs : List Char}, exponentText e ≠ '.' :: cs := by
    intro e cs hcs
    have hhead : '.' ∈ (exponentText e).head? := by
      rw [hcs]
      rfl
    rcases exponentText_head hhead with h | h <;> cases h
  cases f with
  | none =>
    cases f' with
    | none => exact ⟨rfl, exponentText_inj h⟩
    | some f' => exact absurd h no_point
  | some f =>
    cases f' with
    | none => exact absurd h.symm no_point
    | some f' =>
      obtain ⟨rfl, he⟩ := run_inj hf hf' (notStarting_digit_exponentText e)
        (notStarting_digit_exponentText e') (List.cons.inj h).2
      exact ⟨rfl, exponentText_inj he⟩

/-- A numeral has one tree. -/
theorem text_inj {n n' : Numeral} (h : n.text = n'.text) : n = n' := by
  obtain ⟨m, e⟩ := n
  obtain ⟨m', e'⟩ := n'
  simp only [text, Mantissa.text_eq, List.append_assoc] at h
  obtain ⟨hwhole, htail⟩ := run_inj m.isDigit_whole m'.isDigit_whole
    (notStarting_digit_pointed m e) (notStarting_digit_pointed m' e') h
  obtain ⟨hfraction, rfl⟩ := pointed_append_inj m.isDigit_fraction m'.isDigit_fraction htail
  rw [Mantissa.ext_parts hwhole hfraction]

end Numeral

/-- An operand has one tree. -/
theorem Operand.text_inj {o o' : Operand} (h : o.text = o'.text) : o = o' := by
  obtain ⟨sign, n⟩ := o
  obtain ⟨sign', n'⟩ := o'
  obtain ⟨rfl, hn⟩ := Sign.text_append_inj n.notStarting_sign n'.notStarting_sign h
  rw [Numeral.text_inj hn]

end ArithScript.Grammar
