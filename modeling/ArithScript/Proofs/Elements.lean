import Mathlib.Data.List.OfFn
import ArithScript.Proofs.Computations
import ArithScript.Proofs.Effects
import ArithScript.Proofs.NumberText

/-!
# Reading the elements of an array

`NAME[i]` is the element of the array `@NAME` at the number that the digits of `i` write,
however many they are (`element_reads`). The digits may as well be read into a machine word
(`wordPosition?`): a number that overflows it is beyond the end of every array.
-/

namespace ArithScript

open Grammar

/-! ## Positions of numbers -/

theorem Text.isDecimalDigit_of_isDigit {c : Char} (h : c.isDigit = true) :
    Text.isDecimalDigit c = true := by
  simp only [Char.isDigit, Bool.and_eq_true, decide_eq_true_eq] at h
  have hlow : 48 ≤ c.toNat := h.1
  have hhigh : c.toNat ≤ 57 := h.2
  unfold isDecimalDigit
  rw [List.any_eq_true]
  refine ⟨0x0030, List.mem_cons_self, ?_⟩
  rw [Bool.and_eq_true, decide_eq_true_eq, decide_eq_true_eq]
  omega

/-- Digits that write a number are a position. -/
def Positions.ofDigits (digits : Digits) : Positions :=
  ⟨digits.chars, digits.nonempty, fun c hc => Text.isDecimalDigit_of_isDigit (digits.isDigit c hc)⟩

/-- The position that a number writes. -/
def Positions.ofNat (n : Nat) : Positions := .ofDigits (.ofNat n)

namespace Store

/-! ## Positions in machine words -/

/-- A product that fits in a word. -/
def checkedMul? (a b : UInt64) : Option UInt64 :=
  if a.toNat * b.toNat < UInt64.size then some (a * b) else none

/-- A sum that fits in a word. -/
def checkedAdd? (a b : UInt64) : Option UInt64 :=
  if a.toNat + b.toNat < UInt64.size then some (a + b) else none

/-- The word with one more digit at its end. -/
def pushDigit? (word : UInt64) (c : Char) : Option UInt64 :=
  if c.isDigit then
    (checkedMul? 10 word).bind fun tens => checkedAdd? tens (.ofNat (c.toNat - '0'.toNat))
  else none

/-- The word that the digits of a position write, if they are ASCII digits and it fits. -/
def wordPosition? (digits : String) : Option UInt64 := digits.toList.foldlM pushDigit? 0

/-- The element at a position that is read into a word. -/
def wordElement? (values : List String) (digits : String) : Option String :=
  (wordPosition? digits).bind fun word => values[word.toNat]?

/-- The word of a number, if it fits. -/
def toWord? (n : Nat) : Option UInt64 := if n < UInt64.size then some (.ofNat n) else none

theorem checkedMul?_eq (a b : UInt64) : checkedMul? a b = toWord? (a.toNat * b.toNat) := by
  rw [checkedMul?, toWord?, UInt64.ofNat_mul, UInt64.ofNat_toNat, UInt64.ofNat_toNat]

theorem checkedAdd?_eq (a b : UInt64) : checkedAdd? a b = toWord? (a.toNat + b.toNat) := by
  rw [checkedAdd?, toWord?, UInt64.ofNat_add, UInt64.ofNat_toNat, UInt64.ofNat_toNat]

theorem toNat_ofNat_of_fits {n : Nat} (h : n < UInt64.size) : (UInt64.ofNat n).toNat = n := by
  rw [UInt64.toNat_ofNat']
  exact Nat.mod_eq_of_lt h

/-- A digit more overflows exactly when the number does not fit. -/
theorem pushDigit?_eq (word : UInt64) {c : Char} (hc : c.isDigit = true) :
    pushDigit? word c = toWord? (10 * word.toNat + (c.toNat - '0'.toNat)) := by
  have hdigit : c.toNat - '0'.toNat < 10 := by
    simp only [Char.isDigit, Bool.and_eq_true, decide_eq_true_eq] at hc
    have hhigh : c.toNat ≤ 57 := hc.2
    have hzero : '0'.toNat = 48 := rfl
    omega
  have hfits : c.toNat - '0'.toNat < UInt64.size := Nat.lt_trans hdigit (by decide)
  have hten : (10 : UInt64).toNat = 10 := rfl
  rw [pushDigit?, if_pos hc, checkedMul?_eq, hten]
  by_cases htens : 10 * word.toNat < UInt64.size
  · rw [toWord?, if_pos htens, Option.bind_some, checkedAdd?_eq, toNat_ofNat_of_fits htens,
      toNat_ofNat_of_fits hfits]
  · rw [toWord?, if_neg htens, Option.bind_none, toWord?, if_neg (by omega)]

theorem le_ofDigitChars (digits : List Char) (n : Nat) : n ≤ Nat.ofDigitChars 10 digits n := by
  induction digits generalizing n with
  | nil => exact Nat.le_refl n
  | cons c digits ih =>
    rw [Nat.ofDigitChars_cons]
    exact Nat.le_trans (by omega) (ih _)

/-- From a word on, the digits overflow exactly when the number does not fit. -/
theorem foldlM_pushDigit? (digits : List Char) (word : UInt64) :
    digits.foldlM pushDigit? word =
      if digits.all Char.isDigit then toWord? (Nat.ofDigitChars 10 digits word.toNat) else none := by
  induction digits generalizing word with
  | nil => simp [toWord?, word.toNat_lt_size]
  | cons c digits ih =>
    rw [List.foldlM_cons, List.all_cons, Nat.ofDigitChars_cons]
    cases hc : c.isDigit with
    | false =>
      rw [pushDigit?, if_neg (by rw [hc]; decide)]
      rfl
    | true =>
      rw [pushDigit?_eq word hc, Bool.true_and]
      generalize 10 * word.toNat + (c.toNat - '0'.toNat) = next
      by_cases hfits : next < UInt64.size
      · rw [toWord?, if_pos hfits]
        exact (ih _).trans (by rw [toNat_ofNat_of_fits hfits])
      · have hover : toWord? (Nat.ofDigitChars 10 digits next) = none :=
          if_neg (fun h => hfits (Nat.lt_of_le_of_lt (le_ofDigitChars digits next) h))
        rw [toWord?, if_neg hfits, hover, ite_self]
        rfl

theorem wordPosition?_eq (digits : String) :
    wordPosition? digits = (position? digits).bind toWord? := by
  rw [wordPosition?, foldlM_pushDigit?, position?]
  split <;> rfl

/-- Below the greatest word no array is too long for positions in words. -/
theorem wordElement?_eq {values : List String} (h : values.length < UInt64.size) (digits : String) :
    wordElement? values digits = (position? digits).bind fun i => values[i]? := by
  rw [wordElement?, wordPosition?_eq, Option.bind_assoc]
  congr 1
  funext i
  unfold toWord?
  split
  · next hfits => rw [Option.bind_some, toNat_ofNat_of_fits hfits]
  · next hfits => rw [Option.bind_none, List.getElem?_eq_none (by omega)]

/-! ## Elements -/

section Elements

variable {store : Store} {letters : Letters} {values : List String}

theorem value_element (letters : Letters) (position : Positions)
    (h : store.entries[letters.named '@']? = some (.array values)) :
    store.value (letters.element position) =
      ((position? (String.ofList position.chars)).bind fun i => values[i]?).elim
        (.error (.indexOutOfRange (letters.named '@') (String.ofList position.chars) values.length))
        .ok := by
  have hvalues := (arrayValues_iff (Name.shape?_of_hasShape (.array letters))).mpr h
  rw [value, Name.shape?_of_hasShape (.element letters position)]
  dsimp only
  rw [hvalues]
  dsimp only
  split
  · next v hv => rw [hv, Option.elim_some]
  · next hv => rw [hv, Option.elim_none]

/-- Digits that are not ASCII digits write no position. -/
theorem position?_of_not_isDigit {cs : List Char} (h : ¬ ∀ c ∈ cs, c.isDigit = true) :
    position? (String.ofList cs) = none := by
  rw [position?, String.toList_ofList, if_neg (by rwa [List.all_eq_true])]

theorem position?_of_isDigit {cs : List Char} (h : ∀ c ∈ cs, c.isDigit = true) :
    position? (String.ofList cs) = some (Decimal.ofDigits cs) := by
  rw [position?, String.toList_ofList, if_pos (List.all_eq_true.mpr h), Decimal.ofDigits]

theorem value_element_ofNat (h : store.entries[letters.named '@']? = some (.array values))
    {i : Nat} (hi : i < values.length) :
    store.value (letters.element (.ofNat i)) = .ok values[i] := by
  have hposition : position? (String.ofList (Positions.ofNat i).chars) = some i := by
    have hdigits := position?_of_isDigit (Digits.ofNat i).isDigit
    rwa [Digits.ofDigits_ofNat] at hdigits
  rw [value_element letters _ h, hposition, Option.bind_some, List.getElem?_eq_getElem hi,
    Option.elim_some]

theorem value_element_of_not_mem (h : letters.named '@' ∉ store.entries) (position : Positions) :
    store.value (letters.element position) = .error (.notFound (letters.named '@')) := by
  have hvalues := arrayValues_of_not_mem (Name.shape?_of_hasShape (.array letters)) h
  rw [value, Name.shape?_of_hasShape (.element letters position)]
  dsimp only
  rw [hvalues]

theorem arguments_named (store : Store) (letters : Letters) :
    store.arguments (letters.named '@') = store.arrayValues (letters.named '@') := by
  rw [arguments, Letters.toList_named]
  exact if_pos rfl

/-- The elements one by one are the whole array. -/
theorem mapM_value_element (h : store.entries[letters.named '@']? = some (.array values)) :
    ((List.range values.length).mapM fun i => store.value (letters.element (.ofNat i))) =
      .ok values := by
  rw [mapM_eq_ok_iff]
  apply List.ext_getElem
  · simp
  · intro i hi _
    rw [List.length_map, List.length_range] at hi
    rw [List.getElem_map, List.getElem_map, List.getElem_range, value_element_ofNat h hi]

/-- **Reading elements**: digits of any length read the element at the number that they write
or find it beyond the end, as they do when the number is read into a machine word; digits that
are not ASCII digits find nothing; and the elements at 0, 1 and so on are the whole array. -/
theorem element_reads (store : Store) (letters : Letters) :
    (∀ values, store.entries[letters.named '@']? = some (.array values) →
      values.length < UInt64.size →
      (∀ position : Positions,
        let index := Decimal.ofDigits position.chars
        let read := store.value (letters.element position)
        let outOfRange : Except Error String := .error (.indexOutOfRange (letters.named '@')
          (String.ofList position.chars) values.length)
        ((∀ c ∈ position.chars, c.isDigit = true) →
          (∀ h : index < values.length, read = .ok values[index]) ∧
          (values.length ≤ index → read = outOfRange)) ∧
        ((∃ c ∈ position.chars, c.isDigit = false) → read = outOfRange) ∧
        read = (wordElement? values (String.ofList position.chars)).elim outOfRange .ok) ∧
      store.arguments (letters.named '@') = .ok values ∧
      store.arguments (letters.named '@') =
        (List.range values.length).mapM fun i => store.value (letters.element (.ofNat i))) ∧
    (letters.named '@' ∉ store.entries → ∀ position : Positions,
      store.value (letters.element position) = .error (.notFound (letters.named '@'))) := by
  refine ⟨fun values h hlength => ⟨fun position => ?_, ?_, ?_⟩, value_element_of_not_mem⟩
  · intro index read outOfRange
    have hread : read = _ := value_element letters position h
    refine ⟨fun hdigits => ?_, ?_, ?_⟩
    · rw [position?_of_isDigit hdigits, Option.bind_some] at hread
      refine ⟨fun hi => ?_, fun hi => ?_⟩
      · rw [hread, List.getElem?_eq_getElem hi, Option.elim_some]
      · rw [hread, List.getElem?_eq_none hi, Option.elim_none]
    · rintro ⟨c, hc, hdigit⟩
      rw [hread, position?_of_not_isDigit, Option.bind_none, Option.elim_none]
      intro hall
      rw [hall c hc] at hdigit
      cases hdigit
    · rw [hread, wordElement?_eq hlength]
  · rw [arguments_named]
    exact (arrayValues_iff (Name.shape?_of_hasShape (.array letters))).mpr h
  · rw [mapM_value_element h, arguments_named]
    exact (arrayValues_iff (Name.shape?_of_hasShape (.array letters))).mpr h

/-- A zero in front of a position changes nothing, and 2 ^ 64 + 1 is not the position 1. -/
theorem element_reads_overflow :
    let store : Store := ⟨(∅ : Std.ExtTreeMap String Entry).insert "@A" (.array ["7", "8"]), ∅⟩
    store.value "A[01]" = .ok "8" ∧
      store.value "A[18446744073709551617]" =
        .error (.indexOutOfRange "@A" "18446744073709551617" 2) ∧
      store.value "B[1]" = .error (.notFound "@B") := by
  intro store
  obtain ⟨letters, hname, helement⟩ : ∃ letters : Letters, letters.named '@' = "@A" ∧
      letters.chars = ['A'] :=
    ⟨⟨['A'], by decide, List.forall_mem_singleton.mpr rfl⟩, rfl, rfl⟩
  obtain ⟨others, hothers, hchars⟩ : ∃ letters : Letters, letters.named '@' = "@B" ∧
      letters.chars = ['B'] :=
    ⟨⟨['B'], by decide, List.forall_mem_singleton.mpr rfl⟩, rfl, rfl⟩
  have hentry : store.entries[letters.named '@']? = some (.array ["7", "8"]) := by
    rw [hname]
    exact Std.ExtTreeMap.getElem?_insert_self
  have hmissing : others.named '@' ∉ store.entries := by
    rw [hothers, Std.ExtTreeMap.mem_insert]
    simp
  have hreads := ((element_reads store letters).1 _ hentry (by decide)).1
  have habsent := (element_reads store others).2 hmissing (.ofNat 1)
  let digits : Digits := ⟨['0', '1'], by decide, List.all_eq_true.mp (by decide)⟩
  have hfirst := ((hreads (.ofDigits digits)).1 digits.isDigit).1 (by decide)
  have hsecond := ((hreads (.ofNat 18446744073709551617)).1
    (Digits.ofNat 18446744073709551617).isDigit).2 (by decide)
  rw [hname] at hsecond
  rw [hothers] at habsent
  simp only [Letters.element, helement] at hfirst hsecond
  simp only [Letters.element, hchars] at habsent
  exact ⟨hfirst, hsecond, habsent⟩

end Elements

end Store

end ArithScript
