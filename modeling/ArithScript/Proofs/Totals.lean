import ArithScript.Proofs.PositionalTexts
import ArithScript.Proofs.Sums

/-!
# Totals and means of arrays

`#SUM` and `#AVG` read the elements of an array on their own, and an expression of these
elements is put together as a text and read by the lexer. Both add the same numbers in the same
order, one from 0 on and the other from the first element on, and a 0 in front changes no sum
of numbers without a sign (`Builtin.foldl_zero`). So the two agree for arrays of digits, overflow
included, and the mean is what the sum comes to when it is assigned and divided
(`evaluateStatement_totals`).
-/

namespace ArithScript

open Grammar

/-! ## Numbers without a sign -/

namespace Binary64

/-- A magnitude or infinity, with no minus sign. -/
inductive Unsigned : Binary64 → Prop
  | finite (m : Magnitude) : Unsigned (.finite false m)
  | infinite : Unsigned (.infinite false)

variable {x y : Binary64}

theorem unsigned_ofRatio (num den : Nat) : Unsigned (ofRatio false num den) := by
  unfold ofRatio ofUnits
  split
  · exact .finite _
  · exact .infinite

theorem add_finite (a b : Bool) (m n : Magnitude) :
    finite a m + finite b n =
      ofRatio (if signedUnits a m + signedUnits b n = 0 then a && b
        else decide (signedUnits a m + signedUnits b n < 0))
        (signedUnits a m + signedUnits b n).natAbs 1 := by
  change add (finite a m) (finite b n) = _
  rw [add]

/-- Sums of numbers without a sign are numbers without a sign. -/
theorem Unsigned.add (hx : Unsigned x) (hy : Unsigned y) : Unsigned (x + y) := by
  cases hx with
  | infinite => cases hy <;> exact .infinite
  | finite m =>
    cases hy with
    | infinite => exact .infinite
    | finite n =>
      have hle : ¬ signedUnits false m + signedUnits false n < 0 := by
        simp only [signedUnits, Bool.false_eq_true, ↓reduceIte]
        omega
      rw [add_finite, decide_eq_false hle, Bool.false_and, ite_self]
      exact unsigned_ofRatio _ _

theorem Unsigned.foldl_add {xs : List Binary64} (hx : Unsigned x) (hxs : ∀ y ∈ xs, Unsigned y) :
    Unsigned (xs.foldl (· + ·) x) :=
  List.foldlRecOn xs (· + ·) hx fun _ hsum y hy => hsum.add (hxs y hy)

/-- Neither zero changes a number without a sign. -/
theorem Unsigned.zero_add (hx : Unsigned x) (negative : Bool) : zero negative + x = x := by
  cases hx with
  | infinite => rfl
  | finite m =>
    have hzero : signedUnits negative .zero = 0 := by
      cases negative <;> rfl
    have hunits : signedUnits false m = m.units := rfl
    have hle : ¬ (m.units : Int) < 0 := by omega
    have hexact := ofRatio_units false m Nat.one_pos
    rw [Nat.mul_one] at hexact
    rw [zero, add_finite, hzero, hunits, Int.zero_add, Int.natAbs_natCast, decide_eq_false hle,
      Bool.and_false, ite_self, hexact]

/-- Of the numbers without a sign the infinite one has a text of its own. -/
theorem Unsigned.text_eq_iff (hx : Unsigned x) : x.text = "inf" ↔ x.isFinite = false := by
  cases hx with
  | infinite => exact ⟨fun _ => rfl, fun _ => rfl⟩
  | finite m =>
    constructor
    · intro h
      have hplain := Symbol.isPlainChar_text m 'i' (by rw [h]; decide)
      cases hplain
    · intro h
      cases h

end Binary64

theorem Grammar.Digits.unsigned_number (digits : Digits) : digits.number.Unsigned := by
  rw [Digits.number, Decimal.toBinary64_eq_ofRatio]
  exact Binary64.unsigned_ofRatio _ _

/-! ## Totals -/

namespace Builtin

/-- Added to either zero, numbers without a sign have the sum that they have from the first of
them on. -/
theorem foldl_zero {x : Binary64} (hx : x.Unsigned) (xs : List Binary64) (negative : Bool) :
    (x :: xs).foldl (· + ·) (.zero negative) = xs.foldl (· + ·) x := by
  rw [List.foldl_cons, hx.zero_add]

theorem numbers_digits (digits : List Digits) :
    numbers (digits.map Digits.string) = .ok (digits.map Digits.number) := by
  rw [numbers, mapM_eq_ok_iff, List.map_map, List.map_map]
  refine List.map_congr_left fun d _ => ?_
  have htrim := (Text.trimmed_of_forall d.isBlank_string).trim_eq
  simp only [Function.comp_apply, number, htrim, d.toList_string, d.read_chars]

theorem total_digits (first : Digits) (digits : List Digits) :
    total ((first :: digits).map Digits.number) = sumOfDigits first digits :=
  foldl_zero first.unsigned_number _ false

theorem sum_digits (first : Digits) (digits : List Digits) :
    sum ((first :: digits).map Digits.string) = .ok (sumOfDigits first digits).text := by
  rw [sum, numbers_digits, Except.map, total_digits]

theorem avg_digits (first : Digits) (digits : List Digits) :
    avg ((first :: digits).map Digits.string) =
      .ok (sumOfDigits first digits / .ofNat (digits.length + 1)).text := by
  rw [avg, someNumbers, numbers_digits, ← total_digits, List.map_cons]
  dsimp only
  rw [Except.map, List.length_cons, List.length_map]

/-- New sessions have the built-in functions. -/
theorem getElem?_withBuiltins {name : String} {routine : Routine}
    (h : (name, routine) ∈ all) : Store.withBuiltins.functions[name]? = some routine :=
  Std.ExtTreeMap.getElem?_ofList_of_mem Std.ReflCmp.compare_self (by decide) h

end Builtin

theorem unsigned_sumOfDigits (first : Digits) (digits : List Digits) :
    (sumOfDigits first digits).Unsigned := by
  refine first.unsigned_number.foldl_add fun x hx => ?_
  obtain ⟨d, -, rfl⟩ := List.mem_map.mp hx
  exact d.unsigned_number

/-! ## Calls -/

section Calls

variable {store : Store} {name letters : Letters}

theorem Line.parse_call (name : Letters) (argument : Argument) :
    parse (name.named '#' ++ "( " ++ argument.name ++ " )") =
      .ok ⟨.call (name.named '#') argument.name, false⟩ := by
  have hshape : (Shape.call name argument).text =
      (name.named '#' ++ "( " ++ argument.name ++ " )").toList := by
    simp [Shape.text, Shape.bracketed, Letters.toList_named]
  rw [parse_eq_ok_iff, Shape.trim_eq hshape]
  exact ⟨rfl, .call hshape⟩

/-- A function gets the elements of an array, one by one. -/
theorem evaluateStatement_call {routine : Routine} {values : List String} {result : String}
    (hroutine : store.functions[name.named '#']? = some routine)
    (hentry : store.entries[letters.named '@']? = some (.array values))
    (hresult : routine values = .ok result) :
    (evaluateStatement reduce store (name.named '#' ++ "( " ++ letters.named '@' ++ " )")).1 =
      .ok (.text result) := by
  have hparse : Line.parse (name.named '#' ++ "( " ++ letters.named '@' ++ " )") =
      .ok ⟨.call (name.named '#') (letters.named '@'), false⟩ :=
    Line.parse_call name ⟨'@', .inr rfl, letters⟩
  have hfunction : store.hasFunction (name.named '#') = true := by
    rw [Store.hasFunction, Std.ExtTreeMap.contains_eq_isSome_getElem?, hroutine]
    rfl
  have harguments : store.arguments (letters.named '@') = .ok values := by
    rw [Store.arguments_named]
    exact (Store.arrayValues_iff (Name.shape?_of_hasShape (.array letters))).mpr hentry
  have hcall : store.call (name.named '#') values = .ok result := by
    rw [Store.call, if_pos (Name.shape?_of_hasShape (.function name)), hroutine]
    dsimp only
    rw [hresult]
  rw [evaluateStatement_of_parsed hparse, Line.evaluate_result]
  dsimp only
  rw [if_pos hfunction, harguments, Except.bind, hcall]
  rfl

end Calls

/-! ## Quotients -/

namespace Binary64

theorem div_finite (a b : Bool) (m : Magnitude) {k : Magnitude} (hk : k.units ≠ 0) :
    finite a m / finite b k = ofRatio (a ^^ b) (m.units * unitsPerOne) k.units := by
  change div (finite a m) (finite b k) = _
  rw [div, if_neg hk]

/-- Numbers of elements are finite, and not less than 1. -/
theorem exists_ofNat {n : Nat} (hn : n ≠ 0) (hsize : n < UInt64.size) :
    ∃ k : Magnitude, ofNat n = finite false k ∧ unitsPerOne ≤ k.units := by
  have hle : n ≤ 2 ^ 64 := Nat.le_of_lt hsize
  obtain ⟨size, hunits⟩ := @Magnitude.exists_integer 1 64 (by decide) (by decide)
  obtain ⟨one, hone⟩ := Magnitude.exists_small_integer (show 1 < 2 ^ 53 by decide)
  have habove : n * unitsPerOne ≤ size.units * 1 := by
    rw [hunits, Nat.mul_one, Nat.one_mul]
    exact Nat.mul_le_mul_right unitsPerOne hle
  have hbelow : one.units * 1 ≤ n * unitsPerOne := by
    rw [hone, Nat.mul_one]
    exact Nat.mul_le_mul_right _ (Nat.pos_of_ne_zero hn)
  obtain ⟨k, hk, hround, -⟩ := exists_ofRatio false size Nat.one_pos habove
  have hle := one.le_roundUnits Nat.one_pos hbelow
  rw [← hround, hone, Nat.one_mul] at hle
  exact ⟨k, hk, hle⟩

/-- A quotient by a number that is not less than 1 is no greater than the dividend. -/
theorem isFinite_div (a b : Bool) (m : Magnitude) {k : Magnitude} (hk : unitsPerOne ≤ k.units) :
    (finite a m / finite b k).isFinite = true := by
  have hpos : 0 < k.units := Nat.lt_of_lt_of_le unitsPerOne_pos hk
  obtain ⟨m', hm', -⟩ := exists_ofRatio (a ^^ b) m hpos (Nat.mul_le_mul_left m.units hk)
  rw [div_finite a b m (Nat.ne_of_gt hpos), hm']
  rfl

end Binary64

theorem Grammar.Digits.number_ofNat (n : Nat) : (Digits.ofNat n).number = .ofNat n := by
  rw [Digits.number, Digits.ofDigits_ofNat, Decimal.toBinary64_eq_ofRatio, Binary64.ofNat]
  simp [Decimal.numerator, Decimal.denominator]

theorem Grammar.Digits.string_ofNat (n : Nat) : (Digits.ofNat n).string = toString n :=
  (Nat.repr_eq_ofList_toDigits (n := n)).symm

/-- Digits are a literal if their number is finite. -/
theorem Line.written_digits {digits : Digits} (hfinite : digits.number.isFinite = true) :
    Written digits.string [.number digits.number] := by
  refine .single digits.isBlank_string ?_
  rw [Symbol.classify_eq_number_iff, (Text.trimmed_of_forall digits.isBlank_string).trim_eq,
    digits.toList_string, ← digits.operand_text]
  exact Symbol.literal?_plain digits.operand_value hfinite

/-- A name that has the text of a number, divided by digits. -/
theorem evaluateStatement_quotient {store : Store} {name : Letters} {v : Binary64}
    {divisor : Digits} (hentry : store.entries[name.named '$']? = some (.scalar v.text))
    (hv : v.isFinite = true) (hdivisor : divisor.number.isFinite = true)
    (hzero : divisor.number.isZero = false)
    (hquotient : (unsignedZero v / divisor.number).isFinite = true) :
    (evaluateStatement reduce store (name.named '$' ++ " / " ++ divisor.string)).1 =
      .ok (.number (unsignedZero v / divisor.number)) := by
  let r : Reference := ⟨name.named '$', none⟩
  let line : Line := ⟨.plain [.scalar r, .operator "/", .number divisor.number], false⟩
  let e : Expression Symbol := ⟨⟨.scalar r, [(.div, .number divisor.number)]⟩, []⟩
  let value : Symbol → Binary64 := fun | .scalar _ => unsignedZero v | _ => divisor.number
  have hparse : Line.parse (name.named '$' ++ " / " ++ divisor.string) = .ok line := by
    have hslash : Line.Written "/" [.operator "/"] := .operator .div rfl
    have hwritten := ((Line.written_name name).append hslash).append
      (Line.written_digits hdivisor)
    have htext : name.named '$' ++ " " ++ "/" ++ " " ++ divisor.string =
        name.named '$' ++ " / " ++ divisor.string := by
      rw [← String.toList_inj]
      simp
    rw [htext] at hwritten
    exact hwritten.parse
  have htext : line.textOf store r = some v.text := by
    have hvalue := (Store.value_scalar_iff (Name.shape?_of_hasShape (.scalar name))).mpr hentry
    rw [Line.textOf, if_neg Bool.false_ne_true, hvalue]
    rfl
  have hdenotes : ∀ s ∈ e.operands, line.Denotes store s (value s) := by
    have hoperands : e.operands = [.scalar r, .number divisor.number] := rfl
    rw [hoperands, List.forall_mem_cons, List.forall_mem_singleton]
    exact ⟨.of_text hv rfl htext, .number _⟩
  have hspells : line.Spells e := rfl
  have houtcome : e.outcome value (line.expressionText store) =
      .ok (unsignedZero v / divisor.number) := by
    refine outcome_eq_ok.mpr ⟨?_, hquotient, rfl⟩
    simp [e, value, Expression.dividesByZero, Term.dividesByZero, hzero]
  rw [(hspells.evaluateStatement hparse hdenotes).2 _ rfl, houtcome]
  rfl

/-! ## Totals and means -/

/-- Non-empty texts of ASCII digits are digits. -/
theorem exists_digits {values : List String}
    (h : ∀ value ∈ values, value ≠ "" ∧ ∀ c ∈ value.toList, c.isDigit = true) :
    ∃ digits : List Digits, digits.map Digits.string = values := by
  induction values with
  | nil => exact ⟨[], rfl⟩
  | cons value values ih =>
    obtain ⟨⟨hne, hdigits⟩, hrest⟩ := List.forall_mem_cons.mp h
    obtain ⟨digits, rfl⟩ := ih hrest
    exact ⟨⟨value.toList, by simpa using hne, hdigits⟩ :: digits,
      congrArg (· :: digits.map Digits.string) String.ofList_toList⟩

/-- The names of the elements, in their order. -/
def Letters.elements (letters : Letters) (count : Nat) : List String :=
  (List.range count).map fun i => letters.element (.ofNat i)

theorem readsDigits_elements {store : Store} {letters : Letters} {digits : List Digits}
    (hentry : store.entries[letters.named '@']? = some (.array (digits.map Digits.string))) :
    List.Forall₂ store.ReadsDigits (letters.elements digits.length) digits := by
  rw [List.forall₂_iff_get]
  refine ⟨by simp [Letters.elements], fun i _ hi => ?_⟩
  have hlength : i < (digits.map Digits.string).length := by rwa [List.length_map]
  have hvalue := Store.value_element_ofNat hentry hlength
  rw [List.getElem_map] at hvalue
  have hname : (letters.elements digits.length).get ⟨i, by simpa [Letters.elements]⟩ =
      letters.element (.ofNat i) := by
    simp [Letters.elements]
  rw [hname]
  exact ⟨⟨letters, .ofNat i, rfl⟩, hvalue⟩

section Elements

variable {store : Store} {name : String} {names : List String} {first : Digits}
  {digits : List Digits} (h : store.ReadsDigits name first)
  (hrest : List.Forall₂ store.ReadsDigits names digits)

include h hrest in
/-- A sum that is assigned and then divided by a number of elements has the quotient that the
sum itself has, for its text is read back as the sum. -/
theorem evaluateStatement_mean (hfinite : (sumOfDigits first digits).isFinite = true)
    {target : Letters} (hfree : target.named '$' ∉ store.entries) {n : Nat} (hn : n ≠ 0)
    (hsize : n < UInt64.size) : ∃ store',
      evaluateStatement reduce store
          (target.named '$' ++ "=( " ++ " + ".intercalate (name :: names) ++ " )") =
        (.ok (.number (sumOfDigits first digits)), store') ∧
      (evaluateStatement reduce store' (target.named '$' ++ " / " ++ toString n)).1 =
        .ok (.number (sumOfDigits first digits / .ofNat n)) := by
  refine ⟨_, evaluateStatement_assigned_sum h hrest hfinite hfree, ?_⟩
  have hunsigned := unsigned_sumOfDigits first digits
  generalize sumOfDigits first digits = v at hfinite hunsigned
  cases hunsigned with
  | infinite => cases hfinite
  | finite m =>
    obtain ⟨k, hk, hone⟩ := Binary64.exists_ofNat hn hsize
    have hnumber : (Digits.ofNat n).number = .finite false k := by
      rw [Digits.number_ofNat, hk]
    have hdivisor : (Digits.ofNat n).number.isFinite = true := by
      rw [hnumber]
      rfl
    have hzero : (Digits.ofNat n).number.isZero = false := by
      rw [hnumber, Binary64.isZero, beq_eq_false_iff_ne]
      exact Nat.ne_of_gt (Nat.lt_of_lt_of_le unitsPerOne_pos hone)
    have hquotient : (unsignedZero (.finite false m) / (Digits.ofNat n).number).isFinite = true := by
      rw [unsignedZero_unsigned, hnumber]
      exact Binary64.isFinite_div false false m hone
    let stored : Store := { store with
      entries := store.entries.insert (target.named '$') (.scalar (Binary64.finite false m).text) }
    have hstored : stored.entries[target.named '$']? =
        some (.scalar (Binary64.finite false m).text) :=
      Std.ExtTreeMap.getElem?_insert_self
    have hresult := evaluateStatement_quotient hstored hfinite hdivisor hzero hquotient
    rw [Digits.string_ofNat, unsignedZero_unsigned, Digits.number_ofNat] at hresult
    exact hresult

end Elements

/-- **Totals and means**: the elements of an array of digits, written out with plus signs
between them, come to a number exactly if their total is not infinite, and the total is the text
of this number; otherwise they are malformed. The mean, of no more elements than a machine word
counts, is the text of what the sum comes to when it is assigned to a free name and this name is
divided by the number of elements. -/
theorem evaluateStatement_totals {store : Store} {letters : Letters} {values : List String}
    (hbuiltins : ∀ name routine, (name, routine) ∈ Builtin.all →
      store.functions[name]? = some routine)
    (hentry : store.entries[letters.named '@']? = some (.array values)) (hne : values ≠ [])
    (hdigits : ∀ value ∈ values, value ≠ "" ∧ ∀ c ∈ value.toList, c.isDigit = true) :
    let written := " + ".intercalate (letters.elements values.length)
    let plain := (evaluateStatement reduce store written).1
    let call (name : String) :=
      (evaluateStatement reduce store (name ++ "( " ++ letters.named '@' ++ " )")).1
    ∃ total, call "#SUM" = .ok (.text total) ∧
      ((∃ v, plain = .ok (.number v)) ↔ total ≠ "inf") ∧
      (∀ v, plain = .ok (.number v) → total = v.text) ∧
      ((∃ error, plain = .error error) ↔ total = "inf") ∧
      (∀ error, plain = .error error → ∃ text, error = .malformedExpression text .notFinite) ∧
      (values.length < UInt64.size → ∀ v, plain = .ok (.number v) →
        ∀ target : Letters, target.named '$' ∉ store.entries → ∃ store' w,
          evaluateStatement reduce store (target.named '$' ++ "=( " ++ written ++ " )") =
            (.ok (.number v), store') ∧
          (evaluateStatement reduce store'
            (target.named '$' ++ " / " ++ toString values.length)).1 = .ok (.number w) ∧
          call "#AVG" = .ok (.text w.text)) := by
  obtain ⟨digits, rfl⟩ := exists_digits hdigits
  rw [List.length_map]
  intro written plain call
  cases digits with
  | nil => exact absurd rfl hne
  | cons first digits =>
    have hreads := readsDigits_elements hentry
    obtain ⟨name, names, hnames⟩ : ∃ name names,
        letters.elements (first :: digits).length = name :: names :=
      ⟨_, _, by rw [Letters.elements, List.length_cons, List.range_succ_eq_map, List.map_cons]⟩
    rw [hnames] at hreads
    obtain ⟨hfirst, hrest⟩ := List.forall₂_cons.mp hreads
    have hcall (letters' : Letters) {routine : Routine} {result : String}
        (hroutine : (letters'.named '#', routine) ∈ Builtin.all)
        (hresult : routine ((first :: digits).map Digits.string) = .ok result) :
        call (letters'.named '#') = .ok (.text result) :=
      evaluateStatement_call (hbuiltins _ _ hroutine) hentry hresult
    have hsum : call "#SUM" = .ok (.text (sumOfDigits first digits).text) :=
      hcall ⟨['S', 'U', 'M'], by decide, List.all_eq_true.mp (by decide)⟩
        (by simp [Builtin.all, Letters.named]) (Builtin.sum_digits first digits)
    have havg : call "#AVG" =
        .ok (.text (sumOfDigits first digits / .ofNat (digits.length + 1)).text) :=
      hcall ⟨['A', 'V', 'G'], by decide, List.all_eq_true.mp (by decide)⟩
        (by simp [Builtin.all, Letters.named]) (Builtin.avg_digits first digits)
    have hinf := (unsigned_sumOfDigits first digits).text_eq_iff
    obtain ⟨text, hplain⟩ := evaluateStatement_sum hfirst hrest
    rw [← hnames] at hplain
    change plain = _ at hplain
    refine ⟨_, hsum, ?_⟩
    -- The sum has the text of infinity exactly where the expression is refused.
    cases hfinite : (sumOfDigits first digits).isFinite with
    | false =>
      rw [hfinite, if_neg Bool.false_ne_true] at hplain
      have htext := hinf.mpr hfinite
      simp [hplain, htext]
    | true =>
      rw [hfinite, if_pos rfl] at hplain
      have htext : (sumOfDigits first digits).text ≠ "inf" := by simp [hinf, hfinite]
      simp only [hplain]
      refine ⟨by simp [htext], by simp, by simp [htext], by simp, ?_⟩
      rintro hsize v hv target hfree
      obtain rfl : sumOfDigits first digits = v := by simpa using hv
      obtain ⟨store', hassigned, hmean⟩ :=
        evaluateStatement_mean hfirst hrest hfinite hfree (Nat.succ_ne_zero _) hsize
      rw [← hnames] at hassigned
      exact ⟨store', _, hassigned, hmean, havg⟩

/-- The total and the mean of an array of two numbers. -/
theorem evaluateStatement_totals_pair :
    let store := (evaluateStatement reduce .withBuiltins "@N=[ 1,2 ]").2
    (evaluateStatement reduce store "N[0] + N[1]").1 = .ok (.number (.ofNat 3)) ∧
      (evaluateStatement reduce store "#SUM( @N )").1 = .ok (.text "3") ∧
      ∃ store' w, evaluateStatement reduce store "$S=( N[0] + N[1] )" =
          (.ok (.number (.ofNat 3)), store') ∧
        (evaluateStatement reduce store' "$S / 2").1 = .ok (.number w) ∧
        (evaluateStatement reduce store "#AVG( @N )").1 = .ok (.text w.text) := by
  intro store
  let array : Letters := ⟨['N'], by decide, List.forall_mem_singleton.mpr rfl⟩
  let target : Letters := ⟨['S'], by decide, List.forall_mem_singleton.mpr rfl⟩
  have hfunctions : store.functions = Store.withBuiltins.functions :=
    (evaluateStatement_extends reduce .withBuiltins _).functions
  have hbuiltins : ∀ name routine, (name, routine) ∈ Builtin.all →
      store.functions[name]? = some routine := by
    intro name routine h
    rw [hfunctions, Builtin.getElem?_withBuiltins h]
  have hentry : store.entries[array.named '@']? = some (.array ["1", "2"]) := by decide +kernel
  have hfree : target.named '$' ∉ store.entries := by decide +kernel
  have hdigits : ∀ value ∈ ["1", "2"], value ≠ "" ∧ ∀ c ∈ value.toList, c.isDigit = true :=
    List.forall_mem_cons.mpr ⟨⟨by decide, List.forall_mem_singleton.mpr rfl⟩,
      List.forall_mem_singleton.mpr ⟨by decide, List.forall_mem_singleton.mpr rfl⟩⟩
  have hplain : (evaluateStatement reduce store "N[0] + N[1]").1 = .ok (.number (.ofNat 3)) := by
    decide +kernel
  have hthree : (Binary64.ofNat 3).text = "3" := by decide +kernel
  have hwritten : " + ".intercalate (array.elements ["1", "2"].length) = "N[0] + N[1]" := by
    decide +kernel
  have hassigned : target.named '$' ++ "=( " ++ "N[0] + N[1]" ++ " )" = "$S=( N[0] + N[1] )" := by
    decide +kernel
  have hdivided : target.named '$' ++ " / " ++ toString ["1", "2"].length = "$S / 2" := by
    decide +kernel
  have hsumcall : "#SUM" ++ "( " ++ array.named '@' ++ " )" = "#SUM( @N )" := by decide +kernel
  have havgcall : "#AVG" ++ "( " ++ array.named '@' ++ " )" = "#AVG( @N )" := by decide +kernel
  obtain ⟨total, hsum, -, htext, -, -, hmean⟩ :=
    evaluateStatement_totals hbuiltins hentry (by decide) hdigits
  dsimp only at hsum htext hmean
  rw [hwritten] at htext hmean
  rw [hsumcall, htext _ hplain, hthree] at hsum
  obtain ⟨store', w, hstored, hmean, havg⟩ := hmean (by decide) _ hplain target hfree
  rw [hassigned] at hstored
  rw [hdivided] at hmean
  rw [havgcall] at havg
  exact ⟨hplain, hsum, store', w, hstored, hmean, havg⟩

end ArithScript
