import ArithScript.Builtin
import ArithScript.Proofs.Computations
import ArithScript.Proofs.PositionalTexts

/-!
# Least and greatest arguments

`#MIN` and `#MAX` fold the lesser or the greater of two numbers over their arguments, from an
infinity on that need not be an argument, and NaN yields to whatever it meets. Every other
number has a rank (`Binary64.rank`), by which the numbers are ordered, and two numbers of one
rank have one text. What the fold ends with is one of the arguments, of the least or of the
greatest rank (`Chooses.best_foldl`), so its text depends on which numbers the arguments write,
and neither on their order nor on any NaN among them (`Builtin.extremes`).
-/

namespace ArithScript

namespace Binary64

variable {x y : Binary64}

/-! ## The order of numbers -/

/-- Neither is NaN, and the second is not below the first. -/
instance : LE Binary64 := ⟨fun x y => x ≠ .nan ∧ y ≠ .nan ∧ y.lt x = false⟩

/-- The units of a number. An infinity has the first units beyond the format, and NaN is never
asked for its rank. -/
def rank : Binary64 → Int
  | .nan => 0
  | .infinite negative => if negative then -unitsBound else unitsBound
  | .finite negative m => signedUnits negative m

theorem signedUnits_bounded (negative : Bool) (m : Magnitude) :
    -(unitsBound : Int) < signedUnits negative m ∧ signedUnits negative m < unitsBound := by
  have hbounded := m.bounded
  cases negative <;> simp only [signedUnits, Bool.false_eq_true, ↓reduceIte] <;> omega

theorem lt_iff_rank_lt (hx : x ≠ .nan) (hy : y ≠ .nan) : x.lt y = true ↔ x.rank < y.rank := by
  have hpos := unitsBound_pos
  cases x with
  | nan => exact absurd rfl hx
  | infinite a =>
    cases y with
    | nan => exact absurd rfl hy
    | infinite b => cases a <;> cases b <;> grind [lt, rank]
    | finite b n =>
      have hbounded := signedUnits_bounded b n
      cases a with
      | false =>
        simp only [lt, rank, Bool.false_eq_true, ↓reduceIte, false_iff]
        omega
      | true =>
        simp only [lt, rank, ↓reduceIte, true_iff]
        omega
  | finite a m =>
    have hbounded := signedUnits_bounded a m
    cases y with
    | nan => exact absurd rfl hy
    | infinite b =>
      cases b with
      | false =>
        simp only [lt, rank, Bool.not_false, Bool.false_eq_true, ↓reduceIte, true_iff]
        omega
      | true =>
        simp only [lt, rank, Bool.not_true, Bool.false_eq_true, ↓reduceIte, false_iff]
        omega
    | finite b n => simp [lt, rank]

theorem le_iff_rank_le : x ≤ y ↔ x ≠ .nan ∧ y ≠ .nan ∧ x.rank ≤ y.rank := by
  refine and_congr_right fun hx => and_congr_right fun hy => ?_
  rw [← Bool.not_eq_true, lt_iff_rank_lt hy hx, Int.not_lt]

/-- Only the infinity itself is as great as it. -/
theorem eq_infinite_of_rank {negative : Bool} (hx : x ≠ .nan)
    (h : x.rank = rank (.infinite negative)) : x = .infinite negative := by
  have hpos := unitsBound_pos
  cases x with
  | nan => exact absurd rfl hx
  | infinite a =>
    cases a <;> cases negative <;> simp only [rank, Bool.false_eq_true, ↓reduceIte] at h ⊢ <;> omega
  | finite a m =>
    have hbounded := signedUnits_bounded a m
    cases negative <;> simp only [rank, Bool.false_eq_true, ↓reduceIte] at h <;> omega

theorem rank_bounded (hx : x ≠ .nan) :
    rank (.infinite true) ≤ x.rank ∧ x.rank ≤ rank (.infinite false) := by
  have hpos := unitsBound_pos
  cases x with
  | nan => exact absurd rfl hx
  | infinite a => cases a <;> simp only [rank, Bool.false_eq_true, ↓reduceIte] <;> omega
  | finite a m =>
    have hbounded := signedUnits_bounded a m
    simp only [rank, Bool.false_eq_true, ↓reduceIte]
    omega

/-- Two numbers of one rank are one number, or the two zeros. -/
theorem text_eq_of_rank (hx : x ≠ .nan) (hy : y ≠ .nan) (h : x.rank = y.rank) :
    x.text = y.text := by
  cases y with
  | nan => exact absurd rfl hy
  | infinite b => rw [eq_infinite_of_rank hx h]
  | finite b n =>
    cases x with
    | nan => exact absurd rfl hx
    | infinite a => rw [eq_infinite_of_rank hy h.symm]
    | finite a m =>
      have hunits : m.units = n.units ∧ (a = b ∨ m.units = 0) := by
        cases a <;> cases b <;>
          simp only [rank, signedUnits, Bool.false_eq_true, ↓reduceIte] at h <;> simp <;> omega
      obtain ⟨hmagnitude, rfl | hzero⟩ := hunits
      · rw [Magnitude.ext_units hmagnitude]
      · rw [text_of_zero hzero, text_of_zero (hmagnitude ▸ hzero)]

/-! ## Choices -/

/-- The operation chooses the number with the lesser key, and `start` has the greatest key, so
that any other number is chosen before it. -/
structure Chooses (key : Binary64 → Int) (start : Binary64)
    (op : Binary64 → Binary64 → Binary64) : Prop where
  nan_right : ∀ x, op x .nan = x
  chosen : ∀ {x y}, x ≠ .nan → y ≠ .nan →
    (op x y = x ∧ key x ≤ key y) ∨ (op x y = y ∧ key y ≤ key x)
  start_ne : start ≠ .nan
  key_le_start : ∀ {x}, x ≠ .nan → key x ≤ key start
  eq_start : ∀ {x}, x ≠ .nan → key x = key start → x = start
  rank_eq : ∀ {x y}, key x = key y → x.rank = y.rank

theorem chooses_min : Chooses rank (.infinite false) min where
  nan_right x := by cases x <;> rfl
  chosen {x y} hx hy := by
    have hmin : min x y = if y.lt x then y else x := by
      cases x <;> cases y <;> first | rfl | contradiction
    rw [hmin]
    split
    · next hlt => exact .inr ⟨rfl, Int.le_of_lt ((lt_iff_rank_lt hy hx).mp hlt)⟩
    · next hlt =>
      rw [lt_iff_rank_lt hy hx, Int.not_lt] at hlt
      exact .inl ⟨rfl, hlt⟩
  start_ne := nofun
  key_le_start hx := (rank_bounded hx).2
  eq_start := eq_infinite_of_rank
  rank_eq h := h

theorem chooses_max : Chooses (fun x => -x.rank) (.infinite true) max where
  nan_right x := by cases x <;> rfl
  chosen {x y} hx hy := by
    have hmax : max x y = if x.lt y then y else x := by
      cases x <;> cases y <;> first | rfl | contradiction
    rw [hmax]
    split
    · next hlt => exact .inr ⟨rfl, Int.neg_le_neg (Int.le_of_lt ((lt_iff_rank_lt hx hy).mp hlt))⟩
    · next hlt =>
      rw [lt_iff_rank_lt hx hy, Int.not_lt] at hlt
      exact .inl ⟨rfl, Int.neg_le_neg hlt⟩
  start_ne := nofun
  key_le_start hx := Int.neg_le_neg (rank_bounded hx).1
  eq_start hx h := eq_infinite_of_rank hx (Int.neg_inj.mp h)
  rank_eq := Int.neg_inj.mp

/-- Of the numbers of a list that are not NaN, one with the least key. -/
structure Best (key : Binary64 → Int) (xs : List Binary64) (m : Binary64) : Prop where
  mem : m ∈ xs
  ne_nan : m ≠ .nan
  key_le : ∀ x ∈ xs, x ≠ .nan → key m ≤ key x

namespace Chooses

variable {key : Binary64 → Int} {start : Binary64} {op : Binary64 → Binary64 → Binary64}
  (h : Chooses key start op)

include h

/-- A fold of choices ends with the best of its numbers and the one that it is started from. -/
theorem best_cons_foldl {x : Binary64} (hx : x ≠ .nan) (xs : List Binary64) :
    Best key (x :: xs) (xs.foldl op x) := by
  induction xs generalizing x with
  | nil =>
    refine ⟨List.mem_singleton_self x, hx, List.forall_mem_singleton.mpr fun _ => ?_⟩
    exact Int.le_refl _
  | cons y ys ih =>
    rw [List.foldl_cons]
    by_cases hy : y = .nan
    · subst hy
      rw [h.nan_right]
      obtain ⟨hmem, hne, hle⟩ := ih hx
      obtain ⟨hlex, hleys⟩ := List.forall_mem_cons.mp hle
      refine ⟨List.mem_cons.mpr ((List.mem_cons.mp hmem).imp_right (List.mem_cons_of_mem _)), hne,
        List.forall_mem_cons.mpr ⟨hlex, List.forall_mem_cons.mpr ⟨?_, hleys⟩⟩⟩
      exact fun hnan => absurd rfl hnan
    · -- Whichever of the two is chosen, its key is not greater than the other's.
      have hstep : ∃ z, op x y = z ∧ z ≠ .nan ∧ (z = x ∨ z = y) ∧ key z ≤ key x ∧
          key z ≤ key y := by
        rcases h.chosen hx hy with ⟨hchosen, hle⟩ | ⟨hchosen, hle⟩
        · exact ⟨x, hchosen, hx, .inl rfl, Int.le_refl _, hle⟩
        · exact ⟨y, hchosen, hy, .inr rfl, hle, Int.le_refl _⟩
      obtain ⟨z, hz, hnez, heither, hzx, hzy⟩ := hstep
      rw [hz]
      obtain ⟨hmem, hne, hle⟩ := ih hnez
      obtain ⟨hlez, hleys⟩ := List.forall_mem_cons.mp hle
      refine ⟨?_, hne, ?_⟩
      · rcases List.mem_cons.mp hmem with hmem | hmem
        · rw [hmem]
          rcases heither with rfl | rfl <;> simp
        · exact List.mem_cons_of_mem x (List.mem_cons_of_mem y hmem)
      · rw [List.forall_mem_cons, List.forall_mem_cons]
        exact ⟨fun _ => Int.le_trans (hlez hnez) hzx, fun _ => Int.le_trans (hlez hnez) hzy, hleys⟩

/-- From `start` on, a fold of choices ends with the best of its numbers, if there is any. -/
theorem best_foldl {xs : List Binary64} (hxs : ∃ x ∈ xs, x ≠ .nan) :
    Best key xs (xs.foldl op start) := by
  obtain ⟨hmem, hne, hle⟩ := h.best_cons_foldl h.start_ne xs
  obtain ⟨-, hle⟩ := List.forall_mem_cons.mp hle
  refine ⟨?_, hne, hle⟩
  rcases List.mem_cons.mp hmem with hstart | hmem
  · -- A number that is not below `start` is `start`.
    obtain ⟨x, hx, hnex⟩ := hxs
    have hkey : key x = key start := by
      have hbelow := hle x hx hnex
      rw [hstart] at hbelow
      exact Int.le_antisymm (h.key_le_start hnex) hbelow
    rw [hstart, ← h.eq_start hnex hkey]
    exact hx
  · exact hmem

/-- The best numbers of two lists with the same numbers have the same text. -/
theorem text_eq {xs ys : List Binary64} {m n : Binary64} (hm : Best key xs m) (hn : Best key ys n)
    (hsame : ∀ x, x ≠ .nan → (x ∈ xs ↔ x ∈ ys)) : m.text = n.text := by
  refine text_eq_of_rank hm.ne_nan hn.ne_nan (h.rank_eq (Int.le_antisymm ?_ ?_))
  · exact hm.key_le n ((hsame n hn.ne_nan).mpr hn.mem) hn.ne_nan
  · exact hn.key_le m ((hsame m hm.ne_nan).mp hm.mem) hm.ne_nan

end Chooses

end Binary64

/-! ## Arguments -/

namespace Builtin

open Binary64

/-- The number that an argument writes, blanks around it aside. -/
def Writes (argument : String) (x : Binary64) : Prop :=
  Binary64.read? (Text.trim argument).toList = some x

def writesNan (argument : String) : Bool :=
  Binary64.read? (Text.trim argument).toList = some .nan

/-- One of the arguments writes the number, and it is not NaN. -/
def WrittenIn (arguments : List String) (x : Binary64) : Prop :=
  x ≠ .nan ∧ ∃ argument ∈ arguments, Writes argument x

theorem number_eq_ok_iff {argument : String} {x : Binary64} :
    number argument = .ok x ↔ Writes argument x := by
  unfold number Writes
  cases Binary64.read? (Text.trim argument).toList <;> simp

theorem number_eq_error {argument message : String} (h : number argument = .error message) :
    (∀ x, ¬Writes argument x) ∧ message = "'" ++ argument ++ "' is not a number" := by
  unfold number at h
  unfold Writes
  cases hread : Binary64.read? (Text.trim argument).toList with
  | some x =>
    rw [hread] at h
    cases h
  | none =>
    rw [hread] at h
    cases h
    exact ⟨fun x => Option.some_ne_none x ∘ Eq.symm, rfl⟩

variable {arguments arguments' : List String}

/-- Arguments that all write a number are read as these numbers. -/
theorem exists_numbers (h : ∀ argument ∈ arguments, ∃ x, Writes argument x) :
    ∃ ns, numbers arguments = .ok ns ∧ ∀ x, x ∈ ns ↔ ∃ argument ∈ arguments, Writes argument x := by
  rw [numbers]
  cases hnumbers : arguments.mapM number with
  | error message =>
    obtain ⟨before, first, after, rfl, -, hfirst⟩ := mapM_eq_error_iff.mp hnumbers
    obtain ⟨x, hx⟩ := h first (by simp)
    exact absurd hx ((number_eq_error hfirst).1 x)
  | ok ns =>
    refine ⟨ns, rfl, fun x => ⟨fun hx => ?_, ?_⟩⟩
    · obtain ⟨argument, hargument, hread⟩ := exists_of_mem_mapM hnumbers hx
      exact ⟨argument, hargument, number_eq_ok_iff.mp hread⟩
    · rintro ⟨argument, hargument, hx⟩
      have hmem : Except.ok x ∈ arguments.map number :=
        List.mem_map.mpr ⟨argument, hargument, number_eq_ok_iff.mpr hx⟩
      rw [mapM_eq_ok_iff.mp hnumbers] at hmem
      simpa using hmem

/-- Of arguments that do not all write a number, the first that does not is named. -/
theorem exists_refused (h : ∃ argument ∈ arguments, ∀ x, ¬Writes argument x) :
    ∃ before first after, arguments = before ++ first :: after ∧
      (∀ argument ∈ before, ∃ x, Writes argument x) ∧ (∀ x, ¬Writes first x) ∧
      numbers arguments = .error ("'" ++ first ++ "' is not a number") := by
  rw [numbers]
  cases hnumbers : arguments.mapM number with
  | ok ns =>
    obtain ⟨argument, hargument, hnone⟩ := h
    have hmem := List.mem_map_of_mem (f := number) hargument
    rw [mapM_eq_ok_iff.mp hnumbers] at hmem
    obtain ⟨x, -, hx⟩ := List.mem_map.mp hmem
    exact absurd (number_eq_ok_iff.mp hx.symm) (hnone x)
  | error message =>
    obtain ⟨before, first, after, hsplit, hbefore, hfirst⟩ := mapM_eq_error_iff.mp hnumbers
    obtain ⟨hnone, rfl⟩ := number_eq_error hfirst
    refine ⟨before, first, after, hsplit, fun argument hargument => ?_, hnone, rfl⟩
    exact (hbefore argument hargument).imp fun x => number_eq_ok_iff.mp

/-! ## Choices among arguments -/

/-- What an operation that chooses leaves of the arguments, from a start on. -/
def choice (op : Binary64 → Binary64 → Binary64) (start : Binary64) : Routine := fun arguments =>
  (someNumbers arguments).map fun ns => (ns.foldl op start).text

theorem min_eq_choice : min = choice Binary64.min (.infinite false) := rfl

theorem max_eq_choice : max = choice Binary64.max (.infinite true) := rfl

section Choices

variable {key : Binary64 → Int} {start : Binary64} {op : Binary64 → Binary64 → Binary64}

theorem choice_of_numbers {ns : List Binary64} (h : numbers arguments = .ok ns) (hne : ns ≠ []) :
    choice op start arguments = .ok (ns.foldl op start).text := by
  unfold choice someNumbers
  rw [h]
  cases ns with
  | nil => exact absurd rfl hne
  | cons => rfl

theorem choice_of_error {message : String} (h : numbers arguments = .error message) :
    choice op start arguments = .error message := by
  unfold choice someNumbers
  rw [h]
  rfl

variable (h : Chooses key start op) (hread : ∀ argument ∈ arguments, ∃ x, Writes argument x)
  (hsome : ∃ x, WrittenIn arguments x)

include h hread hsome

theorem exists_best : ∃ ns m, (∀ x, x ∈ ns ↔ ∃ argument ∈ arguments, Writes argument x) ∧
    Best key ns m ∧ choice op start arguments = .ok m.text := by
  obtain ⟨ns, hns, hmem⟩ := exists_numbers hread
  obtain ⟨x, hx, hwritten⟩ := hsome
  have hx' := (hmem x).mpr hwritten
  refine ⟨ns, ns.foldl op start, hmem, h.best_foldl ⟨x, hx', hx⟩, choice_of_numbers hns ?_⟩
  exact List.ne_nil_of_mem hx'

/-- The result is the text of a number that the arguments write, with the least key. -/
theorem exists_choice : ∃ m, WrittenIn arguments m ∧ (∀ x, WrittenIn arguments x → key m ≤ key x) ∧
    choice op start arguments = .ok m.text := by
  obtain ⟨ns, m, hmem, hbest, hresult⟩ := exists_best h hread hsome
  refine ⟨m, ⟨hbest.ne_nan, (hmem m).mp hbest.mem⟩, fun x hx => ?_, hresult⟩
  exact hbest.key_le x ((hmem x).mpr hx.2) hx.1

/-- Arguments that write the same numbers have the same result. -/
theorem choice_congr (hread' : ∀ argument ∈ arguments', ∃ x, Writes argument x)
    (hsame : ∀ x, WrittenIn arguments' x ↔ WrittenIn arguments x) :
    choice op start arguments' = choice op start arguments := by
  have hsome' : ∃ x, WrittenIn arguments' x := hsome.imp fun x => (hsame x).mpr
  obtain ⟨ns, m, hmem, hbest, hresult⟩ := exists_best h hread hsome
  obtain ⟨ns', m', hmem', hbest', hresult'⟩ := exists_best h hread' hsome'
  rw [hresult, hresult']
  refine congrArg Except.ok (h.text_eq hbest' hbest fun x hx => ?_)
  rw [hmem, hmem']
  simpa only [WrittenIn, hx, ne_eq, not_false_eq_true, true_and] using hsame x

end Choices

/-! ## Orders of arguments -/

/-- The same arguments in some order, but for those that write NaN. -/
def SameNumbers (arguments' arguments : List String) : Prop :=
  (arguments'.filter fun argument => !writesNan argument).Perm
    (arguments.filter fun argument => !writesNan argument)

theorem writesNan_eq_true_iff {argument : String} :
    writesNan argument = true ↔ Writes argument .nan := decide_eq_true_iff

theorem SameNumbers.mem_iff (h : SameNumbers arguments' arguments) {argument : String}
    (hargument : writesNan argument = false) : argument ∈ arguments' ↔ argument ∈ arguments := by
  have hmem := List.Perm.mem_iff h (a := argument)
  simpa [hargument] using hmem

theorem SameNumbers.writes (h : SameNumbers arguments' arguments)
    (hread : ∀ argument ∈ arguments, ∃ x, Writes argument x) :
    ∀ argument ∈ arguments', ∃ x, Writes argument x := by
  intro argument hargument
  cases hnan : writesNan argument with
  | true => exact ⟨.nan, writesNan_eq_true_iff.mp hnan⟩
  | false => exact hread argument ((h.mem_iff hnan).mp hargument)

theorem SameNumbers.writtenIn_iff (h : SameNumbers arguments' arguments) (x : Binary64) :
    WrittenIn arguments' x ↔ WrittenIn arguments x := by
  refine and_congr_right fun hx => exists_congr fun argument => and_congr_left fun hwrites => ?_
  refine h.mem_iff (Bool.eq_false_iff.mpr fun hnan => hx ?_)
  have hread := writesNan_eq_true_iff.mp hnan
  rw [Writes, hwrites] at hread
  exact Option.some.inj hread

/-- **Least and greatest arguments**: of arguments that all write a number, and not all NaN, the
result is the text of one of these numbers that is not above, or not below, any of them. It is the
same in every order of the arguments and with any NaN among them. Of other arguments the first that
writes no number is named. -/
theorem extremes (arguments : List String) :
    ((∀ argument ∈ arguments, ∃ x, Writes argument x) → (∃ x, WrittenIn arguments x) →
      (∃ m, WrittenIn arguments m ∧ (∀ x, WrittenIn arguments x → m ≤ x) ∧
        min arguments = .ok m.text) ∧
      (∃ m, WrittenIn arguments m ∧ (∀ x, WrittenIn arguments x → x ≤ m) ∧
        max arguments = .ok m.text) ∧
      ∀ arguments', SameNumbers arguments' arguments →
        min arguments' = min arguments ∧ max arguments' = max arguments) ∧
    ((∃ argument ∈ arguments, ∀ x, ¬Writes argument x) → ∃ before first after,
      arguments = before ++ first :: after ∧ (∀ argument ∈ before, ∃ x, Writes argument x) ∧
      (∀ x, ¬Writes first x) ∧
      min arguments = .error ("'" ++ first ++ "' is not a number") ∧
      max arguments = .error ("'" ++ first ++ "' is not a number")) := by
  rw [min_eq_choice, max_eq_choice]
  refine ⟨fun hread hsome => ⟨?_, ?_, fun arguments' hsame => ?_⟩, fun hrefused => ?_⟩
  · obtain ⟨m, hm, hle, hresult⟩ := exists_choice chooses_min hread hsome
    exact ⟨m, hm, fun x hx => le_iff_rank_le.mpr ⟨hm.1, hx.1, hle x hx⟩, hresult⟩
  · obtain ⟨m, hm, hle, hresult⟩ := exists_choice chooses_max hread hsome
    refine ⟨m, hm, fun x hx => le_iff_rank_le.mpr ⟨hx.1, hm.1, ?_⟩, hresult⟩
    exact Int.neg_le_neg_iff.mp (hle x hx)
  · have hread' := hsame.writes hread
    exact ⟨choice_congr chooses_min hread hsome hread' hsame.writtenIn_iff,
      choice_congr chooses_max hread hsome hread' hsame.writtenIn_iff⟩
  · obtain ⟨before, first, after, hsplit, hbefore, hfirst, herror⟩ := exists_refused hrefused
    exact ⟨before, first, after, hsplit, hbefore, hfirst, choice_of_error herror,
      choice_of_error herror⟩

/-- Both zeros, an infinity and NaN, in two orders, and arguments that are no numbers. -/
theorem extremes_zeros :
    let arguments := ["-0", " inf ", "NaN", "0.0"]
    let others := ["nan", "0.0", "-nan", " inf ", "-0"]
    (∃ m, WrittenIn arguments m ∧ (∀ x, WrittenIn arguments x → m ≤ x) ∧
      min arguments = .ok m.text) ∧
    (min others = min arguments ∧ max others = max arguments) ∧ min others = .ok "0" ∧
    ∃ first, min ["1", "", "x"] = .error ("'" ++ first ++ "' is not a number") := by
  intro arguments others
  have hall : arguments.all fun argument =>
      (Binary64.read? (Text.trim argument).toList).isSome := by decide +kernel
  have hread : ∀ argument ∈ arguments, ∃ x, Writes argument x := fun argument hargument =>
    Option.isSome_iff_exists.mp (List.all_eq_true.mp hall argument hargument)
  have hsome : ∃ x, WrittenIn arguments x :=
    ⟨.infinite false, by decide, " inf ", by decide, by unfold Writes; decide +kernel⟩
  have hsame : SameNumbers others arguments := by unfold SameNumbers; decide +kernel
  have hzero : min others = .ok "0" := eq_ok_of_toOption (by decide +kernel)
  have hempty : ∃ argument ∈ ["1", "", "x"], ∀ x, ¬Writes argument x :=
    ⟨"", by decide, fun x => Option.some_ne_none x ∘ Eq.symm⟩
  obtain ⟨hleast, -, horder⟩ := (extremes arguments).1 hread hsome
  obtain ⟨before, first, after, -, -, -, herror, -⟩ := (extremes ["1", "", "x"]).2 hempty
  exact ⟨hleast, horder others hsame, hzero, first, herror⟩

end Builtin

end ArithScript
