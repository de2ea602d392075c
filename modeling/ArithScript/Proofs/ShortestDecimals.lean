import ArithScript.Proofs.RoundingOrder

/-!
# The search finds the shortest decimal

The decimals that read back as a magnitude are an interval of every grid
(`ReadsBack.between`), because rounding keeps the order. So if a grid has a point that
reads back, one of the two neighbours of the magnitude does, and the search misses no grid
that has one. No grid above the first one searched has any, so the decimal that is found
has the fewest digits of all that read back, and on its grid no other one is nearer to the
magnitude (`shortest_spec`).
-/

namespace ArithScript.Magnitude

variable {m : Magnitude} {tie : TieRule} {d : Decimal} {c : Nat} {e : Int}

/-! ## Decimals that read back -/

theorem readsBack_iff : m.ReadsBack d ↔ roundUnits d.numerator d.denominator = m.units := by
  unfold ReadsBack
  rw [Decimal.toBinary64_eq_ofRatio, Binary64.ofRatio_eq_finite_iff]

theorem roundUnits_decimal_mono {c' : Nat} (h : c ≤ c') :
    roundUnits (Decimal.numerator ⟨c, e⟩) (Decimal.denominator ⟨c, e⟩) ≤
      roundUnits (Decimal.numerator ⟨c', e⟩) (Decimal.denominator ⟨c', e⟩) := by
  refine roundUnits_mono (Decimal.denominator_pos _) (Decimal.denominator_pos _) ?_
  exact Nat.mul_le_mul_right _ (Nat.mul_le_mul_right _ (Nat.mul_le_mul_right _ h))

/-- What stands on a grid between decimals that read back reads back. -/
theorem ReadsBack.between {a b : Nat} (ha : m.ReadsBack ⟨a, e⟩) (hb : m.ReadsBack ⟨b, e⟩)
    (hac : a ≤ c) (hcb : c ≤ b) : m.ReadsBack ⟨c, e⟩ := by
  rw [readsBack_iff] at ha hb ⊢
  apply Nat.le_antisymm
  · rw [← hb]
    exact roundUnits_decimal_mono hcb
  · rw [← ha]
    exact roundUnits_decimal_mono hac

/-- Zeros at the end may as well be an exponent. -/
theorem readsBack_zeros {k : Nat} : m.ReadsBack ⟨c * 10 ^ k, e⟩ ↔ m.ReadsBack ⟨c, e + k⟩ := by
  rw [readsBack_iff, readsBack_iff]
  refine Eq.congr_left (roundUnits_congr (Decimal.denominator_pos _) (Decimal.denominator_pos _) ?_)
  have hexp : k + e.toNat + (-(e + k)).toNat = (e + k).toNat + (-e).toNat := by omega
  calc c * 10 ^ k * 10 ^ e.toNat * unitsPerOne * 10 ^ (-(e + k)).toNat
      = c * unitsPerOne * 10 ^ (k + e.toNat + (-(e + k)).toNat) := by ring
    _ = c * 10 ^ (e + k).toNat * unitsPerOne * 10 ^ (-e).toNat := by rw [hexp]; ring

/-- Some decimal with this exponent reads back as the magnitude. -/
def OnGrid (m : Magnitude) (e : Int) : Prop := ∃ c, m.ReadsBack ⟨c, e⟩

/-- A finer grid has every point of a coarser one. -/
theorem OnGrid.finer {e' : Int} (h : m.OnGrid e) (he : e' ≤ e) : m.OnGrid e' := by
  obtain ⟨c, hc⟩ := h
  refine ⟨c * 10 ^ (e - e').toNat, readsBack_zeros.mpr ?_⟩
  have hexp : e' + ((e - e').toNat : Int) = e := by omega
  rwa [hexp]

/-! ## Neighbours -/

/-- The distance between a decimal and the magnitude, in fractions of a unit that all
decimals with the same exponent share. -/
def distance (m : Magnitude) (d : Decimal) : Nat :=
  ((d.numerator : Int) - (m.units * d.denominator : Nat)).natAbs

/-- The distance between neighbouring points of a grid, in these fractions. -/
def gridStep (e : Int) : Nat := unitsPerOne * Nat.pow 10 e.toNat

/-- The magnitude in these fractions. -/
def scaledTo (m : Magnitude) (e : Int) : Nat := m.units * Nat.pow 10 (-e).toNat

/-- The point of the grid at the magnitude or next below it. -/
def floorOn (m : Magnitude) (e : Int) : Nat := m.scaledTo e / gridStep e

theorem numerator_eq : Decimal.numerator ⟨c, e⟩ = c * gridStep e := by
  rw [Decimal.numerator, gridStep, Nat.pow_eq]
  ring

theorem scaledTo_eq : m.units * Decimal.denominator ⟨c, e⟩ = m.scaledTo e := by
  rw [Decimal.denominator, scaledTo, Nat.pow_eq]

theorem gridStep_pos (e : Int) : 0 < gridStep e :=
  Nat.mul_pos (by decide +kernel) (Nat.pow_pos (by decide))

/-- The magnitude lies between its neighbours. -/
theorem floorOn_le (m : Magnitude) (e : Int) : m.floorOn e * gridStep e ≤ m.scaledTo e :=
  Nat.div_mul_le_self _ _

theorem lt_succ_floorOn (m : Magnitude) (e : Int) :
    m.scaledTo e < (m.floorOn e + 1) * gridStep e :=
  (Nat.div_lt_iff_lt_mul (gridStep_pos e)).mp (Nat.lt_succ_self _)

theorem distance_eq :
    m.distance ⟨c, e⟩ = ((c * gridStep e : Nat) - (m.scaledTo e : Nat) : Int).natAbs := by
  rw [distance, numerator_eq, scaledTo_eq]

/-- Of the points on the lower side of the magnitude the neighbour is the nearest, and it
reads back if any of them does. -/
theorem ReadsBack.floorOn (h : m.ReadsBack ⟨c, e⟩) (hc : c ≤ m.floorOn e) :
    m.ReadsBack ⟨m.floorOn e, e⟩ ∧ m.distance ⟨m.floorOn e, e⟩ ≤ m.distance ⟨c, e⟩ := by
  have hfloor := m.floorOn_le e
  constructor
  · rw [readsBack_iff] at h ⊢
    apply Nat.le_antisymm
    · refine m.roundUnits_le (Decimal.denominator_pos _) ?_
      rw [numerator_eq, scaledTo_eq]
      exact hfloor
    · rw [← h]
      exact roundUnits_decimal_mono hc
  · have hstep := Nat.mul_le_mul_right (gridStep e) hc
    rw [distance_eq, distance_eq]
    omega

/-- Of the points beyond the magnitude the neighbour is the nearest, and it reads back if
any of them does. -/
theorem ReadsBack.succ_floorOn (h : m.ReadsBack ⟨c, e⟩) (hc : m.floorOn e < c) :
    m.ReadsBack ⟨m.floorOn e + 1, e⟩ ∧
      m.distance ⟨m.floorOn e + 1, e⟩ ≤ m.distance ⟨c, e⟩ := by
  have hsucc := m.lt_succ_floorOn e
  constructor
  · rw [readsBack_iff] at h ⊢
    apply Nat.le_antisymm
    · rw [← h]
      exact roundUnits_decimal_mono hc
    · refine m.le_roundUnits (Decimal.denominator_pos _) ?_
      rw [numerator_eq, scaledTo_eq]
      exact Nat.le_of_lt hsucc
  · have hstep : (m.floorOn e + 1) * gridStep e ≤ c * gridStep e := Nat.mul_le_mul_right _ hc
    rw [distance_eq, distance_eq]
    omega

/-- The neighbours are the points on both sides of the magnitude, the nearer one first. -/
theorem neighbours_cases (m : Magnitude) (tie : TieRule) (e : Int) :
    let below : Decimal := ⟨m.floorOn e, e⟩
    let above : Decimal := ⟨m.floorOn e + 1, e⟩
    (m.neighbours tie e = (below, above) ∧ m.distance below ≤ m.distance above) ∨
      (m.neighbours tie e = (above, below) ∧ m.distance above ≤ m.distance below) := by
  intro below above
  have hrest : m.scaledTo e = m.floorOn e * gridStep e + m.scaledTo e % gridStep e := by
    rw [floorOn, Nat.mul_comm, Nat.div_add_mod]
  have hlt := Nat.mod_lt (m.scaledTo e) (gridStep_pos e)
  have hsucc : (m.floorOn e + 1) * gridStep e = m.floorOn e * gridStep e + gridStep e := by ring
  have hbelow : m.distance below = m.scaledTo e % gridStep e := by
    rw [distance_eq]
    omega
  have habove : m.distance above = gridStep e - m.scaledTo e % gridStep e := by
    rw [distance_eq]
    omega
  rw [hbelow, habove]
  obtain ⟨up, hneighbours⟩ : ∃ up : Bool, m.neighbours tie e =
      if 2 * (m.scaledTo e % gridStep e) < gridStep e ∨
        (2 * (m.scaledTo e % gridStep e) = gridStep e ∧ !up) then (below, above)
      else (above, below) := by
    unfold neighbours
    exact ⟨_, rfl⟩
  by_cases hnear : 2 * (m.scaledTo e % gridStep e) < gridStep e ∨
      (2 * (m.scaledTo e % gridStep e) = gridStep e ∧ !up)
  · rw [if_pos hnear] at hneighbours
    exact .inl ⟨hneighbours, by omega⟩
  · rw [if_neg hnear] at hneighbours
    exact .inr ⟨hneighbours, by omega⟩

/-- A point of the grid that reads back is no nearer than a neighbour that does. -/
theorem neighbours_spec (m : Magnitude) (tie : TieRule) (e : Int) :
    ∃ near far, m.neighbours tie e = (near, far) ∧ near.exponent = e ∧ far.exponent = e ∧
      m.distance near ≤ m.distance far ∧ ∀ c, m.ReadsBack ⟨c, e⟩ →
        (m.ReadsBack near ∧ m.distance near ≤ m.distance ⟨c, e⟩) ∨
          (m.ReadsBack far ∧ m.distance far ≤ m.distance ⟨c, e⟩) := by
  have hsides {c : Nat} (hc : m.ReadsBack ⟨c, e⟩) :
      (m.ReadsBack ⟨m.floorOn e, e⟩ ∧ m.distance ⟨m.floorOn e, e⟩ ≤ m.distance ⟨c, e⟩) ∨
        (m.ReadsBack ⟨m.floorOn e + 1, e⟩ ∧
          m.distance ⟨m.floorOn e + 1, e⟩ ≤ m.distance ⟨c, e⟩) := by
    rcases Nat.lt_or_ge (m.floorOn e) c with hlt | hle
    · exact .inr (hc.succ_floorOn hlt)
    · exact .inl (hc.floorOn hle)
  rcases m.neighbours_cases tie e with ⟨hneighbours, hnear⟩ | ⟨hneighbours, hnear⟩
  · exact ⟨_, _, hneighbours, rfl, rfl, hnear, fun c hc => hsides hc⟩
  · exact ⟨_, _, hneighbours, rfl, rfl, hnear, fun c hc => (hsides hc).symm⟩

/-! ## The search -/

/-- The decimal reads back, and no other one on its grid that does is nearer. -/
structure BestOnGrid (m : Magnitude) (d : Decimal) : Prop where
  readsBack : m.ReadsBack d
  nearest : ∀ c, m.ReadsBack ⟨c, d.exponent⟩ → m.distance d ≤ m.distance ⟨c, d.exponent⟩

theorem onGrid?_eq_some (h : m.onGrid? tie e = some d) : d.exponent = e ∧ m.BestOnGrid d := by
  obtain ⟨near, far, hneighbours, hnear, hfar, hle, hside⟩ := m.neighbours_spec tie e
  unfold onGrid? at h
  rw [hneighbours] at h
  dsimp only at h
  split at h
  · next hback =>
    cases h
    refine ⟨hnear, hback, fun c hc => ?_⟩
    rw [hnear] at hc ⊢
    rcases hside c hc with ⟨-, hc⟩ | ⟨-, hc⟩
    · exact hc
    · exact Nat.le_trans hle hc
  · next hforth =>
    split at h <;> cases h
    next hback =>
      refine ⟨hfar, hback, fun c hc => ?_⟩
      rw [hfar] at hc ⊢
      rcases hside c hc with ⟨hnearBack, -⟩ | ⟨-, hc⟩
      · exact absurd hnearBack hforth
      · exact hc

theorem onGrid?_eq_none (h : m.onGrid? tie e = none) : ¬ m.OnGrid e := by
  obtain ⟨near, far, hneighbours, -, -, -, hside⟩ := m.neighbours_spec tie e
  unfold onGrid? at h
  rw [hneighbours] at h
  dsimp only at h
  split at h
  · cases h
  · next hnear =>
    split at h
    · cases h
    · next hfar =>
      rintro ⟨c, hc⟩
      rcases hside c hc with ⟨hback, -⟩ | ⟨hback, -⟩
      · exact hnear hback
      · exact hfar hback

/-- On the finest grid the magnitude is a point itself. -/
theorem distance_finest (m : Magnitude) {k : Nat} (hk : unitsPerOne = Nat.pow 2 k) :
    m.distance ⟨m.units * Nat.pow 5 k, -k⟩ = 0 := by
  have hzero : (-(k : Int)).toNat = 0 := by omega
  have hpoint : m.units * Nat.pow 5 k * gridStep (-k) = m.scaledTo (-k) := by
    rw [gridStep, scaledTo, hk, hzero, Int.neg_neg, Int.toNat_natCast]
    simp only [Nat.pow_eq, Nat.pow_zero, Nat.mul_one]
    rw [Nat.mul_assoc, ← Nat.mul_pow]
  rw [distance_eq, hpoint, Int.sub_self]
  rfl

/-- The decimal that is found is the best one of its grid, and the coarser grids that were
searched have none. -/
theorem shortestFrom_spec (hm : m.units ≠ 0) (tie : TieRule) (steps : Nat) :
    m.BestOnGrid (m.shortestFrom tie steps) ∧
      ∀ e, (m.shortestFrom tie steps).exponent < e → e ≤ steps - 1074 → ¬ m.OnGrid e := by
  induction steps with
  | zero =>
    rw [shortestFrom]
    refine ⟨⟨m.readsBack_shortestFrom hm tie 0, fun c _ => ?_⟩, fun e he hle => ?_⟩
    · have hunit : unitsPerOne = Nat.pow 2 1074 := by decide +kernel
      have hpoint := m.distance_finest hunit
      exact Nat.le_trans (Nat.le_of_eq hpoint) (Nat.zero_le _)
    · dsimp only at he
      omega
  | succ steps ih =>
    rw [shortestFrom]
    cases hgrid : m.onGrid? tie (steps + 1 - 1074) with
    | some d =>
      obtain ⟨hexponent, hbest⟩ := onGrid?_eq_some hgrid
      refine ⟨hbest, fun e he hle => ?_⟩
      rw [Option.getD_some, hexponent] at he
      omega
    | none =>
      refine ⟨ih.1, fun e he hle => ?_⟩
      rcases Int.lt_or_eq_of_le hle with hlt | rfl
      · exact ih.2 e he (by omega)
      · exact onGrid?_eq_none hgrid

/-! ## Coarse grids -/

/-- A power of two has about as many digits as the ratio of the logarithms says. -/
theorem two_pow_le_ten_pow {p q : Nat} (hp : 0 < p) (h : 2 ^ p ≤ 10 ^ q) (k : Nat) :
    2 ^ k ≤ 10 ^ (k * q / p + 1) := by
  rw [← Nat.pow_le_pow_iff_left (Nat.ne_of_gt hp)]
  have hexp : k * q ≤ (k * q / p + 1) * p :=
    Nat.le_of_lt ((Nat.div_lt_iff_lt_mul hp).mp (Nat.lt_succ_self _))
  calc (2 ^ k) ^ p = (2 ^ p) ^ k := by rw [← Nat.pow_mul, Nat.mul_comm, Nat.pow_mul]
    _ ≤ (10 ^ q) ^ k := Nat.pow_le_pow_left h k
    _ = 10 ^ (k * q) := by rw [← Nat.pow_mul, Nat.mul_comm]
    _ ≤ 10 ^ ((k * q / p + 1) * p) := Nat.pow_le_pow_right (by decide) hexp
    _ = (10 ^ (k * q / p + 1)) ^ p := Nat.pow_mul _ _ _

theorem ReadsBack.ne_zero (hm : m.units ≠ 0) (h : m.ReadsBack ⟨c, e⟩) : c ≠ 0 := by
  rintro rfl
  have hzero : (Binary64.zero false) = .finite false m := h
  cases hzero
  exact hm rfl

/-- The next coarser grid than the first one searched has steps of more units than the
magnitude has. -/
theorem pow_le_gridStep (hm : m.coarsestGrid + 1 - 1074 = e) :
    2 ^ (m.units.log2 + 1) * 10 ^ (-e).toNat ≤ gridStep e := by
  obtain ⟨p, q, hp, hq, hratio⟩ : ∃ p q, p = 100000 ∧ q = 30103 ∧ Nat.pow 2 p ≤ Nat.pow 10 q :=
    ⟨_, _, rfl, rfl, by decide +kernel⟩
  obtain ⟨k, hk, hunit⟩ : ∃ k, k = 322 ∧ 2 * Nat.pow 10 k ≤ unitsPerOne :=
    ⟨_, rfl, by decide +kernel⟩
  rw [Nat.pow_eq] at hunit
  rw [Nat.pow_eq, Nat.pow_eq] at hratio
  have hlog := two_pow_le_ten_pow (by omega) hratio m.units.log2
  rw [hp, hq] at hlog
  have hexp : m.units.log2 * 30103 / 100000 + 1 + (-e).toNat = e.toNat + k := by
    unfold coarsestGrid at hm
    omega
  refine Nat.le_of_mul_le_mul_right ?_ (Nat.pow_pos (n := k) (show 0 < 10 by decide))
  calc 2 ^ (m.units.log2 + 1) * 10 ^ (-e).toNat * 10 ^ k
      = 2 * 10 ^ k * (2 ^ m.units.log2 * 10 ^ (-e).toNat) := by ring
    _ ≤ unitsPerOne *
        (10 ^ (m.units.log2 * 30103 / 100000 + 1) * 10 ^ (-e).toNat) :=
        Nat.mul_le_mul hunit (Nat.mul_le_mul_right _ hlog)
    _ = gridStep e * 10 ^ k := by
        rw [← Nat.pow_add, hexp, Nat.pow_add, gridStep, Nat.pow_eq, Nat.mul_assoc]

/-- The points of the grids above the first one searched lie beyond the magnitude. -/
theorem not_onGrid_of_coarse (hm : m.units ≠ 0) (he : m.coarsestGrid - 1074 < e) :
    ¬ m.OnGrid e := by
  intro hgrid
  obtain ⟨e', he'⟩ : ∃ e' : Int, m.coarsestGrid + 1 - 1074 = e' := ⟨_, rfl⟩
  have hfiner : e' ≤ e := by omega
  obtain ⟨c, hc⟩ := hgrid.finer hfiner
  have hpos := Nat.pos_of_ne_zero (hc.ne_zero hm)
  have hlarge : 2 ^ (m.units.log2 + 1) ≤ m.units := by
    rw [readsBack_iff, numerator_eq] at hc
    refine Nat.le_trans (le_roundUnits_of_pow (Decimal.denominator_pos _) ?_) (Nat.le_of_eq hc)
    exact Nat.le_trans (pow_le_gridStep he') (Nat.le_mul_of_pos_left _ hpos)
  exact absurd Nat.lt_log2_self (Nat.not_lt.mpr hlarge)

/-! ## The shortest decimal -/

/-- The decimal reads back as the magnitude, no decimal with fewer digits does, and of those
with the same exponent none is nearer. -/
structure Shortest (m : Magnitude) (d : Decimal) : Prop extends m.BestOnGrid d where
  fewest : ∀ d', m.ReadsBack d' → d.digits.length ≤ d'.digits.length

theorem not_onGrid_of_shortest (hm : m.units ≠ 0) (he : (m.shortest tie).exponent < e) :
    ¬ m.OnGrid e := by
  rcases Int.lt_or_le (m.coarsestGrid - 1074) e with hcoarse | hfine
  · exact not_onGrid_of_coarse hm hcoarse
  · exact (shortestFrom_spec hm tie m.coarsestGrid).2 e he hfine

/-- A decimal that reads back on the coarsest grid that has one has the fewest digits: from
fewer digits to it the power of ten with one digit more is passed, which is on a coarser
grid. -/
theorem ReadsBack.fewest {d' : Decimal} (hd : m.ReadsBack d)
    (hcoarse : ∀ e, d.exponent < e → ¬ m.OnGrid e) (hd' : m.ReadsBack d') :
    d.digits.length ≤ d'.digits.length := by
  obtain ⟨c, e⟩ := d
  obtain ⟨c', e'⟩ := d'
  dsimp only [Decimal.digits] at hcoarse ⊢
  rw [← Nat.not_lt]
  intro hlt
  generalize hk : (Nat.toDigits 10 c').length = k at hlt
  have hpos : 0 < k := by
    rw [← hk]
    exact Nat.length_toDigits_pos
  have hc' : c' < 10 ^ k := (Nat.length_toDigits_le_iff (by decide) hpos).mp (Nat.le_of_eq hk)
  have hc : 10 ^ k ≤ c := by
    rw [← Nat.not_lt, ← Nat.length_toDigits_le_iff (by decide) hpos, Nat.not_le]
    exact hlt
  have hfiner : e' ≤ e := Int.not_lt.mp fun h => hcoarse e' h ⟨c', hd'⟩
  obtain ⟨j, rfl⟩ : ∃ j : Nat, e = e' + j := ⟨(e - e').toNat, by omega⟩
  have hpower : m.ReadsBack ⟨10 ^ k * 10 ^ j, e'⟩ := by
    refine hd'.between (readsBack_zeros.mpr hd) ?_ (Nat.mul_le_mul_right _ hc)
    exact Nat.le_trans (Nat.le_of_lt hc') (Nat.le_mul_of_pos_right _ (Nat.pow_pos (by decide)))
  rw [readsBack_zeros, ← Nat.one_mul (10 ^ k), readsBack_zeros] at hpower
  exact hcoarse _ (by omega) ⟨1, hpower⟩

/-- **Shortest decimals**: the decimal that the search comes to has the fewest digits of all
that read back as the magnitude, and on its grid it is the nearest one. -/
theorem shortest_spec (hm : m.units ≠ 0) (tie : TieRule) : m.Shortest (m.shortest tie) where
  toBestOnGrid := (shortestFrom_spec hm tie m.coarsestGrid).1
  fewest _ hd' :=
    (m.readsBack_shortest hm tie).fewest (fun _ he => not_onGrid_of_shortest hm he) hd'

/-- No zero stands at the end of the shortest decimal. -/
theorem shortest_coefficient_mod (hm : m.units ≠ 0) (tie : TieRule) :
    (m.shortest tie).coefficient % 10 ≠ 0 := by
  have hback := m.readsBack_shortest hm tie
  have hcoarse (e : Int) : (m.shortest tie).exponent < e → ¬ m.OnGrid e := not_onGrid_of_shortest hm
  generalize m.shortest tie = d at hback hcoarse ⊢
  obtain ⟨c, e⟩ := d
  intro hmod
  obtain ⟨c', rfl : c = 10 * c'⟩ := Nat.dvd_of_mod_eq_zero hmod
  have hzero : 10 * c' = c' * 10 ^ 1 := by ring
  rw [hzero, readsBack_zeros] at hback
  exact hcoarse _ (Int.lt_succ e) ⟨c', hback⟩

end ArithScript.Magnitude
