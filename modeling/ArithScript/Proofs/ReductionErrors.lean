import Mathlib.Data.List.Basic
import ArithScript.Proofs.Reduction

/-!
# Errors of the reducer

A text can be wrong in several places, and `reduce` reports one thing. It cuts the whole
text first, so one that cannot be cut into lexemes is malformed, whatever stands before the
place. Then it reads numbers and operators in turn, and the first division by zero ends the
reading, before anything behind it is looked at. So a division by zero is reported exactly
if the lexemes take turns up to a divisor that is zero (`DividesAt`), and every other error
is that the text is malformed (`reduce_reports`).
-/

namespace ArithScript.Grammar

/-- Numbers and operators take turns from the first lexeme to the one at `2 * k + 2`, which
is a zero with a division before it. -/
structure DividesAt (lexemes : List Lexeme) (k : Nat) : Prop where
  alternating : ∀ i ≤ 2 * k + 2, ∃ lexeme, lexemes[i]? = some lexeme ∧
    lexeme.isNumber = (i % 2 == 0)
  division : lexemes[2 * k + 1]? = some (.operator .div)
  zero : ∃ source x, lexemes[2 * k + 2]? = some (.number source x) ∧ x.isZero = true

/-! ## Divisions along the lexemes -/

section Steps

variable {source source' : List Char} {x y : Binary64} {op : Operator} {rest : List Lexeme} {k : Nat}

theorem dividesAt_zero_iff :
    DividesAt (.number source x :: .operator op :: .number source' y :: rest) 0 ↔
      op = .div ∧ y.isZero = true := by
  constructor
  · rintro ⟨-, hdivision, source'', z, hnumber, hzero⟩
    cases hdivision
    cases hnumber
    exact ⟨rfl, hzero⟩
  · rintro ⟨rfl, hzero⟩
    refine ⟨fun i hi => ?_, rfl, source', y, rfl, hzero⟩
    match i, hi with
    | 0, _ => exact ⟨_, rfl, rfl⟩
    | 1, _ => exact ⟨_, rfl, rfl⟩
    | 2, _ => exact ⟨_, rfl, rfl⟩

theorem dividesAt_succ_iff :
    DividesAt (.number source x :: .operator op :: rest) (k + 1) ↔ DividesAt rest k := by
  have hparity (i : Nat) : ((i + 2) % 2 == 0) = (i % 2 == 0) := by rw [Nat.add_mod_right]
  constructor
  · rintro ⟨halternating, hdivision, hzero⟩
    refine ⟨fun i hi => ?_, hdivision, hzero⟩
    obtain ⟨lexeme, hlexeme, hnumber⟩ := halternating (i + 2) (by omega)
    exact ⟨lexeme, hlexeme, hnumber.trans (hparity i)⟩
  · rintro ⟨halternating, hdivision, hzero⟩
    refine ⟨fun i hi => ?_, hdivision, hzero⟩
    match i, hi with
    | 0, _ => exact ⟨_, rfl, rfl⟩
    | 1, _ => exact ⟨_, rfl, rfl⟩
    | i + 2, hi =>
      obtain ⟨lexeme, hlexeme, hnumber⟩ := halternating i (by omega)
      exact ⟨lexeme, hlexeme, hnumber.trans (hparity i).symm⟩

theorem exists_dividesAt_step :
    (∃ k, DividesAt (.number source x :: .operator op :: .number source' y :: rest) k) ↔
      isZeroDivision (op, y) = true ∨ ∃ k, DividesAt (.number source' y :: rest) k := by
  have hfirst : isZeroDivision (op, y) = true ↔ op = .div ∧ y.isZero = true := by
    rw [isZeroDivision, Bool.and_eq_true, beq_iff_eq]
  rw [hfirst]
  constructor
  · rintro ⟨k, hk⟩
    cases k with
    | zero => exact .inl (dividesAt_zero_iff.mp hk)
    | succ k => exact .inr ⟨k, dividesAt_succ_iff.mp hk⟩
  · rintro (hzero | ⟨k, hk⟩)
    · exact ⟨0, dividesAt_zero_iff.mpr hzero⟩
    · exact ⟨k + 1, dividesAt_succ_iff.mpr hk⟩

theorem DividesAt.starts_number {lexemes : List Lexeme} (h : DividesAt lexemes k) :
    ∃ source x rest, lexemes = .number source x :: rest := by
  obtain ⟨first, hfirst, hnumber⟩ := h.alternating 0 (by omega)
  obtain ⟨rest, rfl⟩ := List.head?_eq_some_iff.mp (List.head?_eq_getElem? ▸ hfirst)
  cases first with
  | number source x => exact ⟨source, x, rest, rfl⟩
  | operator op => cases hnumber

/-- Where no operator with an operand comes next, no division does. -/
theorem not_dividesAt_of_stuck (h : Stuck rest) : ¬ DividesAt (.number source x :: rest) k := by
  intro hk
  obtain ⟨second, hsecond, hsecondNumber⟩ := hk.alternating 1 (by omega)
  obtain ⟨third, hthird, hthirdNumber⟩ := hk.alternating 2 (by omega)
  cases second with
  | number => cases hsecondNumber
  | operator op =>
    cases third with
    | operator => cases hthirdNumber
    | number source' y =>
      obtain ⟨more, rfl⟩ := List.head?_eq_some_iff.mp (List.head?_eq_getElem? ▸ hsecond)
      obtain ⟨more, rfl⟩ := List.head?_eq_some_iff.mp (List.head?_eq_getElem? ▸ hthird)
      exact h op source' y more rfl

end Steps

/-! ## The pass -/

/-- Behind an operand the pass ends with a division by zero just where the lexemes, from this
operand on, come to one. -/
theorem extend_eq_divisionByZero_iff (text : String) (sum : PartialSum) (source : List Char)
    (x : Binary64) (rest : List Lexeme) :
    sum.extend text rest = .error .divisionByZero ↔
      ∃ k, DividesAt (.number source x :: rest) k := by
  fun_induction PartialSum.extend text sum rest generalizing source x with
  | case1 sum op source' y rest e hpush =>
    rw [push_eq] at hpush
    split at hpush
    · next hzero =>
      cases hpush
      exact ⟨fun _ => exists_dividesAt_step.mpr (.inl hzero), fun _ => rfl⟩
    · cases hpush
  | case2 sum op source' y rest sum' hpush ih =>
    rw [push_eq] at hpush
    split at hpush
    · cases hpush
    · next hzero =>
      rw [exists_dividesAt_step, or_iff_right hzero]
      exact ih source' y
  | case3 sum op found rest =>
    refine iff_of_false (fun h => by cases h) (not_exists.mpr fun k => not_dividesAt_of_stuck ?_)
    intro _ _ _ _ h
    cases h
  | case4 sum op =>
    refine iff_of_false (fun h => by cases h) (not_exists.mpr fun k => not_dividesAt_of_stuck ?_)
    intro _ _ _ _ h
    cases h
  | case5 sum rest hstuck =>
    exact iff_of_false (fun h => by cases h)
      (not_exists.mpr fun k => not_dividesAt_of_stuck hstuck)

/-- What is made of the sum of the lexemes is no division by zero. -/
theorem reduceLexemes_eq_divisionByZero_iff (text : String) (lexemes : List Lexeme) :
    reduceLexemes text lexemes = .error .divisionByZero ↔ ∃ k, DividesAt lexemes k := by
  have hsum : reduceLexemes text lexemes = .error .divisionByZero ↔
      sumLexemes text lexemes = .error .divisionByZero := by
    rw [reduceLexemes_eq]
    unfold conclude
    split
    · next e he => rw [he]; simp
    · next he => rw [he]; split <;> simp
    · next he => rw [he]; simp
    · next he => rw [he]; simp
  rw [hsum]
  match lexemes with
  | .number source x :: rest => exact extend_eq_divisionByZero_iff text _ source x rest
  | [] =>
    refine iff_of_false (fun h => by cases h) fun ⟨k, hk⟩ => ?_
    obtain ⟨source, x, rest, h⟩ := hk.starts_number
    cases h
  | .operator op :: rest =>
    refine iff_of_false (fun h => by cases h) fun ⟨k, hk⟩ => ?_
    obtain ⟨source, x, rest, h⟩ := hk.starts_number
    cases h

/-! ## Reports -/

/-- **What the reducer reports**: a text that cannot be cut into lexemes is malformed. Of one
that can, a division by zero is reported exactly if numbers and operators take turns up to a
divisor that is zero, whatever comes behind it. If they do not, the text comes to the value
of its derivation if this is finite, and is malformed if it has no derivation or no finite
value. The reducer has no other errors, and the malformed text that it names is the whole. -/
theorem reduce_reports (text : String) :
    (∀ reason, Lexeme.lex text.toList = .error reason →
      reduce text = .error (.malformedExpression text reason)) ∧
      (∀ lexemes, Lexeme.lex text.toList = .ok lexemes →
        (reduce text = .error .divisionByZero ↔ ∃ k, DividesAt lexemes k) ∧
        ((¬ ∃ k, DividesAt lexemes k) →
          (∀ x, reduce text = .ok x ↔ ∃ e : Expression Operand, e.text = text.toList ∧
            (e.value Operand.value).isFinite = true ∧ e.value Operand.value = x) ∧
          ((∀ e : Expression Operand, e.text = text.toList →
              (e.value Operand.value).isFinite = false) →
            ∃ reason, reduce text = .error (.malformedExpression text reason)))) ∧
      ∀ error, reduce text = .error error →
        error = .divisionByZero ∨ ∃ reason, error = .malformedExpression text reason := by
  refine ⟨fun reason => reduce_of_lex_error, fun lexemes hlex => ?_, fun error => reduce_error⟩
  have hzero : reduce text = .error .divisionByZero ↔ ∃ k, DividesAt lexemes k := by
    rw [reduce_of_lex hlex, reduceLexemes_eq_divisionByZero_iff]
  refine ⟨hzero, fun hnone => ?_⟩
  have hderived {e : Expression Operand} (he : e.text = text.toList) :
      e.dividesByZero Operand.value = false := by
    rw [Bool.eq_false_iff]
    intro htrue
    refine hnone (hzero.mp ?_)
    rw [reduce_text he, Expression.outcome, if_pos htrue]
  refine ⟨fun x => ?_, fun hinfinite => reduce_malformed_iff.mpr ⟨?_, fun hstarts => ?_⟩⟩
  · rw [reduce_eq_ok_iff]
    exact exists_congr fun e => and_congr_right fun he => and_iff_right (hderived he)
  · rintro x ⟨e, he, -, hfinite, -⟩
    rw [hinfinite e he] at hfinite
    cases hfinite
  · exact hnone (hzero.mp (reduce_of_startsDividingByZero hstarts))

/-- A character that is in no lexeme comes before a division by zero, even one in front of it. -/
example : reduce "1/0+x" = .error (.malformedExpression "1/0+x" (.unexpectedCharacter 'x')) := by
  decide +kernel

/-- A divisor may be zero because it is too small, and what is wrong behind it does not show. -/
example : reduce "2*3/1e-400.5+" = .error .divisionByZero := by decide +kernel

end ArithScript.Grammar
