import ArithScript.Proofs.Juxtaposition
import ArithScript.Proofs.Printing
import ArithScript.Proofs.Sessions
import ArithScript.Proofs.Written

/-!
# Staged computations

A scalar assignment stores its value as a text, and a later expression takes this
text in again without anything around it. On this way no number changes, except that
a zero loses its sign: wherever the name stands in a later expression, it is an
operand with the assigned value (`evaluateStatement_staged`). Two things carry this.
The text of a finite number is the text of an operand, and only the freeing of its
name takes an entry away from a session.
-/

namespace ArithScript

open Grammar

/-! ## Numbers of lines -/

namespace Line

variable {store : Store} {line : Line} {e : Expression Symbol} {value : Symbol → Binary64}

/-- The number of the line is the one that its symbols have one by one. -/
theorem Spells.reduceWith (h : line.Spells e) (hline : line.WellFormed)
    (hvalue : ∀ s ∈ e.operands, line.Denotes store s (value s)) :
    (line.reduceWith reduce store).1 = e.outcome value (line.expressionText store) := by
  obtain ⟨resolved, hresolve, htext⟩ := exists_expressionText h.ne_nil (h.bound hvalue)
  rw [reduceWith_eq reduce hresolve htext]
  exact h.reduce_expressionText hline hvalue

/-- A plain expression comes to this number, and an assignment assigns its text. -/
theorem Spells.evaluateStatement {statement : String} (h : line.Spells e)
    (hparse : parse statement = .ok line)
    (hvalue : ∀ s ∈ e.operands, line.Denotes store s (value s)) :
    (line.reduceWith reduce store).1 = e.outcome value (line.expressionText store) ∧
      ∀ symbols, line.form = .plain symbols → (evaluateStatement reduce store statement).1 =
        (e.outcome value (line.expressionText store)).map .number := by
  have hreduce := h.reduceWith (parse_wellFormed hparse) hvalue
  refine ⟨hreduce, fun symbols hform => ?_⟩
  rw [ArithScript.evaluateStatement, hparse]
  dsimp only
  rw [evaluate_result, hform]
  dsimp only
  rw [hreduce]

/-- A reference to the text of a finite number stands for the number, whatever its sign
and its size, and a zero has no sign. -/
theorem Denotes.of_text {s : Symbol} {r : Reference} {v : Binary64} (hfinite : v.isFinite = true)
    (hr : s.reference? = some r) (htext : line.textOf store r = some v.text) :
    line.Denotes store s (unsignedZero v) := by
  cases v with
  | finite negative m =>
    obtain ⟨whole, fraction, hoperand, hvalue⟩ := exists_operand_of_text negative m
    rw [hoperand] at htext
    exact hvalue ▸ .reference _ hr htext
  | nan | infinite => cases hfinite

/-! ## Assignments -/

/-- A text in the brackets of a scalar assignment is parsed as one or not at all. -/
theorem parse_assignment {name : Letters} {body : String}
    (h : parse (name.named '$' ++ "=( " ++ body ++ " )") = .ok line) :
    ∃ symbols, line = ⟨.scalarAssign (name.named '$') symbols, false⟩ := by
  generalize hstatement : name.named '$' ++ "=( " ++ body ++ " )" = statement at h
  have htext : statement.toList = Shape.bracketed '$' "=( " " )" name body.toList := by
    simp [← hstatement, Shape.bracketed, Letters.toList_named]
  have htrimmed : Text.Trimmed statement.toList := by
    have hends : Text.Trimmed
        (['$'] ++ (name.chars ++ ("=( ".toList ++ (body.toList ++ [' ']))) ++ [')']) :=
      (Text.trimmed_of_forall (List.forall_mem_singleton.mpr rfl)).append
        (Text.trimmed_of_forall (List.forall_mem_singleton.mpr rfl))
        (List.cons_ne_nil _ _) (List.cons_ne_nil _ _)
    simpa [htext, Shape.bracketed] using hends
  obtain ⟨hresolved, hderives⟩ := parse_eq_ok_iff.mp h
  rw [htrimmed.trim_eq] at hderives
  obtain ⟨form, resolved⟩ := line
  obtain rfl : resolved = false := hresolved
  cases hderives with
  | scalarAssign shape =>
    obtain ⟨rfl, -⟩ := Shape.bracketed_inj Shape.opens_scalarAssign (shape.trans htext)
    exact ⟨_, rfl⟩
  | arrayAssign shape => exact absurd (List.cons.inj (shape.trans htext)).1 (by decide)
  | call shape => exact absurd (List.cons.inj (shape.trans htext)).1 (by decide)
  | plain shapeless tokens =>
    -- The body may be empty or have line breaks, but no symbol starts like this.
    have hopening := tokens.toList_ne (.scalarAssign name ⟨['0'], by decide, by decide⟩)
      (body.toList ++ " )".toList)
    exact absurd (by simp [htext, Shape.bracketed, Shape.opening]) hopening

end Line

theorem visible_scalar (letters : Letters) :
    ∀ c ∈ (letters.named '$').toList, Text.isBlank c = false := by
  rw [Letters.toList_named]
  refine List.forall_mem_cons.mpr ⟨by decide, fun c hc => ?_⟩
  exact Text.isBlank_of_isUpper (letters.isUpper c hc)

/-- The name of a scalar is a reference to it. -/
theorem Symbol.classify_scalar (letters : Letters) :
    Symbol.classify (letters.named '$') = .ok (.scalar ⟨letters.named '$', none⟩) := by
  unfold Symbol.classify
  rw [(Text.trimmed_of_forall (visible_scalar letters)).trim_eq]
  dsimp only
  rw [Name.shape?_of_hasShape (.scalar letters)]

theorem Line.written_name (name : Letters) :
    Line.Written (name.named '$') [.scalar ⟨name.named '$', none⟩] :=
  .single (visible_scalar name) (Symbol.classify_scalar name)

/-! ## Staging -/

/-- What a scalar assignment comes to is a finite number, and the name gets its text. -/
theorem evaluateStatement_assignment {store store' : Store} {name : Letters} {body : String}
    {v : Binary64} (h : evaluateStatement reduce store (name.named '$' ++ "=( " ++ body ++ " )") =
      (.ok (.number v), store')) :
    v.isFinite = true ∧ store'.entries[name.named '$']? = some (.scalar v.text) := by
  unfold evaluateStatement at h
  split at h
  · cases h
  next line hparse =>
  obtain ⟨symbols, rfl⟩ := Line.parse_assignment hparse
  obtain ⟨hresult, rfl⟩ := Prod.mk.inj h
  have htarget := (Line.parse_wellFormed hparse).target
  have hstore := (@Line.evaluate_store_eq store _ reduce htarget).1
  rw [hresult] at hstore
  rw [Line.evaluate_result] at hresult
  obtain ⟨n, hreduce, hregister⟩ := bind_eq_ok.mp hresult
  obtain ⟨-, -, hnumber⟩ := map_eq_ok.mp hregister
  cases hnumber
  obtain ⟨text, htext⟩ := Line.reduceWith_eq_ok hreduce
  refine ⟨isFinite_of_reduce htext, ?_⟩
  rw [hstore]
  exact Std.ExtTreeMap.getElem?_insert_self

/-- **Staging is exact**: once an assignment has come to a number, its name has the text
of this number for as long as the name is not freed, the name on its own comes to the
number, and so does every occurrence of it among the operands of an expression. -/
theorem evaluateStatement_staged {store store' : Store} {name : Letters} {body : String}
    {v : Binary64} (h : evaluateStatement reduce store (name.named '$' ++ "=( " ++ body ++ " )") =
      (.ok (.number v), store')) {ops : List Operation}
    (hops : .unregister (name.named '$') ∉ ops) :
    let later := store'.run ops
    let x := Symbol.scalar ⟨name.named '$', none⟩
    later.value (name.named '$') = .ok v.text ∧
      (evaluateStatement reduce later (name.named '$')).1 = .ok (.number (unsignedZero v)) ∧
      ∀ (statement : String) (line : Line) (e : Expression Symbol) (value : Symbol → Binary64),
        Line.parse statement = .ok line → line.Spells e → value x = unsignedZero v →
        (∀ s ∈ e.operands, s ≠ x → line.Denotes later s (value s)) →
        let outcome := e.outcome value (line.expressionText later)
        (line.reduceWith reduce later).1 = outcome ∧
          ∀ symbols, line.form = .plain symbols →
            (evaluateStatement reduce later statement).1 = outcome.map .number := by
  intro later x
  obtain ⟨hfinite, hentry⟩ := evaluateStatement_assignment h
  have hvalue : later.value (name.named '$') = .ok v.text :=
    (Store.value_scalar_iff (Name.shape?_of_hasShape (.scalar name))).mpr
      (Store.run_keeps hops hentry)
  have hx : ∀ {statement : String} {line : Line}, Line.parse statement = .ok line →
      line.Denotes later x (unsignedZero v) := by
    intro statement line hparse
    refine .of_text hfinite rfl ?_
    rw [Line.textOf, (Line.parse_eq_ok_iff.mp hparse).1, if_neg Bool.false_ne_true, hvalue]
    rfl
  refine ⟨hvalue, ?_, fun statement line e value hparse hspells hvaluex hothers => ?_⟩
  · -- The name on its own is the expression of one operand.
    let alone : Line := ⟨.plain [x], false⟩
    let e : Expression Symbol := ⟨⟨x, []⟩, []⟩
    have hparse : Line.parse (name.named '$') = .ok alone := (Line.written_name name).parse
    have hspells : alone.Spells e := rfl
    have hdenotes : ∀ s ∈ e.operands, alone.Denotes later s (unsignedZero v) := by
      intro s hs
      cases List.mem_singleton.mp hs
      exact hx hparse
    have houtcome : e.outcome (fun _ => unsignedZero v) (alone.expressionText later) =
        .ok (unsignedZero v) := outcome_eq_ok.mpr ⟨rfl, isFinite_unsignedZero hfinite, rfl⟩
    rw [(hspells.evaluateStatement hparse hdenotes).2 [x] rfl, houtcome]
    rfl
  · refine hspells.evaluateStatement hparse fun s hs => ?_
    by_cases hsx : s = x
    · rw [hsx, hvaluex]
      exact hx hparse
    · exact hothers s hs hsx

/-- A negative number beyond the integers that are written as such, behind a minus and
behind a division. -/
theorem evaluateStatement_staged_large :
    let v : Binary64 := Decimal.toBinary64 true ⟨9999999999999998, 0⟩
    let assigned := evaluateStatement reduce .empty "$X=( 2 - 1e16 )"
    let later := assigned.2.run [.statement reduce "$Y=( $X / 2 )", .unregister "$Z"]
    assigned.1 = .ok (.number v) ∧ later.value "$X" = .ok "-9999999999999998" ∧
      (evaluateStatement reduce later "$X").1 = .ok (.number v) ∧
      (evaluateStatement reduce later "3 - $X / $X").1 = .ok (.number (.ofNat 2)) := by
  intro v assigned later
  let x := Symbol.scalar ⟨"$X", none⟩
  let line : Line := ⟨.plain [.number (.ofNat 3), .operator "-", x, .operator "/", x], false⟩
  let e : Expression Symbol := ⟨⟨.number (.ofNat 3), []⟩, [(.sub, ⟨x, [(.div, x)]⟩)]⟩
  let value : Symbol → Binary64 := fun | .scalar _ => v | _ => .ofNat 3
  have hassigned : assigned.1 = .ok (.number v) := eq_ok_of_toOption (by decide +kernel)
  have hparse : Line.parse "3 - $X / $X" = .ok line := eq_ok_of_toOption (by decide +kernel)
  have hv : unsignedZero v = v := by decide +kernel
  obtain ⟨name, hname⟩ : ∃ name : Letters, name.named '$' = "$X" :=
    ⟨⟨['X'], by decide, List.forall_mem_singleton.mpr rfl⟩, rfl⟩
  have hstatement : name.named '$' ++ "=( " ++ "2 - 1e16" ++ " )" = "$X=( 2 - 1e16 )" := by
    rw [hname]
    rfl
  have hstaged := @evaluateStatement_staged .empty assigned.2 name "2 - 1e16" v
    (by rw [hstatement, ← hassigned]) [.statement reduce "$Y=( $X / 2 )", .unregister "$Z"]
    (by rw [hname]; simp)
  rw [hname] at hstaged
  obtain ⟨hvalue, halone, hlater⟩ := hstaged
  rw [hv] at halone
  have hdenotes : ∀ s ∈ e.operands, s ≠ x → line.Denotes later s (value s) := by
    intro s hs hsx
    have hoperands : e.operands = [.number (.ofNat 3), x, x] := rfl
    simp only [hoperands, List.mem_cons, hsx, List.not_mem_nil, or_false] at hs
    exact hs ▸ .number _
  have hresult := (hlater "3 - $X / $X" line e value hparse rfl hv.symm hdenotes).2 _ rfl
  have houtcome : e.outcome value (line.expressionText later) = .ok (.ofNat 2) :=
    outcome_eq_ok.mpr (by decide +kernel)
  refine ⟨hassigned, hvalue.trans (congrArg Except.ok (by decide +kernel)), halone, ?_⟩
  rw [hresult, houtcome]
  rfl

end ArithScript
