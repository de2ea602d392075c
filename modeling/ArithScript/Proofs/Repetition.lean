import ArithScript.Proofs.Sessions

/-!
# Repeated statements

While a script runs, its store only grows. What a statement has read it reads
again in every later store, and only a name that it missed may be there by then.
So whatever is computed from a store lasts, a missing name excepted (`Lasts`):
a statement that is made twice comes to the same twice, unless its first time
registered a name, which is taken the second time (`Recurs`).
-/

namespace ArithScript

/-! ## Results that last -/

/-- The later result is the earlier one, or the earlier one was the lack of a name. -/
def Lasts {α : Type} (earlier later : Except Error α) : Prop :=
  later = earlier ∨ ∃ name, earlier = .error (.notFound name)

namespace Lasts

variable {α β : Type} {earlier later : Except Error α}

theorem refl (result : Except Error α) : Lasts result result := .inl rfl

theorem error_eq (h : Lasts earlier later) {error : Error} (hearlier : earlier = .error error)
    (hfound : ∀ name, error ≠ .notFound name) : later = .error error := by
  rcases h with rfl | ⟨name, hname⟩
  · exact hearlier
  · rw [hearlier] at hname
    cases hname
    exact absurd rfl (hfound name)

theorem ok_eq (h : Lasts earlier later) {value : α} (hearlier : earlier = .ok value) :
    later = .ok value := by
  rcases h with rfl | ⟨name, hname⟩
  · exact hearlier
  · rw [hearlier] at hname
    cases hname

theorem bind {f g : α → Except Error β} (h : Lasts earlier later)
    (hf : ∀ value, Lasts (f value) (g value)) : Lasts (earlier.bind f) (later.bind g) := by
  rcases h with rfl | ⟨name, rfl⟩
  · cases later with
    | error e => exact .refl _
    | ok value => exact hf value
  · exact .inr ⟨name, rfl⟩

theorem map (f : α → β) (h : Lasts earlier later) : Lasts (earlier.map f) (later.map f) := by
  rcases h with rfl | ⟨name, rfl⟩
  · exact .refl _
  · exact .inr ⟨name, rfl⟩

/-- The first of the computations that fails still is the first one. -/
theorem mapM {f g : α → Except Error β} (h : ∀ x, Lasts (f x) (g x)) (xs : List α) :
    Lasts (xs.mapM f) (xs.mapM g) := by
  induction xs with
  | nil => exact .refl _
  | cons x xs ih =>
    rw [List.mapM_cons, List.mapM_cons]
    exact (h x).bind fun y => ih.bind fun ys => .refl _

end Lasts

/-! ## Lookups in a store that has grown -/

namespace Store.Extends

variable {computes : Prop} {store store' : Store}

variable (h : store.Extends computes store')
include h

theorem mem {name : String} (hname : name ∈ store.entries) : name ∈ store'.entries :=
  of_getElem?_eq_some (h.kept (getElem?_pos store.entries name hname))

theorem arrayValues_lasts (name : String) :
    Lasts (store.arrayValues name) (store'.arrayValues name) := by
  unfold arrayValues
  split
  · cases hentry : store.entries[name]? with
    | none => exact .inr ⟨name, rfl⟩
    | some entry =>
      rw [h.kept hentry]
      exact .refl _
  · exact .refl _

theorem value_lasts (name : String) : Lasts (store.value name) (store'.value name) := by
  unfold value
  split
  · cases hentry : store.entries[name]? with
    | none => exact .inr ⟨name, rfl⟩
    | some entry =>
      rw [h.kept hentry]
      exact .refl _
  · next array position _ =>
    rcases h.arrayValues_lasts array with heq | ⟨missing, hmissing⟩
    · rw [heq]
      exact .refl _
    · rw [hmissing]
      exact .inr ⟨missing, rfl⟩
  · exact .refl _

theorem arguments_lasts (name : String) :
    Lasts (store.arguments name) (store'.arguments name) := by
  unfold arguments
  split
  · exact h.arrayValues_lasts name
  · exact (h.value_lasts name).map _

/-- A registration that is refused stays refused, for the same reason. -/
theorem register_error {name value : String} {error : Error}
    (hrefused : store.register name value = .error error) :
    store'.register name value = .error error := by
  unfold register at hrefused ⊢
  cases hentry : entryFor name value with
  | error e =>
    rw [hentry] at hrefused
    exact hrefused
  | ok entry =>
    rw [hentry] at hrefused
    dsimp only at hrefused ⊢
    split at hrefused
    · next htaken =>
      rw [if_pos (h.mem htaken)]
      exact hrefused
    · cases hrefused

end Store.Extends

/-- A name that is taken cannot be registered, though the text would do. -/
theorem Store.register_taken {store : Store} {name value : String} {entry : Entry}
    (hentry : entryFor name value = .ok entry) (htaken : name ∈ store.entries) :
    store.register name value = .error (.duplicateName name) := by
  unfold register
  rw [hentry]
  exact if_pos htaken

/-! ## Results that recur -/

/-- How the result of a statement shows again when the statement is repeated, given
the name it registers: a failure that is no missing name stays the same, and so does
the value of a statement that registers nothing; a name that it registered is taken. -/
structure Recurs (assigned : Option String) (first later : Except Error Value) : Prop where
  error : ∀ {error : Error}, first = .error error → (∀ name, error ≠ .notFound name) →
    later = .error error
  value : ∀ {value : Value}, first = .ok value →
    later = assigned.elim (.ok value) fun target => .error (.duplicateName target)

namespace Recurs

variable {assigned : Option String} {first later : Except Error Value}

theorem of_error (error : Error) : Recurs assigned (.error error) (.error error) :=
  ⟨fun h _ => h, fun h => nomatch h⟩

theorem of_lasts (h : Lasts first later) : Recurs none first later :=
  ⟨fun hfirst hfound => h.error_eq hfirst hfound, fun hfirst => h.ok_eq hfirst⟩

/-- A registration that is made again is refused: as before, or because the name is
taken by then. -/
theorem of_register {computes : Prop} {store store' : Store} {target text : String} {value : Value}
    (h : store.Extends computes store')
    (htaken : ∀ {v}, ((store.register target text).map fun _ => value) = .ok v →
      target ∈ store'.entries) :
    Recurs (some target) ((store.register target text).map fun _ => value)
      ((store'.register target text).map fun _ => value) := by
  cases hregister : store.register target text with
  | error e =>
    rw [h.register_error hregister]
    exact .of_error e
  | ok registered =>
    obtain ⟨entry, hentry, -, -⟩ := Store.register_eq_ok hregister
    rw [hregister] at htaken
    rw [Store.register_taken hentry (htaken rfl)]
    exact ⟨fun hfirst => (nomatch hfirst), fun _ => rfl⟩

end Recurs

/-! ## Statements in a store that has grown -/

section Statements

variable {computes : Prop} {store store' : Store}

theorem Symbol.resolve_lasts (h : store.Extends computes store') (s : Symbol) :
    Lasts (s.resolve store) (s.resolve store') := by
  cases s with
  | number | operator => exact .refl _
  | scalar r => exact (h.value_lasts r.name).map _
  | element r => exact (h.value_lasts r.name).map _

theorem Form.resolve_lasts (h : store.Extends computes store') (form : Form) :
    Lasts (form.resolve store) (form.resolve store') := by
  rw [resolve_eq, resolve_eq]
  exact (Lasts.mapM (Symbol.resolve_lasts h) form.symbols).map _

namespace Line

variable {reducer : Reducer} {line : Line}

theorem reduceWith_lasts (h : store.Extends computes store') (reducer : Reducer) (line : Line) :
    Lasts (line.reduceWith reducer store).1 (line.reduceWith reducer store').1 := by
  have hresolve : Lasts (line.resolve store) (line.resolve store') := by
    unfold resolve
    split
    · exact .refl _
    · exact (Form.resolve_lasts h line.form).map _
  unfold reduceWith
  rcases hresolve with heq | ⟨name, hname⟩
  · rw [heq]
    exact .refl _
  · rw [hname]
    exact .inr ⟨name, rfl⟩

/-- A statement that came to a value has its name in the store. -/
theorem mem_of_evaluate (htarget : line.form.TargetFits) {target : String} {value : Value}
    (hassigned : line.form.assigned? = some target)
    (hresult : (line.evaluate reducer store).result = .ok value) :
    target ∈ (line.evaluate reducer store).store.entries := by
  rw [(evaluate_store_eq htarget).1, hresult]
  cases hform : line.form with
  | plain | call =>
    rw [hform] at hassigned
    cases hassigned
  | scalarAssign | arrayAssign =>
    rw [hform] at hassigned
    cases hassigned
    exact Std.ExtTreeMap.mem_insert_self

/-- The later evaluation is in a store that the one after the first has grown into. -/
theorem evaluate_recurs (htarget : line.form.TargetFits) (h : store.Extends computes store')
    (hafter : (line.evaluate reducer store).store.Extends computes store') :
    Recurs line.form.assigned? (line.evaluate reducer store).result
      (line.evaluate reducer store').result := by
  have htaken {target : String} (hassigned : line.form.assigned? = some target) {value : Value}
      (hresult : (line.evaluate reducer store).result = .ok value) : target ∈ store'.entries :=
    hafter.mem (mem_of_evaluate htarget hassigned hresult)
  have hreduce := reduceWith_lasts h reducer line
  rw [evaluate_result] at htaken
  rw [evaluate_result, evaluate_result]
  cases hform : line.form with
  | plain symbols => exact .of_lasts (hreduce.map _)
  | scalarAssign target symbols =>
    rw [hform] at htaken
    dsimp only at htaken ⊢
    rcases hreduce with heq | ⟨name, hname⟩
    · rw [heq]
      cases hnumber : (line.reduceWith reducer store).1 with
      | error e => exact .of_error e
      | ok n =>
        rw [hnumber] at htaken
        exact .of_register h (htaken rfl)
    · rw [hname]
      refine ⟨fun hfirst hfound => ?_, fun hfirst => nomatch hfirst⟩
      cases hfirst
      exact absurd rfl (hfound name)
  | arrayAssign target payload =>
    rw [hform] at htaken
    exact .of_register h (htaken rfl)
  | call target argument =>
    have hfunction : store.functions[target]? = store'.functions[target]? := by
      rw [h.functions]
    dsimp only
    rw [Store.hasFunction_congr hfunction]
    refine .of_lasts (Lasts.map _ ?_)
    split
    · refine (h.arguments_lasts argument).bind fun arguments => ?_
      rw [Store.call_congr hfunction]
      exact .refl _
    · exact .refl _

end Line

end Statements

theorem evaluateStatement_recurs {reducer : Reducer} {store store' : Store} {statement : String}
    (h : (evaluateStatement reducer store statement).2.Extends (reducer = reduce) store') :
    Recurs (assignedBy statement) (evaluateStatement reducer store statement).1
      (evaluateStatement reducer store' statement).1 := by
  have hbefore := (evaluateStatement_extends reducer store statement).trans h
  unfold evaluateStatement at h ⊢
  cases hparse : Line.parse statement with
  | error e => exact .of_error e
  | ok line =>
    rw [hparse] at h
    rw [assignedBy_eq hparse]
    exact Line.evaluate_recurs (Line.parse_wellFormed hparse).target hbefore h

/-! ## Statements made twice in a script -/

namespace Script

variable {reducer : Reducer} {store : Store}

/-- Every outcome is the one of its statement in some store that the first one grew
into. -/
theorem exists_store_of_mem {statements : List Statement} {outcome : Outcome}
    (h : outcome ∈ (runStatements reducer store statements).1) :
    ∃ grown, store.Extends (reducer = reduce) grown ∧
      outcome.result = (evaluateStatement reducer grown outcome.statement.text).1 := by
  induction statements generalizing store with
  | nil => cases h
  | cons statement rest ih =>
    rw [runStatements_cons] at h
    rcases List.mem_cons.mp h with h | h
    · exact ⟨store, .refl _ store, by rw [h]⟩
    · obtain ⟨grown, hgrown, hresult⟩ := ih h
      exact ⟨grown, (evaluateStatement_extends reducer store statement.text).trans hgrown, hresult⟩

theorem runStatements_recurs (reducer : Reducer) (store : Store) (statements : List Statement) :
    (runStatements reducer store statements).1.Pairwise fun first later =>
      first.statement.text = later.statement.text →
        Recurs (assignedBy first.statement.text) first.result later.result := by
  induction statements generalizing store with
  | nil => exact .nil
  | cons statement rest ih =>
    rw [runStatements_cons]
    refine .cons (fun later hlater htext => ?_) (ih _)
    obtain ⟨grown, hgrown, hresult⟩ := exists_store_of_mem hlater
    dsimp only at htext ⊢
    rw [hresult, ← htext]
    exact evaluateStatement_recurs hgrown

/-- **Repeated statements**: of two statements of a script with the same text, the
later one comes to the same as the earlier one, but for the names that the earlier
one missed or registered. -/
theorem run_recurs {source : String} {i j : Nat} {first later : Outcome}
    (hfirst : (run reducer store source).1[i]? = some first)
    (hlater : (run reducer store source).1[j]? = some later) (hij : i < j)
    (htext : first.statement.text = later.statement.text) :
    Recurs (assignedBy first.statement.text) first.result later.result := by
  obtain ⟨hi, rfl⟩ := List.getElem?_eq_some_iff.mp hfirst
  obtain ⟨hj, rfl⟩ := List.getElem?_eq_some_iff.mp hlater
  have hpairs : (run reducer store source).1.Pairwise _ :=
    runStatements_recurs reducer store (statements source)
  exact List.pairwise_iff_getElem.mp hpairs i j hi hj hij htext

/-- An assignment that is repeated after a statement that missed a name and another
assignment. -/
theorem run_recurs_assignment :
    let outcomes := (run reduce .withBuiltins
      "$X=( 1 / 4 )\n$Y * $X\n$Y=( $X - 1 )\n$X=( 1 / 4 )").1
    ∃ first later, outcomes[0]? = some first ∧ outcomes[3]? = some later ∧
      first.statement.text = later.statement.text ∧
      Recurs (some "$X") first.result later.result ∧
      later.result = .error (.duplicateName "$X") := by
  intro outcomes
  have hi : (outcomes[0]?.map fun o => (o.statement.text, o.result.toOption)) =
      some ("$X=( 1 / 4 )", some (.number (Decimal.toBinary64 false ⟨25, -2⟩))) := by decide +kernel
  have hj : (outcomes[3]?.map fun o => o.statement.text) = some "$X=( 1 / 4 )" := by decide +kernel
  have hassigned : assignedBy "$X=( 1 / 4 )" = some "$X" := by decide +kernel
  obtain ⟨first, hfirst, heq⟩ := Option.map_eq_some_iff.mp hi
  obtain ⟨later, hlater, htext⟩ := Option.map_eq_some_iff.mp hj
  obtain ⟨hstatement, hvalue⟩ := Prod.mk.inj heq
  have hsame : first.statement.text = later.statement.text := hstatement.trans htext.symm
  have hrecurs := run_recurs hfirst hlater (by decide) hsame
  rw [hstatement, hassigned] at hrecurs
  exact ⟨first, later, hfirst, hlater, hsame, hrecurs, hrecurs.value (eq_ok_of_toOption hvalue)⟩

end Script

end ArithScript
