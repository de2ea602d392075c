import ArithScript.Proofs.Printing

/-!
# The two phases of a line

A line is as it was parsed until a call resolves it, and from then on it is what that
call made of it. So whatever is called on a line, and in whatever stores, its references
have no values, or all of them have the values of one store: that of the first call that
resolved the line (`FirstResolved`). The text that is evaluated exists from this call on,
is the same for good, and is made of these values alone (`Line.afterCalls_phases`).
-/

namespace ArithScript

/-! ## What resolution keeps -/

/-- The forms are written in the same way: they have the same kind, target and payload,
and their symbols the same sources. -/
structure Form.SameSource (form form' : Form) : Prop where
  kind : form'.kind = form.kind
  target : form'.target? = form.target?
  payload : form'.payload? = form.payload?
  sources : form'.symbols.map Symbol.source = form.symbols.map Symbol.source

namespace Form

theorem SameSource.refl (form : Form) : form.SameSource form := ⟨rfl, rfl, rfl, rfl⟩

theorem resolve_sameSource {store : Store} {form form' : Form}
    (h : form.resolve store = .ok form') : form.SameSource form' := by
  obtain ⟨hsymbols, hform⟩ := resolve_eq_ok h
  refine ⟨?_, ?_, ?_, map_source_of_resolve hsymbols⟩
  all_goals
    rw [hform]
    cases form <;> rfl

end Form

/-! ## Values of references -/

/-- The reference has the value that its name has in the store. -/
def Reference.Carries (store : Store) (r : Reference) : Prop :=
  ∃ value, store.value r.name = .ok value ∧ r.value = some value

/-- The text that a symbol adds to the evaluated one if its name is read in the store. -/
inductive Symbol.Shows (store : Store) : Symbol → String → Prop
  | number (x : Binary64) : Shows store (.number x) x.text
  | operator (token : String) : Shows store (.operator token) token
  | scalar {r : Reference} {text : String} (value : store.value r.name = .ok text) :
    Shows store (.scalar r) text
  | element {r : Reference} {text : String} (value : store.value r.name = .ok text) :
    Shows store (.element r) text

namespace Symbol

variable {store : Store} {s s' : Symbol}

theorem resolve_carries (h : s.resolve store = .ok s') {r : Reference}
    (hr : s'.reference? = some r) : r.Carries store := by
  rcases resolve_cases h with ⟨hnone, rfl⟩ | ⟨r', value, hvalue, ⟨-, rfl⟩ | ⟨-, rfl⟩⟩
  · rw [hnone] at hr
    cases hr
  · cases hr
    exact ⟨value, hvalue, rfl⟩
  · cases hr
    exact ⟨value, hvalue, rfl⟩

theorem resolve_shows (h : s.resolve store = .ok s') : s.Shows store s'.rendered := by
  rcases resolve_cases h with ⟨hnone, rfl⟩ | ⟨r, value, hvalue, ⟨rfl, rfl⟩ | ⟨rfl, rfl⟩⟩
  · cases s' with
    | number x => exact .number x
    | operator token => exact .operator token
    | scalar r => cases hnone
    | element r => cases hnone
  · exact .scalar hvalue
  · exact .element hvalue

theorem InPhase.value_eq_none (h : s.InPhase false) {r : Reference}
    (hr : s.reference? = some r) : r.value = none := by
  cases s with
  | number | operator => cases hr
  | scalar | element =>
    cases hr
    exact Option.isNone_iff_eq_none.mp (Option.isSome_eq_false_iff.mp h)

end Symbol

namespace Line

/-! ## Calls -/

/-- What can be called on a line: its uses, and the two ways to ask for the text that is
evaluated. The stores of two calls need have nothing to do with each other. -/
inductive Call where
  | use (use : Use)
  | text
  | resolvedText (store : Store)

/-- The line after a call. -/
def afterCall (line : Line) : Call → Line
  | .use u => line.use u
  | .text => line
  | .resolvedText store => (line.resolvedText store).2

/-- The line after the calls, one after the other. -/
def afterCalls (line : Line) (calls : List Call) : Line := calls.foldl afterCall line

/-- The store in which the call tries to resolve a line of the form. An evaluation does
not if the form has a payload. -/
def Call.store? (form : Form) : Call → Option Store
  | .use (.resolve store) => some store
  | .use (.evaluate _ store) => form.payload?.elim (some store) fun _ => none
  | .text => none
  | .resolvedText store => some store

/-- The stores in which the calls try to resolve the line, in order. -/
def attempts (line : Line) (calls : List Call) : List Store :=
  calls.filterMap (Call.store? line.form)

/-- The first of the calls that resolve the line does so in the store, and makes it
`resolved`. -/
def FirstResolved (line : Line) (calls : List Call) (store : Store) (resolved : Line) : Prop :=
  ∃ before after, line.attempts calls = before ++ store :: after ∧
    (∀ earlier ∈ before, ∃ error, line.resolve earlier = .error error) ∧
    line.resolve store = .ok resolved

variable {store : Store} {line resolved : Line}

/-! ## One call -/

/-- A call does nothing to a line but to try to resolve it. -/
theorem afterCall_eq (line : Line) (c : Call) :
    line.afterCall c = (c.store? line.form).elim line fun store => line.use (.resolve store) := by
  match c with
  | .use (.resolve store) => rfl
  | .use (.evaluate reducer store) =>
    rw [afterCall, use, evaluate_line_eq, Call.store?]
    cases line.form.payload? <;> rfl
  | .text => rfl
  | .resolvedText store => exact resolvedText_line store line

theorem resolve_of_resolved (h : line.resolved = true) (store : Store) :
    line.resolve store = .ok line := by
  rw [resolve, if_pos h]

theorem afterCall_of_resolved (h : line.resolved = true) (c : Call) : line.afterCall c = line := by
  rw [afterCall_eq]
  cases c.store? line.form with
  | none => rfl
  | some store => rw [Option.elim_some, use, resolve_of_resolved h]

/-! ## A run of calls -/

theorem afterCalls_cons (line : Line) (c : Call) (calls : List Call) :
    line.afterCalls (c :: calls) = (line.afterCall c).afterCalls calls := rfl

theorem afterCalls_of_resolved (h : line.resolved = true) (calls : List Call) :
    line.afterCalls calls = line := by
  induction calls with
  | nil => rfl
  | cons c calls ih => rw [afterCalls_cons, afterCall_of_resolved h, ih]

/-- No call has resolved the line, which is as it was, or the first one that has done so
made it what it is. -/
theorem afterCalls_cases (line : Line) (calls : List Call) :
    (line.afterCalls calls = line ∧
      ∀ store ∈ line.attempts calls, ∃ error, line.resolve store = .error error) ∨
      ∃ store, line.FirstResolved calls store (line.afterCalls calls) := by
  induction calls with
  | nil => exact .inl ⟨rfl, fun _ h => nomatch h⟩
  | cons c calls ih =>
    unfold FirstResolved at ih ⊢
    rw [afterCalls_cons, afterCall_eq]
    cases hstore : c.store? line.form with
    | none =>
      rw [attempts, List.filterMap_cons_none hstore]
      exact ih
    | some store =>
      rw [attempts, List.filterMap_cons_some hstore, Option.elim_some, use]
      cases hresolve : line.resolve store with
      | error error =>
        refine ih.imp ?_ ?_
        · rintro ⟨hline, hfailed⟩
          exact ⟨hline, List.forall_mem_cons.mpr ⟨⟨error, hresolve⟩, hfailed⟩⟩
        · rintro ⟨first, before, after, hsplit, hfailed, hfirst⟩
          exact ⟨first, store :: before, after, congrArg (store :: ·) hsplit,
            List.forall_mem_cons.mpr ⟨⟨error, hresolve⟩, hfailed⟩, hfirst⟩
      | ok resolved =>
        refine .inr ⟨store, [], line.attempts calls, rfl, List.forall_mem_nil _, ?_⟩
        dsimp only
        rw [hresolve, afterCalls_of_resolved (resolved_of_resolve hresolve)]

/-! ## The text of a resolved line -/

/-- Of an expression there is a text to evaluate once it is resolved. -/
theorem exists_evaluationText_iff (hpayload : line.form.payload? = none) :
    (∃ text, line.evaluationText = .ok text) ↔ line.resolved = true := by
  constructor
  · rintro ⟨text, htext⟩
    unfold evaluationText at htext
    cases hform : line.form with
    | plain | scalarAssign =>
      rw [hform] at htext
      dsimp only at htext
      split at htext
      · next hresolved => exact hresolved
      · cases htext
    | arrayAssign | call =>
      rw [hform] at hpayload
      cases hpayload
  · intro hresolved
    exact ⟨_, evaluationText_of_resolved hpayload hresolved⟩

theorem resolvedText_of_resolved (h : line.resolved = true) (store : Store) :
    line.resolvedText store = (line.evaluationText, line) := by
  rw [resolvedText, resolve_of_resolved h]

/-- The text of a line is made of what its symbols show in the store that resolved it. -/
theorem exists_shown (hline : line.resolved = false) (hpayload : line.form.payload? = none)
    (h : line.resolve store = .ok resolved) :
    ∃ shown, List.Forall₂ (Symbol.Shows store) line.form.symbols shown ∧
      resolved.evaluationText = .ok (String.join shown) := by
  rcases resolve_cases h with ⟨hresolved, -⟩ | ⟨-, form, hform, rfl⟩
  · rw [hline] at hresolved
    cases hresolved
  · refine ⟨form.symbols.map Symbol.rendered, ?_, evaluationText_of_resolved ?_ rfl⟩
    · rw [List.forall₂_map_right_iff]
      exact (forall₂_of_mapM (Form.resolve_eq_ok hform).1).imp fun _ _ => Symbol.resolve_shows
    · exact (Form.resolve_sameSource hform).payload.trans hpayload

theorem resolve_sameSource (h : line.resolve store = .ok resolved) :
    line.form.SameSource resolved.form := by
  rcases resolve_cases h with ⟨-, rfl⟩ | ⟨-, form, hform, rfl⟩
  · exact .refl resolved.form
  · exact Form.resolve_sameSource hform

theorem afterCalls_sameSource (line : Line) (calls : List Call) :
    line.form.SameSource (line.afterCalls calls).form := by
  rcases line.afterCalls_cases calls with ⟨hline, -⟩ | ⟨store, before, after, -, -, hresolve⟩
  · rw [hline]
    exact .refl line.form
  · exact resolve_sameSource hresolve

theorem carries_of_resolve (hline : line.resolved = false) (h : line.resolve store = .ok resolved)
    {s : Symbol} (hs : s ∈ resolved.form.symbols) {r : Reference} (hr : s.reference? = some r) :
    r.Carries store := by
  rcases resolve_cases h with ⟨hresolved, -⟩ | ⟨-, form, hform, rfl⟩
  · rw [hline] at hresolved
    cases hresolved
  · obtain ⟨s₀, -, hs₀⟩ := exists_of_mem_mapM (Form.resolve_eq_ok hform).1 hs
    exact Symbol.resolve_carries hs₀ hr

/-! ## The life of a line -/

/-- **The two phases of a line**: whatever is called on a parsed line, its kind, target,
payload and sources stay. Until a call resolves it, the line is as parsed; from then on it
does not change, and its references have the values of the store that resolved it. Of an
expression there is a text to evaluate exactly in the second phase, always the same one,
made of what the symbols show in that store. -/
theorem afterCalls_phases {statement : String} (h : parse statement = .ok line)
    (calls : List Call) :
    let later := line.afterCalls calls
    line.form.SameSource later.form ∧
      (later.resolved = false → later = line ∧
        (∀ store ∈ line.attempts calls, ∃ error, line.resolve store = .error error) ∧
        ∀ s ∈ later.form.symbols, ∀ r, s.reference? = some r → r.value = none) ∧
      (later.resolved = true → (∃ store, line.FirstResolved calls store later ∧
        (∀ s ∈ later.form.symbols, ∀ r, s.reference? = some r → r.Carries store) ∧
        (line.form.payload? = none → ∃ shown,
          List.Forall₂ (Symbol.Shows store) line.form.symbols shown ∧
            later.evaluationText = .ok (String.join shown))) ∧
        ∀ more, later.afterCalls more = later) ∧
      (line.form.payload? = none →
        ((∃ text, later.evaluationText = .ok text) ↔ later.resolved = true) ∧
        ∀ text, later.evaluationText = .ok text → ∀ more store,
          (later.afterCalls more).resolvedText store = (.ok text, later)) := by
  intro later
  have hparsed : line.resolved = false := (parse_eq_ok_iff.mp h).1
  have hcases : (later = line ∧ _) ∨ ∃ store, line.FirstResolved calls store later :=
    line.afterCalls_cases calls
  have hsame : line.form.SameSource later.form := line.afterCalls_sameSource calls
  refine ⟨hsame, fun hlater => ?_, fun hlater => ⟨?_, afterCalls_of_resolved hlater⟩,
    fun hpayload => ?_⟩
  · rcases hcases with ⟨hline, hfailed⟩ | ⟨store, before, after, -, -, hresolve⟩
    · refine ⟨hline, hfailed, fun s hs r hr => ?_⟩
      rw [hline] at hs
      have hphase := (parse_wellFormed h).symbols s hs
      rw [hparsed] at hphase
      exact hphase.value_eq_none hr
    · rw [resolved_of_resolve hresolve] at hlater
      cases hlater
  · rcases hcases with ⟨hline, -⟩ | ⟨store, hfirst⟩
    · rw [hline, hparsed] at hlater
      cases hlater
    · obtain ⟨before, after, -, -, hresolve⟩ := id hfirst
      exact ⟨store, hfirst, fun s hs r hr => carries_of_resolve hparsed hresolve hs hr,
        fun hpayload => exists_shown hparsed hpayload hresolve⟩
  · have htext : (∃ text, later.evaluationText = .ok text) ↔ later.resolved = true :=
      exists_evaluationText_iff (hsame.payload.trans hpayload)
    refine ⟨htext, fun text hlater more store => ?_⟩
    have hresolved := htext.mp ⟨text, hlater⟩
    rw [afterCalls_of_resolved hresolved, resolvedText_of_resolved hresolved, hlater]

/-- A text is asked for and a name is missed before the line is resolved by an evaluation
that fails, and afterwards the name has another value. -/
theorem afterCalls_phases_duplicate :
    let line : Line := ⟨.scalarAssign "$Y" [.scalar ⟨"$X", none⟩, .operator "-",
      .number (.ofNat 1)], false⟩
    let store : Store := ⟨.ofList [("$X", Entry.scalar "-5"), ("$Y", Entry.scalar "0")], ∅⟩
    let changed : Store := ⟨.ofList [("$X", Entry.scalar "7")], ∅⟩
    let calls : List Call := [.text, .resolvedText .empty, .use (.evaluate reduce store),
      .use (.resolve changed), .use (.evaluate reduce changed)]
    let later := line.afterCalls calls
    parse "$Y=( $X - 1 )" = .ok line ∧
      (line.evaluate reduce store).result = .error (.duplicateName "$Y") ∧
      (line.afterCalls [.text, .resolvedText .empty]) = line ∧
      later.evaluationText = .ok "-5-1" ∧ later.resolvedText changed = (.ok "-5-1", later) := by
  intro line store changed calls later
  have hparse : parse "$Y=( $X - 1 )" = .ok line := eq_ok_of_toOption (by decide +kernel)
  have htext : later.evaluationText = .ok "-5-1" := eq_ok_of_toOption (by decide +kernel)
  obtain ⟨-, hunresolved, -, -⟩ := afterCalls_phases hparse [.text, .resolvedText .empty]
  obtain ⟨-, -, -, hexpression⟩ := afterCalls_phases hparse calls
  exact ⟨hparse, by decide +kernel, (hunresolved (by decide +kernel)).1, htext,
    (hexpression rfl).2 "-5-1" htext [] changed⟩

end Line

end ArithScript
