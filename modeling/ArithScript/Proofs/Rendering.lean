import ArithScript.Proofs.Lines
import ArithScript.Proofs.NumberText
import ArithScript.Proofs.Reduction

/-!
# Rendered lines keep their value

What is evaluated of an expression line is the renderings of its symbols with
nothing between them. When operands and operators take turns and every operand
has the text of a number, the lexer finds them all again in this text, so the
line comes to the value that its symbols have one by one
(`Line.reduce_rendered`).
-/

namespace ArithScript

open Grammar

/-! ## Expressions with other operands -/

namespace Grammar.Expression

variable {α β γ : Type}

theorem map_term_congr {f g : α → β} {t : Term α}
    (h : ∀ x ∈ t.spell (fun x => [x]) fun _ => [], f x = g x) : t.map f = t.map g := by
  have hfirst : f t.first = g t.first := h t.first (List.mem_append_left _ List.mem_cons_self)
  have hrest : ∀ step ∈ t.rest, f step.2 = g step.2 := by
    intro step hstep
    apply h
    refine List.mem_append_right _ (List.mem_flatMap.mpr ⟨step, hstep, ?_⟩)
    exact List.mem_singleton_self step.2
  rw [Term.map, Term.map, hfirst]
  refine congrArg (Term.mk _) (List.map_congr_left ?_)
  intro step hstep
  exact congrArg (Prod.mk step.1) (hrest step hstep)

theorem map_congr {f g : α → β} {e : Expression α} (h : ∀ x ∈ e.operands, f x = g x) :
    e.map f = e.map g := by
  have hfirst : e.first.map f = e.first.map g :=
    map_term_congr fun x hx => h x (List.mem_append_left _ hx)
  have hrest : ∀ step ∈ e.rest, step.2.map f = step.2.map g := by
    intro step hstep
    apply map_term_congr
    intro x hx
    apply h
    exact List.mem_append_right _ (List.mem_flatMap.mpr ⟨step, hstep, hx⟩)
  rw [map, map, hfirst]
  refine congrArg (Expression.mk _) (List.map_congr_left ?_)
  intro step hstep
  exact congrArg (Prod.mk step.1) (hrest step hstep)

theorem operands_eq (e : Expression α) :
    e.operands = e.chain.first :: e.chain.rest.map Prod.snd := by
  rw [operands, ← spell_chain, Chain.spell, List.map_eq_flatMap]
  rfl

theorem spell_eq (operator : Operator → List α) (e : Expression α) :
    e.spell (fun x => [x]) operator =
      e.chain.first :: e.chain.rest.flatMap fun step => operator step.1 ++ [step.2] := by
  rw [← spell_chain]
  rfl

theorem mem_spell_of_mem_operands {operator : Operator → List α} {e : Expression α} {x : α}
    (h : x ∈ e.operands) : x ∈ e.spell (fun x => [x]) operator := by
  rw [operands_eq] at h
  rw [spell_eq]
  rcases List.mem_cons.mp h with rfl | h
  · exact List.mem_cons_self
  · obtain ⟨step, hstep, rfl⟩ := List.mem_map.mp h
    refine List.mem_cons_of_mem _ (List.mem_flatMap.mpr ⟨step, hstep, ?_⟩)
    exact List.mem_append_right _ (List.mem_singleton_self _)

theorem mem_spell {operator : Operator → List α} {e : Expression α} {x : α}
    (h : x ∈ e.spell (fun x => [x]) operator) : x ∈ e.operands ∨ ∃ op, x ∈ operator op := by
  rw [spell_eq] at h
  rw [operands_eq]
  rcases List.mem_cons.mp h with rfl | h
  · exact .inl List.mem_cons_self
  · obtain ⟨step, hstep, hx⟩ := List.mem_flatMap.mp h
    rcases List.mem_append.mp hx with hx | hx
    · exact .inr ⟨step.1, hx⟩
    · cases List.mem_singleton.mp hx
      exact .inl (List.mem_cons_of_mem _ (List.mem_map_of_mem hstep))

theorem spell_map (f : α → β) (operand : β → List γ) (operator : Operator → List γ)
    (e : Expression α) :
    (e.map f).spell operand operator = e.spell (fun x => operand (f x)) operator := by
  simp only [spell, map, Term.spell, Term.map, List.flatMap_map]

theorem value_map (f : α → β) (value : β → Binary64) (e : Expression α) :
    (e.map f).value value = e.value fun x => value (f x) := by
  simp only [Expression.value, map, Term.value, Term.map, List.foldl_map]

theorem dividesByZero_map (f : α → β) (value : β → Binary64) (e : Expression α) :
    (e.map f).dividesByZero value = e.dividesByZero fun x => value (f x) := by
  simp only [dividesByZero, map, Term.dividesByZero, Term.map, List.any_map, Function.comp_def]

theorem outcome_map (f : α → β) (value : β → Binary64) (text : String) (e : Expression α) :
    (e.map f).outcome value text = e.outcome (fun x => value (f x)) text := by
  simp only [outcome, value_map, dividesByZero_map]

theorem outcome_congr {value value' : α → Binary64} {e : Expression α}
    (h : ∀ x ∈ e.operands, value x = value' x) (text : String) :
    e.outcome value text = e.outcome value' text := by
  have hmap := congrArg (fun e => e.outcome id text) (map_congr h)
  simpa only [outcome_map, id] using hmap

theorem spell_congr {operand operand' : α → List γ} {operator : Operator → List γ}
    {e : Expression α} (h : ∀ x ∈ e.operands, operand x = operand' x) :
    e.spell operand operator = e.spell operand' operator := by
  have hmap := congrArg (fun e => e.spell id operator) (map_congr h)
  simpa only [spell_map, id] using hmap

end Grammar.Expression

/-! ## Operands of a line -/

namespace Line

/-- The text that a reference of the line stands for: the one that it was
resolved to, if it was, or else the value that the store has for its name. -/
def textOf (store : Store) (line : Line) (r : Reference) : Option String :=
  if line.resolved then r.value else (store.value r.name).toOption

/-- The symbol is an operand of the line, with this number for its value: a
literal, or a reference to the text of a number. -/
inductive Denotes (store : Store) (line : Line) : Symbol → Binary64 → Prop
  | number (x : Binary64) : Denotes store line (.number x) x
  | reference {s : Symbol} {r : Reference} (o : Operand) (hr : s.reference? = some r)
      (htext : line.textOf store r = some (String.ofList o.text)) :
      Denotes store line s o.value

/-- The symbol as the resolved line has it. -/
def settle (store : Store) (line : Line) : Symbol → Symbol
  | .scalar r => .scalar ⟨r.name, line.textOf store r⟩
  | .element r => .element ⟨r.name, line.textOf store r⟩
  | s => s

variable {store : Store} {line : Line}

theorem value_of_textOf {r : Reference} {text : String} (hresolved : line.resolved = false)
    (h : line.textOf store r = some text) : store.value r.name = .ok text := by
  rw [textOf, hresolved, if_neg Bool.false_ne_true] at h
  cases hvalue : store.value r.name with
  | error e =>
    rw [hvalue] at h
    cases h
  | ok value =>
    rw [hvalue] at h
    cases h
    rfl

/-- Every reference of the line has a text in the store. -/
def Bound (store : Store) (line : Line) : Prop :=
  ∀ s ∈ line.form.symbols, ∀ r, s.reference? = some r → ∃ text, line.textOf store r = some text

theorem resolve_symbol {s : Symbol} (hresolved : line.resolved = false)
    (h : ∀ r, s.reference? = some r → ∃ text, line.textOf store r = some text) :
    s.resolve store = .ok (line.settle store s) := by
  cases s with
  | number x => rfl
  | operator token => rfl
  | scalar r =>
    obtain ⟨text, htext⟩ := h r rfl
    simp only [Symbol.resolve, settle, value_of_textOf hresolved htext, htext, Except.map]
  | element r =>
    obtain ⟨text, htext⟩ := h r rfl
    simp only [Symbol.resolve, settle, value_of_textOf hresolved htext, htext, Except.map]

theorem settle_resolved (hresolved : line.resolved = true) (s : Symbol) :
    line.settle store s = s := by
  cases s <;> simp [settle, textOf, hresolved]

/-- A line whose references have texts gets resolved, and to these texts. -/
theorem exists_resolve (hsymbols : line.form.symbols ≠ []) (hbound : line.Bound store) :
    ∃ resolved, line.resolve store = .ok resolved ∧ resolved.resolved = true ∧
      resolved.form.symbols = line.form.symbols.map (line.settle store) := by
  cases hresolved : line.resolved with
  | true =>
    refine ⟨line, by rw [resolve, hresolved, if_pos rfl], hresolved, ?_⟩
    rw [List.map_congr_left fun s _ => settle_resolved hresolved s, List.map_id']
  | false =>
    have hform := line.form.resolve_eq store
    rw [mapM_ok fun s hs => resolve_symbol hresolved (hbound s hs)] at hform
    refine ⟨⟨line.form.withSymbols (line.form.symbols.map (line.settle store)), true⟩, ?_, rfl,
      Form.withSymbols_symbols hsymbols⟩
    rw [resolve, hresolved, if_neg Bool.false_ne_true, hform]
    rfl

theorem evaluationText_eq (hresolved : line.resolved = true) (hsymbols : line.form.symbols ≠ []) :
    line.evaluationText = .ok (String.join (line.form.symbols.map Symbol.rendered)) :=
  evaluationText_of_resolved (Form.payload?_eq_none hsymbols) hresolved

/-- The text that an expression line is evaluated as. -/
def expressionText (store : Store) (line : Line) : String :=
  String.join (line.form.symbols.map fun s => (line.settle store s).rendered)

theorem toList_expressionText : (line.expressionText store).toList =
    line.form.symbols.flatMap fun s => (line.settle store s).rendered.toList := by
  rw [expressionText, String.toList_join, List.flatMap_map]

theorem exists_expressionText (hsymbols : line.form.symbols ≠ []) (hbound : line.Bound store) :
    ∃ resolved, line.resolve store = .ok resolved ∧
      resolved.evaluationText = .ok (line.expressionText store) := by
  obtain ⟨resolved, hresolve, hflag, hsettled⟩ := exists_resolve hsymbols hbound
  have hne : resolved.form.symbols ≠ [] := by
    rw [hsettled]
    exact fun h => hsymbols (List.map_eq_nil_iff.mp h)
  refine ⟨resolved, hresolve, ?_⟩
  rw [evaluationText_eq hflag hne, hsettled, List.map_map]
  rfl

/-! ## Lines of alternating symbols -/

theorem exists_operand {s : Symbol} {x : Binary64} (hphase : s.InPhase line.resolved)
    (h : line.Denotes store s x) :
    ∃ o : Operand, (line.settle store s).rendered = String.ofList o.text ∧ o.value = x := by
  cases h with
  | number x =>
    obtain ⟨m, rfl⟩ := hphase
    obtain ⟨whole, fraction, htext, hvalue⟩ := exists_operand_of_text false m
    exact ⟨_, htext, hvalue.trans (unsignedZero_unsigned m)⟩
  | reference o hr htext =>
    refine ⟨o, ?_, rfl⟩
    cases s with
    | number | operator => cases hr
    | scalar r | element r =>
      cases hr
      simp only [settle, Symbol.rendered, htext, Option.getD_some]

theorem Denotes.exists_text {s : Symbol} {x : Binary64} (h : line.Denotes store s x) {r : Reference}
    (hr : s.reference? = some r) : ∃ text, line.textOf store r = some text := by
  cases h with
  | number x => cases hr
  | reference o hr' htext =>
    rw [hr] at hr'
    cases hr'
    exact ⟨_, htext⟩

theorem settle_operator (op : Operator) :
    (line.settle store (.operator op.toChar.toString)).rendered.toList = [op.toChar] :=
  String.toList_singleton _

theorem exists_operands (hline : line.WellFormed) {e : Expression Symbol}
    (hmem : ∀ s ∈ e.operands, s ∈ line.form.symbols) {value : Symbol → Binary64}
    (hvalue : ∀ s ∈ e.operands, line.Denotes store s (value s)) :
    ∃ operand : Symbol → Operand, ∀ s ∈ e.operands,
      (line.settle store s).rendered = String.ofList (operand s).text ∧
        (operand s).value = value s := by
  refine Classical.axiomOfChoice (r := fun s (o : Operand) => s ∈ e.operands →
    (line.settle store s).rendered = String.ofList o.text ∧ o.value = value s) ?_
  intro s
  by_cases hs : s ∈ e.operands
  · obtain ⟨o, ho⟩ := exists_operand (hline.symbols s (hmem s hs)) (hvalue s hs)
    exact ⟨o, fun _ => ho⟩
  · exact ⟨⟨none, .plain (.ofNat 0) none⟩, fun h => absurd h hs⟩

section Spells

variable {e : Expression Symbol} {value : Symbol → Binary64}

/-- Operands and operators take turns in the line, as in the expression. -/
def Spells (line : Line) (e : Expression Symbol) : Prop :=
  line.form.symbols = e.spell (fun s => [s]) fun op => [.operator op.toChar.toString]

theorem Spells.mem (h : line.Spells e) {s : Symbol} (hs : s ∈ e.operands) :
    s ∈ line.form.symbols := by
  rw [h]
  exact e.mem_spell_of_mem_operands hs

theorem Spells.ne_nil (h : line.Spells e) : line.form.symbols ≠ [] := by
  rw [h, e.spell_eq]
  exact List.cons_ne_nil _ _

theorem Spells.bound (h : line.Spells e)
    (hvalue : ∀ s ∈ e.operands, line.Denotes store s (value s)) : line.Bound store := by
  intro s hs r hr
  rw [h] at hs
  rcases e.mem_spell hs with hs | ⟨op, hs⟩
  · exact (hvalue s hs).exists_text hr
  · cases List.mem_singleton.mp hs
    cases hr

/-- The text of the line is derived by the tree of its operands. -/
theorem Spells.text_map (h : line.Spells e) {operand : Symbol → Operand}
    (hoperand : ∀ s ∈ e.operands,
      (line.settle store s).rendered = String.ofList (operand s).text) :
    (e.map operand).text = (line.expressionText store).toList := by
  rw [toList_expressionText, h, e.spell_flatMap, Expression.text, Expression.spell_map]
  simp only [List.flatMap_singleton, settle_operator]
  refine Expression.spell_congr fun s hs => ?_
  rw [hoperand s hs, String.toList_ofList]

/-- The text of the line comes to what its symbols come to one by one. -/
theorem Spells.reduce_expressionText (h : line.Spells e) (hline : line.WellFormed)
    (hvalue : ∀ s ∈ e.operands, line.Denotes store s (value s)) :
    reduce (line.expressionText store) = e.outcome value (line.expressionText store) := by
  obtain ⟨operand, hoperand⟩ := exists_operands hline (fun s hs => h.mem hs) hvalue
  have hderived : (e.map operand).text = (line.expressionText store).toList :=
    h.text_map fun s hs => (hoperand s hs).1
  rw [reduce_text hderived, Expression.outcome_map]
  exact Expression.outcome_congr (fun s hs => (hoperand s hs).2) _

end Spells

/-- Concatenated and reduced as a text, the symbols of a line come to what they
come to one by one. -/
theorem reduce_rendered (hline : line.Reachable) {e : Expression Symbol}
    (hsymbols : line.form.symbols =
      e.spell (fun s => [s]) fun op => [.operator op.toChar.toString])
    {value : Symbol → Binary64} (hvalue : ∀ s ∈ e.operands, line.Denotes store s (value s)) :
    ∃ resolved text, line.resolve store = .ok resolved ∧ resolved.evaluationText = .ok text ∧
      reduce text = e.outcome value text := by
  have hspells : line.Spells e := hsymbols
  obtain ⟨resolved, hresolve, htext⟩ := exists_expressionText hspells.ne_nil (hspells.bound hvalue)
  exact ⟨resolved, _, hresolve, htext, hspells.reduce_expressionText hline.wellFormed hvalue⟩

/-- A minus sign of a stored text stands next to the operator. -/
theorem reduce_rendered_negative :
    let store : Store := ⟨.ofList [("$X", Entry.scalar "-3"), ("@B", Entry.array ["7", "2"])], ∅⟩
    let line : Line := ⟨.plain [.number (.ofNat 1), .operator "-", .scalar ⟨"$X", none⟩,
      .operator "/", .element ⟨"B[1]", none⟩], false⟩
    line.Reachable ∧ ∃ resolved text, line.resolve store = .ok resolved ∧
      resolved.evaluationText = .ok text ∧
      reduce text = .ok (Decimal.toBinary64 false ⟨25, -1⟩) := by
  intro store line
  have hparse : Line.parse "1 - $X / B[1]" = .ok line := eq_ok_of_toOption (by decide +kernel)
  have hline : line.Reachable := .parse hparse
  have hvalue : ∀ s ∈ [Symbol.number (.ofNat 1), .scalar ⟨"$X", none⟩, .element ⟨"B[1]", none⟩],
      line.Denotes store s (match s with
        | .number x => x
        | .scalar _ => Operand.value ⟨some .minus, .plain (.ofNat 3) none⟩
        | _ => Operand.value ⟨none, .plain (.ofNat 2) none⟩) := by
    intro s hs
    simp only [List.mem_cons, List.not_mem_nil, or_false] at hs
    rcases hs with rfl | rfl | rfl
    · exact .number _
    · exact .reference _ rfl (by rfl)
    · exact .reference _ rfl (by rfl)
  obtain ⟨resolved, text, hresolve, htext, hreduce⟩ := @reduce_rendered store line hline
    ⟨⟨.number (.ofNat 1), []⟩,
      [(.sub, ⟨.scalar ⟨"$X", none⟩, [(.div, .element ⟨"B[1]", none⟩)]⟩)]⟩ (by rfl) _ hvalue
  refine ⟨hline, resolved, text, hresolve, htext, hreduce.trans ?_⟩
  rw [outcome_eq_ok]
  decide +kernel

end Line

end ArithScript
