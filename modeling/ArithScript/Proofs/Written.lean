import ArithScript.Proofs.Printing

/-!
# Statements written token by token

An expression can be written down from its symbols: two texts that are cut into symbols are
one such text with a space between them (`Line.Written.append`). What is written in this way
is parsed as the expression of its symbols, on its own and in the brackets of an assignment.
-/

namespace ArithScript

theorem Shape.trim_eq {shape : Shape} {statement : String} (h : shape.text = statement.toList) :
    Text.trim statement = statement := by
  have htrimmed := shape.trimmed_text
  rw [h] at htrimmed
  exact htrimmed.trim_eq

namespace Line

/-- A text on one line, without blanks at its ends, that is cut into these symbols. -/
structure Written (text : String) (symbols : List Symbol) : Prop where
  tokens : Tokens text symbols
  trimmed : Text.Trimmed text.toList
  oneLine : '\n' ∉ text.toList

namespace Written

variable {text text' : String} {symbols symbols' : List Symbol}

/-- A token without blanks in it. -/
theorem single {s : Symbol} (hvisible : ∀ c ∈ text.toList, Text.isBlank c = false)
    (h : Symbol.classify text = .ok s) : Written text [s] where
  tokens := .single (fun hspace => absurd (hvisible ' ' hspace) (by decide)) h
  trimmed := Text.trimmed_of_forall hvisible
  oneLine hbreak := absurd (hvisible '\n' hbreak) (by decide)

/-- An operator on its own. -/
theorem operator (op : Operator) (h : text.toList = [op.toChar]) :
    Written text [.operator text] := by
  obtain rfl : text = String.ofList [op.toChar] := by rw [← h, String.ofList_toList]
  cases op <;> exact single (List.forall_mem_singleton.mpr (by decide)) (by rfl)

theorem toList_ne_nil (h : Written text symbols) : text.toList ≠ [] := by
  intro hnil
  obtain rfl : text = "" := String.toList_inj.mp hnil
  exact h.tokens.nonempty (by decide)

theorem append (h : Written text symbols) (h' : Written text' symbols') :
    Written (text ++ " " ++ text') (symbols ++ symbols') := by
  refine ⟨h.tokens.append h'.tokens, ?_, ?_⟩
  · rw [String.toList_append, String.toList_append]
    exact h.trimmed.append h'.trimmed h.toList_ne_nil h'.toList_ne_nil
  · rw [String.toList_append, String.toList_append, List.mem_append, List.mem_append]
    rintro ((hbreak | hbreak) | hbreak)
    · exact h.oneLine hbreak
    · exact absurd hbreak (by decide)
    · exact h'.oneLine hbreak

theorem parse (h : Written text symbols) : parse text = .ok ⟨.plain symbols, false⟩ := by
  rw [parse_eq_ok_iff, h.trimmed.trim_eq]
  exact ⟨rfl, .plain h.tokens.shapeless h.tokens⟩

theorem parse_assignment (h : Written text symbols) (name : Letters) :
    Line.parse (name.named '$' ++ "=( " ++ text ++ " )") =
      .ok ⟨.scalarAssign (name.named '$') symbols, false⟩ := by
  let body : Body := ⟨text.toList, h.toList_ne_nil, h.oneLine⟩
  have hbody : String.ofList body.chars = text := String.ofList_toList
  have hshape : (Shape.scalarAssign name body).text =
      (name.named '$' ++ "=( " ++ text ++ " )").toList := by
    simp [Shape.text, Shape.bracketed, Letters.toList_named, body]
  rw [parse_eq_ok_iff, Shape.trim_eq hshape]
  exact ⟨rfl, .scalarAssign hshape (by rw [hbody]; exact h.tokens)⟩

end Written

end Line

end ArithScript
