import ArithScript.Proofs.Texts
import ArithScript.Text.Visible

/-!
# What a quoted name shows

A report that names a file shows the name with no invisible character in it, and no other name
is shown so (`Text.visiblyQuoted_faithful`).
-/

namespace ArithScript.Text

open Grammar

/-! ## Hexadecimal digits -/

theorem exists_of_mem_toDigits {c : Char} {n : Nat} (h : c ∈ Nat.toDigits 16 n) :
    ∃ d < 16, c = d.digitChar := by
  induction n using Nat.strongRecOn with
  | ind n ih =>
    by_cases hlt : n < 16
    · rw [Nat.toDigits_of_lt_base hlt] at h
      exact ⟨n, hlt, List.mem_singleton.mp h⟩
    · rw [Nat.toDigits_of_base_le (by decide) (Nat.not_lt.mp hlt)] at h
      rcases List.mem_append.mp h with h | h
      · exact ih (n / 16) (by omega) h
      · exact ⟨n % 16, Nat.mod_lt n (by decide), List.mem_singleton.mp h⟩

/-- The number that hexadecimal digits write. -/
def hexValue (cs : List Char) : Nat := cs.foldl (fun n c => 16 * n + hexDigit c) 0

theorem hexValue_toDigits (n : Nat) : hexValue (Nat.toDigits 16 n) = n := by
  induction n using Nat.strongRecOn with
  | ind n ih =>
    by_cases hlt : n < 16
    · rw [Nat.toDigits_of_lt_base hlt, hexValue, List.foldl_cons, List.foldl_nil,
        hexDigit_digitChar n hlt, Nat.mul_zero, Nat.zero_add]
    · have hlast := hexDigit_digitChar (n % 16) (Nat.mod_lt n (by decide))
      have hfirst := ih (n / 16) (by omega)
      rw [hexValue] at hfirst
      rw [Nat.toDigits_of_base_le (by decide) (Nat.not_lt.mp hlt), hexValue, List.foldl_concat,
        hfirst, hlast, Nat.div_add_mod]

/-! ## No invisible character -/

/-- Control characters are invisible. -/
theorem isInvisible_of_lt {c : Char} (h : c.toNat < 0x20) : isInvisible c = true := by
  unfold isInvisible invisibleRuns
  rw [List.any_cons, Bool.or_eq_true]
  left
  simp only [Bool.and_eq_true, decide_eq_true_eq]
  omega

theorem isInvisible_digitChar : ∀ d < 16, isInvisible d.digitChar = false := by
  decide

theorem isInvisible_visible (c : Char) : ∀ d ∈ visible c, isInvisible d = false := by
  have escape {d : Char} (hd : isInvisible d = false) : ∀ e ∈ ['\\', d], isInvisible e = false :=
    List.forall_mem_cons.mpr ⟨by decide, List.forall_mem_singleton.mpr hd⟩
  unfold visible
  split
  iterate 7 exact escape (by decide)
  · split
    · intro d hd
      simp only [List.mem_append, List.mem_cons, List.not_mem_nil, or_false] at hd
      rcases hd with ((rfl | rfl | rfl) | hd) | rfl
      · decide
      · decide
      · decide
      · obtain ⟨n, hn, rfl⟩ := exists_of_mem_toDigits hd
        exact isInvisible_digitChar n hn
      · decide
    · next hvisible => simpa using hvisible

theorem isInvisible_visiblyQuoted (text : String) :
    ∀ c ∈ (visiblyQuoted text).toList, isInvisible c = false := by
  rw [visiblyQuoted, String.toList_ofList]
  exact forall_mem_enclosed (by decide) isInvisible_visible text.toList

/-! ## No other name -/

/-- The character that stands behind a backslash in quotes, with what follows it. -/
def shownEscape? : List Char → Option (Char × List Char)
  | 'u' :: '\x7b' :: rest =>
    some (.ofNat (hexValue (rest.takeWhile (· != '\x7d'))), (rest.dropWhile (· != '\x7d')).tail)
  | '0' :: rest => some ('\x00', rest)
  | 't' :: rest => some ('\t', rest)
  | 'n' :: rest => some ('\n', rest)
  | 'r' :: rest => some ('\r', rest)
  | c :: rest => some (c, rest)
  | [] => none

/-- The character that is shown first, with what follows it. -/
def shown? : List Char → Option (Char × List Char)
  | c :: rest => if c = '\\' then shownEscape? rest else some (c, rest)
  | [] => none

theorem digitChar_ne : ∀ n < 16, (n.digitChar != '\x7d') = true := by
  decide

theorem shown?_visible (c : Char) (rest : List Char) :
    shown? (visible c ++ rest) = some (c, rest) := by
  unfold visible
  split
  iterate 7 rfl
  · next hbackslash _ _ _ _ =>
    split
    · have hclosing : NotStarting (· != '\x7d') ('\x7d' :: rest) := notStarting_cons.mpr (by decide)
      have hdigits : ∀ d ∈ Nat.toDigits 16 c.toNat, (d != '\x7d') = true := by
        intro d hd
        obtain ⟨n, hn, rfl⟩ := exists_of_mem_toDigits hd
        exact digitChar_ne n hn
      simp only [List.append_assoc, List.cons_append, List.nil_append, shown?, ↓reduceIte,
        shownEscape?, takeWhile_run hdigits hclosing, dropWhile_run hdigits hclosing,
        hexValue_toDigits, Char.ofNat_toNat, List.tail_cons]
    · exact if_neg hbackslash

/-- **A quoted name shows which name it is**: it has no invisible character, and the quoted
texts of two names are the same only if the names are. -/
theorem visiblyQuoted_faithful (text : String) :
    (∀ c ∈ (visiblyQuoted text).toList, isInvisible c = false ∧ 0x20 ≤ c.toNat) ∧
      ∀ text', visiblyQuoted text = visiblyQuoted text' → text = text' := by
  refine ⟨fun c hc => ?_, fun text' h => ?_⟩
  · have hvisible := isInvisible_visiblyQuoted text c hc
    refine ⟨hvisible, Nat.not_lt.mp fun hlt => ?_⟩
    rw [isInvisible_of_lt hlt] at hvisible
    cases hvisible
  · have hlist := congrArg String.toList h
    simp only [visiblyQuoted, String.toList_ofList, List.cons.injEq, true_and] at hlist
    obtain ⟨hchars, -⟩ := enclosed_inj shown?_visible (fun _ => rfl) (by decide) hlist
    exact String.toList_inj.mp hchars

/-- Quotes of both kinds, a line break and a control character. -/
example : visiblyQuoted "it\x27s \"a\"\n\x01" = "\"it\\\x27s \\\"a\\\"\\n\\u\x7b1\x7d\"" := by
  decide

end ArithScript.Text
