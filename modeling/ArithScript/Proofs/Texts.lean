import Mathlib.Data.List.Basic
import ArithScript.Proofs.Numerals
import ArithScript.Text.Blank
import ArithScript.Text.Pieces

/-!
# Trimmed texts, pieces and quoted texts

Two facts about the texts that statements and their tokens are cut from. A text
is what trimming makes of some text if no blank stands at its ends
(`Text.Trimmed`), and such a text is not trimmed further. The pieces of a text
are the texts without the separator that it joins (`Text.pieces_eq_iff`). And one
about texts in quotes: if each character can be read from what stands for it,
the quotes show where the text ends, and which text it is (`Text.enclosed_inj`).
-/

namespace ArithScript

open Grammar

/-! ## First characters of parts -/

theorem Grammar.NotStarting.of_append {kind : Char → Bool} {cs tail : List Char}
    (h : NotStarting kind (cs ++ tail)) : NotStarting kind cs := by
  cases cs with
  | nil => exact fun c hc => nomatch hc
  | cons c cs => exact h

theorem Grammar.notStarting_dropWhile (kind : Char → Bool) (cs : List Char) :
    NotStarting kind (cs.dropWhile kind) := by
  intro c hc
  have hnot := List.head?_dropWhile_not kind cs
  rw [Option.mem_def.mp hc] at hnot
  exact hnot

namespace Text

/-! ## Trimming -/

/-- No blank stands at either end of the text. -/
structure Trimmed (cs : List Char) : Prop where
  start : NotStarting isBlank cs
  ending : NotStarting isBlank cs.reverse

theorem trimEnd_append (cs : List Char) :
    trimEnd cs ++ (cs.reverse.takeWhile isBlank).reverse = cs := by
  rw [trimEnd, ← List.reverse_append, List.takeWhile_append_dropWhile, List.reverse_reverse]

theorem trimmed_trim (text : String) : Trimmed (trim text).toList := by
  rw [trim, String.toList_ofList]
  refine ⟨?_, ?_⟩
  · have hstart := notStarting_dropWhile isBlank text.toList
    have hsplit := trimEnd_append (trimStart text.toList)
    rw [trimStart] at hsplit ⊢
    rw [← hsplit] at hstart
    exact hstart.of_append
  · rw [trimEnd, List.reverse_reverse]
    exact notStarting_dropWhile isBlank _

theorem Trimmed.trim_eq {text : String} (h : Trimmed text.toList) : trim text = text := by
  rw [trim, trimStart, h.start.dropWhile_eq, trimEnd, h.ending.dropWhile_eq, List.reverse_reverse,
    String.ofList_toList]

theorem trim_trim (text : String) : trim (trim text) = trim text := (trimmed_trim text).trim_eq

/-- A text between two trimmed ones ends as these do. -/
theorem Trimmed.append {first middle last : List Char} (hfirst : Trimmed first)
    (hlast : Trimmed last) (hnefirst : first ≠ []) (hnelast : last ≠ []) :
    Trimmed (first ++ middle ++ last) := by
  refine ⟨?_, ?_⟩
  · rw [List.append_assoc]
    exact hfirst.start.append hnefirst _
  · rw [List.reverse_append]
    exact hlast.ending.append (by simpa using hnelast) _

theorem mem_of_mem_trim {text : String} {c : Char} (h : c ∈ (trim text).toList) :
    c ∈ text.toList := by
  rw [trim, String.toList_ofList, trimEnd, List.mem_reverse] at h
  have hstart : c ∈ trimStart text.toList :=
    List.mem_reverse.mp ((List.dropWhile_sublist isBlank).mem h)
  exact (List.dropWhile_sublist isBlank).mem hstart

theorem of_mem_takeWhile_reverse {cs : List Char} {c : Char}
    (h : c ∈ (cs.reverse.takeWhile isBlank).reverse) : isBlank c = true :=
  of_mem_takeWhile (List.mem_reverse.mp h)

/-- Trimming takes blanks away and nothing else. -/
theorem mem_trim_of_mem {text : String} {c : Char} (h : c ∈ text.toList)
    (hblank : isBlank c = false) : c ∈ (trim text).toList := by
  have hsplit := List.takeWhile_append_dropWhile (p := isBlank) (l := text.toList)
  rw [← hsplit, ← trimEnd_append (text.toList.dropWhile isBlank)] at h
  rw [trim, String.toList_ofList, trimStart]
  rcases List.mem_append.mp h with hleft | h
  · rw [of_mem_takeWhile hleft] at hblank
    cases hblank
  rcases List.mem_append.mp h with hmiddle | hright
  · exact hmiddle
  · rw [of_mem_takeWhile_reverse hright] at hblank
    cases hblank

/-- A first character that is no blank stays the first. -/
theorem head?_trim {text : String} {c : Char} (h : text.toList.head? = some c)
    (hblank : isBlank c = false) : (trim text).toList.head? = some c := by
  have hstart : NotStarting isBlank text.toList := by
    intro d hd
    rw [h] at hd
    cases hd
    exact hblank
  obtain ⟨cs, hcs⟩ := List.head?_eq_some_iff.mp h
  have hsplit := trimEnd_append text.toList
  rw [trim, String.toList_ofList, trimStart, hstart.dropWhile_eq]
  cases htrimmed : trimEnd text.toList with
  | nil =>
    rw [htrimmed, List.nil_append, hcs] at hsplit
    have hmem : c ∈ ((c :: cs).reverse.takeWhile isBlank).reverse := by
      rw [hsplit]
      exact List.mem_cons_self
    rw [of_mem_takeWhile_reverse hmem] at hblank
    cases hblank
  | cons d ds =>
    rw [htrimmed, hcs] at hsplit
    exact congrArg some (List.cons.inj hsplit).1

theorem trimmed_of_forall {cs : List Char} (h : ∀ c ∈ cs, isBlank c = false) : Trimmed cs := by
  refine ⟨fun c hc => h c (List.mem_of_mem_head? hc), fun c hc => h c ?_⟩
  exact List.mem_reverse.mp (List.mem_of_mem_head? hc)

/-- No blank is among the visible ASCII characters. -/
theorem isBlank_of_visible {c : Char} (hlow : 0x21 ≤ c.toNat) (hhigh : c.toNat ≤ 0x7E) :
    isBlank c = false := by
  simp only [isBlank, Bool.or_eq_false_iff, Bool.and_eq_false_iff, decide_eq_false_iff_not,
    beq_eq_false_iff_ne]
  omega

theorem isBlank_of_isDigit {c : Char} (h : c.isDigit = true) : isBlank c = false := by
  simp only [Char.isDigit, ge_iff_le, Bool.and_eq_true, decide_eq_true_eq,
    UInt32.le_iff_toNat_le] at h
  exact isBlank_of_visible (Nat.le_trans (by decide) h.1) (Nat.le_trans h.2 (by decide))

theorem isBlank_of_isUpper {c : Char} (h : c.isUpper = true) : isBlank c = false := by
  obtain ⟨hlow, hhigh⟩ : 'A'.val ≤ c.val ∧ c.val ≤ 'Z'.val := of_decide_eq_true h
  rw [UInt32.le_iff_toNat_le] at hlow hhigh
  exact isBlank_of_visible (Nat.le_trans (by decide) hlow) (Nat.le_trans hhigh (by decide))

/-! ## Quoted texts -/

/-- What holds of the quotes, and of the characters that stand for a character, holds of all
characters of a quoted text. -/
theorem forall_mem_enclosed {p : Char → Prop} {quote : Char} {escape : Char → List Char}
    (hquote : p quote) (hescape : ∀ c, ∀ d ∈ escape c, p d) (cs : List Char) :
    ∀ c ∈ quote :: (cs.flatMap escape ++ [quote]), p c := by
  intro c hc
  simp only [List.mem_cons, List.mem_append, List.mem_flatMap, List.not_mem_nil, or_false] at hc
  rcases hc with rfl | ⟨d, -, hd⟩ | rfl
  · exact hquote
  · exact hescape d c hd
  · exact hquote

section Enclosed

variable {quote : Char} {escape : Char → List Char} {read? : List Char → Option (Char × List Char)}
  (hread : ∀ c rest, read? (escape c ++ rest) = some (c, rest))
  (hplain : ∀ rest, read? (quote :: rest) = some (quote, rest)) (hquote : escape quote ≠ [quote])
include hread hplain hquote

/-- A quote within a quoted text would be read as the quote, for which something else stands. -/
theorem escape_append_ne (c : Char) (s t : List Char) : escape c ++ s ≠ quote :: t := by
  intro h
  obtain ⟨rfl, rfl⟩ : c = quote ∧ s = t := by
    have hfirst := hread c s
    rw [h, hplain t] at hfirst
    obtain ⟨hc, hs⟩ := Prod.mk.inj (Option.some.inj hfirst)
    exact ⟨hc.symm, hs.symm⟩
  exact hquote (List.append_cancel_right h)

/-- Two quoted texts up to the quotes that end them, by induction on their characters. -/
theorem enclosed_inj {cs cs' s t : List Char}
    (h : cs.flatMap escape ++ quote :: s = cs'.flatMap escape ++ quote :: t) :
    cs = cs' ∧ s = t := by
  induction cs generalizing cs' with
  | nil =>
    cases cs' with
    | nil => exact ⟨rfl, (List.cons.inj h).2⟩
    | cons c' cs' =>
      rw [List.flatMap_cons, List.append_assoc] at h
      exact absurd h.symm (escape_append_ne hread hplain hquote c' _ _)
  | cons c cs ih =>
    rw [List.flatMap_cons, List.append_assoc] at h
    cases cs' with
    | nil => exact absurd h (escape_append_ne hread hplain hquote c _ _)
    | cons c' cs' =>
      have hfirst := hread c (cs.flatMap escape ++ quote :: s)
      rw [h, List.flatMap_cons, List.append_assoc, hread] at hfirst
      obtain ⟨rfl, hrest⟩ := Prod.mk.inj (Option.some.inj hfirst)
      obtain ⟨rfl, rfl⟩ := ih hrest.symm
      exact ⟨rfl, rfl⟩

end Enclosed

/-- The value of a hexadecimal digit. -/
def hexDigit (c : Char) : Nat := "0123456789abcdef".toList.idxOf c

theorem hexDigit_digitChar : ∀ n < 16, hexDigit n.digitChar = n := by
  decide

/-! ## Joined texts -/

theorem mem_intercalate_iff {separator c : Char} {parts : List (List Char)} (h : c ≠ separator) :
    c ∈ [separator].intercalate parts ↔ ∃ part ∈ parts, c ∈ part := by
  induction parts with
  | nil => simp
  | cons part parts ih =>
    cases parts with
    | nil => simp
    | cons next parts =>
      rw [List.intercalate_cons_cons, List.mem_append, List.mem_append, List.mem_singleton, ih]
      simp [h]

/-- Trimmed texts, joined by any separator, are a trimmed text. -/
theorem trimmed_intercalate {separator : Char} {parts : List (List Char)} (hne : parts ≠ [])
    (h : ∀ part ∈ parts, Trimmed part ∧ part ≠ []) :
    Trimmed ([separator].intercalate parts) ∧ [separator].intercalate parts ≠ [] := by
  induction parts with
  | nil => exact absurd rfl hne
  | cons part parts ih =>
    obtain ⟨hpart, hnepart⟩ := h part List.mem_cons_self
    cases parts with
    | nil => simpa using ⟨hpart, hnepart⟩
    | cons next parts =>
      obtain ⟨htail, hnetail⟩ := ih (List.cons_ne_nil _ _) fun p hp =>
        h p (List.mem_cons_of_mem part hp)
      rw [List.intercalate_cons_cons]
      exact ⟨hpart.append htail hnepart hnetail, by simp [hnepart]⟩

/-! ## Pieces -/

theorem not_mem_of_mem_splitOn {separator : Char} {cs piece : List Char}
    (h : piece ∈ cs.splitOn separator) : separator ∉ piece := by
  induction cs generalizing piece with
  | nil =>
    rw [List.splitOn_nil, List.mem_singleton] at h
    rw [h]
    exact List.not_mem_nil
  | cons c cs ih =>
    rw [List.splitOn_cons_eq_if_modifyHead] at h
    split at h
    · rcases List.mem_cons.mp h with rfl | h
      · exact List.not_mem_nil
      · exact ih h
    · next hc =>
      obtain ⟨first, rest, hsplit⟩ := List.exists_cons_of_ne_nil (List.splitOn_ne_nil separator cs)
      rw [hsplit] at ih h
      rcases List.mem_cons.mp h with rfl | h
      · intro hmem
        rcases List.mem_cons.mp hmem with rfl | hmem
        · exact hc (beq_self_eq_true _)
        · exact ih List.mem_cons_self hmem
      · exact ih (List.mem_cons_of_mem first h)

/-- The pieces of a text: they do not hold the separator, and joined by it they
are the text. -/
theorem pieces_eq_iff {separator : Char} {text : String} {parts : List String} :
    pieces separator text = parts ↔ parts ≠ [] ∧ (∀ part ∈ parts, separator ∉ part.toList) ∧
      [separator].intercalate (parts.map String.toList) = text.toList := by
  constructor
  · rintro rfl
    refine ⟨?_, ?_, ?_⟩
    · simp [pieces]
    · intro part hpart
      obtain ⟨cs, hcs, rfl⟩ := List.mem_map.mp hpart
      rw [String.toList_ofList]
      exact not_mem_of_mem_splitOn hcs
    · rw [pieces, List.map_map]
      simp only [Function.comp_def, String.toList_ofList, List.map_id']
      exact List.intercalate_splitOn separator
  · rintro ⟨hne, hparts, htext⟩
    have hsplit : ([separator].intercalate (parts.map String.toList)).splitOn separator =
        parts.map String.toList :=
      List.splitOn_intercalate separator (by simpa using hparts) (by simpa using hne)
    rw [pieces, ← htext, hsplit, List.map_map]
    simp [Function.comp_def]

/-- The pieces, with the separator between them, are the text. -/
theorem intercalate_pieces (separator : Char) (text : String) :
    separator.toString.intercalate (pieces separator text) = text := by
  obtain ⟨-, -, hjoined⟩ := pieces_eq_iff.mp (rfl : pieces separator text = _)
  rw [← String.toList_inj, String.toList_intercalate, ← hjoined]
  simp

/-- A separator between two texts ends a piece and starts a piece. -/
theorem pieces_append (separator : Char) (first second : String) :
    pieces separator (first ++ separator.toString ++ second) =
      pieces separator first ++ pieces separator second := by
  rw [pieces, pieces, pieces, ← List.map_append, ← List.splitOn_append_cons_self]
  simp

/-- A text with a line break at its end starts the lines of a joined text. -/
theorem pieces_join_cons (line : String) (rest : List String) :
    pieces '\n' (String.join ((line ++ "\n") :: rest)) =
      pieces '\n' line ++ pieces '\n' (String.join rest) := by
  rw [String.join_cons]
  exact pieces_append '\n' line (String.join rest)

/-- What stands before the first separator is a piece. -/
theorem takeWhile_mem_pieces (separator : Char) (text : String) :
    String.ofList (text.toList.takeWhile (· ≠ separator)) ∈ pieces separator text := by
  have hnot : separator ∉ text.toList.takeWhile (· ≠ separator) := fun hmem =>
    absurd (of_mem_takeWhile hmem) (by simp)
  have hsplit := List.takeWhile_append_dropWhile (p := (· ≠ separator)) (l := text.toList)
  have hstop := notStarting_dropWhile (· ≠ separator) text.toList
  rw [pieces]
  cases hrest : text.toList.dropWhile (· ≠ separator) with
  | nil =>
    rw [hrest, List.append_nil] at hsplit
    rw [hsplit] at hnot ⊢
    rw [List.splitOn_eq_singleton hnot]
    exact List.mem_cons_self
  | cons c rest =>
    rw [hrest, notStarting_cons] at hstop
    obtain rfl : c = separator := by simpa using hstop
    have hpieces := List.splitOn_append_cons_self_of_not_mem hnot rest
    rw [hrest] at hsplit
    rw [hsplit] at hpieces
    rw [hpieces]
    exact List.mem_cons_self

/-- There is one piece more than separators. -/
theorem length_pieces (separator : Char) (text : String) :
    (pieces separator text).length = text.toList.count separator + 1 := by
  rw [pieces, List.length_map]
  induction text.toList with
  | nil => rfl
  | cons c cs ih =>
    rw [List.splitOn_cons_eq_if_modifyHead]
    by_cases hc : c = separator
    · simp [hc, ih]
    · simp [hc, ih]

end Text

end ArithScript
