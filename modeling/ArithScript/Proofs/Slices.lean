import Mathlib.Data.String.Basic
import ArithScript.Text.Slice

/-!
# Places between the characters of a text

A place stands between two characters of a text if the text falls into a part that ends there
and a rest (`Text.RestAt`). From one such place to another goes a slice (`Text.RestAt.slice?`).
A character below U+0080 is a single byte, so the place behind it stands between characters
again, and no byte of any other character looks like it.
-/

namespace ArithScript.Text

/-! ## Bytes of a character -/

/-- A byte below 128 stands for its own character only. -/
theorem toNat_eq_of_mem_utf8EncodeChar {c : Char} {byte : UInt8} (hascii : byte.toNat < 128)
    (h : byte ∈ String.utf8EncodeChar c) : c.toNat = byte.toNat := by
  change c.val.toNat = byte.toNat
  unfold String.utf8EncodeChar at h
  dsimp only at h
  -- All bytes of the longer forms are 128 at least.
  split_ifs at h
  all_goals
    simp only [List.mem_cons, List.not_mem_nil, or_false, ← UInt8.toNat_inj,
      UInt8.toNat_ofNat'] at h
    omega

theorem utf8ByteSize_singleton {c : Char} (hascii : c.toNat < 128) :
    (String.ofList [c]).utf8ByteSize = 1 := by
  rw [String.utf8ByteSize_ofList]
  change 0 + c.utf8Size = 1
  rw [Nat.zero_add, Char.utf8Size_eq_one_iff, UInt32.le_iff_toNat_le]
  exact Nat.le_of_lt_succ hascii

theorem toNat_of_mem_utf8EncodeChar {c : Char} {byte : UInt8} (hascii : c.toNat < 128)
    (h : byte ∈ String.utf8EncodeChar c) : byte.toNat = c.toNat := by
  have hsize : c.utf8Size = 1 := by
    rw [Char.utf8Size_eq_one_iff, UInt32.le_iff_toNat_le]
    exact Nat.le_of_lt_succ hascii
  rw [String.utf8EncodeChar_eq_singleton hsize, List.mem_singleton] at h
  rw [h]
  exact Nat.mod_eq_of_lt (Nat.lt_trans hascii (by decide))

/-- Behind the front of a text stands the first byte of its back. -/
theorem getUTF8Byte_append (front back : String)
    (h : front.utf8ByteSize < (front ++ back).utf8ByteSize) :
    (front ++ back).getUTF8Byte ⟨front.utf8ByteSize⟩ h ∈ back.toByteArray.data.toList.head? := by
  simp only [String.getUTF8Byte, String.toByteArray_append]
  rw [ByteArray.getElem_append_right (i := front.utf8ByteSize) (Nat.le_refl _),
    List.head?_eq_getElem?]
  simp only [String.utf8ByteSize, Nat.sub_self]
  simp [ByteArray.getElem_eq_getElem_data]

/-! ## Slices -/

theorem slice?_append (front text back : String) :
    slice? (front ++ text ++ back) front.utf8ByteSize (front.utf8ByteSize + text.utf8ByteSize) =
      some text := by
  have hstart : String.Pos.Raw.IsValid (front ++ text ++ back) ⟨front.utf8ByteSize⟩ :=
    String.Pos.Raw.isValid_iff_exists_append.mpr ⟨front, text ++ back, String.append_assoc .., rfl⟩
  have hstop : String.Pos.Raw.IsValid (front ++ text ++ back)
      ⟨front.utf8ByteSize + text.utf8ByteSize⟩ :=
    String.Pos.Raw.isValid_iff_exists_append.mpr
      ⟨front ++ text, back, rfl, by rw [String.rawEndPos, String.utf8ByteSize_append]⟩
  rw [slice?, if_pos ⟨Nat.le_add_right .., hstart, hstop⟩]
  have hextract := String.extract_of_valid front.toList text.toList back.toList
  simp only [String.ofList_append, String.ofList_toList, String.utf8Len_toList] at hextract
  rw [hextract]

/-- What was cut out was a slice. -/
theorem bounds_of_slice? {text part : String} {start stop : Nat}
    (h : slice? text start stop = some part) :
    start ≤ stop ∧ String.Pos.Raw.IsValid text ⟨start⟩ ∧ String.Pos.Raw.IsValid text ⟨stop⟩ := by
  unfold slice? at h
  split at h
  · assumption
  · cases h

/-! ## Places with the rest behind them -/

/-- The place stands between two characters of the text or at one of its ends, and the
characters behind it are `rest`. -/
def RestAt (text : String) (place : Nat) (rest : List Char) : Prop :=
  ∃ front : String, text = front ++ String.ofList rest ∧ place = front.utf8ByteSize

/-- The place in the text with these characters behind it. -/
def placeBefore (text : String) (rest : List Char) : Nat :=
  text.utf8ByteSize - (String.ofList rest).utf8ByteSize

namespace RestAt

variable {text : String} {place : Nat} {c : Char} {taken rest : List Char}

theorem start (text : String) : RestAt text 0 text.toList :=
  ⟨"", by rw [String.empty_append, String.ofList_toList], rfl⟩

theorem stop (text : String) : RestAt text text.utf8ByteSize [] :=
  ⟨text, String.append_empty.symm, rfl⟩

theorem isValid (h : RestAt text place rest) : String.Pos.Raw.IsValid text ⟨place⟩ := by
  obtain ⟨front, rfl, rfl⟩ := h
  exact String.Pos.Raw.isValid_iff_exists_append.mpr ⟨front, _, rfl, rfl⟩

theorem utf8ByteSize (h : RestAt text place rest) :
    text.utf8ByteSize = place + (String.ofList rest).utf8ByteSize := by
  obtain ⟨front, rfl, rfl⟩ := h
  exact String.utf8ByteSize_append

theorem eq_utf8ByteSize (h : RestAt text place []) : place = text.utf8ByteSize :=
  h.utf8ByteSize.symm

theorem lt_utf8ByteSize (h : RestAt text place (c :: rest)) : place < text.utf8ByteSize := by
  have hsize := h.utf8ByteSize
  have hpos : 0 < (String.ofList (c :: rest)).utf8ByteSize := by
    rw [String.utf8ByteSize_ofList]
    exact Nat.add_pos_right _ c.utf8Size_pos
  omega

/-- The place behind a character of a single byte. -/
theorem tail (h : RestAt text place (c :: rest)) (hascii : c.toNat < 128) :
    RestAt text (place + 1) rest := by
  obtain ⟨front, rfl, rfl⟩ := h
  refine ⟨front ++ String.ofList [c], ?_, ?_⟩
  · rw [String.append_assoc, ← String.ofList_append]
    rfl
  · rw [String.utf8ByteSize_append, utf8ByteSize_singleton hascii]

/-- The place behind characters of single bytes. -/
theorem append (h : RestAt text place (taken ++ rest)) (hascii : ∀ c ∈ taken, c.toNat < 128) :
    RestAt text (place + taken.length) rest := by
  induction taken generalizing place with
  | nil => exact h
  | cons c taken ih =>
    obtain ⟨hc, htaken⟩ := List.forall_mem_cons.mp hascii
    have hrest := ih (h.tail hc) htaken
    rwa [Nat.add_assoc, Nat.add_comm 1] at hrest

/-- There is one place with this rest behind it. -/
theorem eq_placeBefore (h : RestAt text place rest) : place = placeBefore text rest := by
  rw [placeBefore, h.utf8ByteSize, Nat.add_sub_cancel]

theorem behind (h : RestAt text place (taken ++ rest)) :
    RestAt text (placeBefore text rest) rest := by
  have hrest : RestAt text (place + (String.ofList taken).utf8ByteSize) rest := by
    obtain ⟨front, rfl, rfl⟩ := h
    refine ⟨front ++ String.ofList taken, ?_, String.utf8ByteSize_append.symm⟩
    rw [String.append_assoc, ← String.ofList_append]
  rwa [hrest.eq_placeBefore] at hrest

/-- From a place to one behind it goes the slice of what stands between them. -/
theorem slice? {start stop : Nat} (hstart : RestAt text start (taken ++ rest))
    (hstop : RestAt text stop rest) : slice? text start stop = some (String.ofList taken) := by
  have hplace : stop = start + (String.ofList taken).utf8ByteSize := by
    have hfront := hstart.utf8ByteSize
    rw [hstop.utf8ByteSize, String.ofList_append, String.utf8ByteSize_append] at hfront
    omega
  obtain ⟨front, htext, rfl⟩ := hstart
  rw [htext, hplace, String.ofList_append, ← String.append_assoc]
  exact slice?_append front _ _

end RestAt

end ArithScript.Text
