/-!
# Slices of a text

A place in a text is an offset into the bytes of its UTF-8 form. `offsets` finds the places
of a byte, and `slice?` cuts out what stands between two places. There is nothing to cut out
where a place lies inside a character or beyond the end, or where the first lies behind the
second.
-/

namespace ArithScript.Text

/-- The places of a byte, from left to right. -/
def offsets (byte : UInt8) (text : String) : List Nat :=
  text.toByteArray.data.toList.zipIdx.filterMap fun (found, offset) =>
    if found = byte then some offset else none

def slice? (text : String) (start stop : Nat) : Option String :=
  if start ≤ stop ∧ String.Pos.Raw.IsValid text ⟨start⟩ ∧ String.Pos.Raw.IsValid text ⟨stop⟩ then
    some (String.Pos.Raw.extract text ⟨start⟩ ⟨stop⟩)
  else none

end ArithScript.Text
