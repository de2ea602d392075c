/-!
# Pieces of a text

`pieces` cuts a text at every occurrence of a separator. A text with n
separators has n + 1 pieces, of which any may be empty.
-/

namespace ArithScript.Text

def pieces (separator : Char) (text : String) : List String :=
  (text.toList.splitOn separator).map String.ofList

end ArithScript.Text
