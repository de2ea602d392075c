/-!
# Blank characters

`isBlank` is the Unicode property White_Space, and `trim` cuts the longest
blank stretch off either end of a text. Statements, tokens, definitions and
function arguments are all trimmed by this one rule.
-/

namespace ArithScript.Text

/-- The character is white space: the 25 code points of the Unicode property
White_Space. Format characters such as U+200B and U+FEFF, and the separators
U+001C to U+001F, are not among them. -/
def isBlank (c : Char) : Bool :=
  let code := c.toNat
  (0x09 ≤ code && code ≤ 0x0D) || code == 0x20 || code == 0x85 || code == 0xA0 ||
    code == 0x1680 || (0x2000 ≤ code && code ≤ 0x200A) || code == 0x2028 || code == 0x2029 ||
    code == 0x202F || code == 0x205F || code == 0x3000

def trimStart (cs : List Char) : List Char := cs.dropWhile isBlank

def trimEnd (cs : List Char) : List Char := (cs.reverse.dropWhile isBlank).reverse

/-- The text without the blanks at its two ends. -/
def trim (text : String) : String := String.ofList (trimEnd (trimStart text.toList))

end ArithScript.Text
