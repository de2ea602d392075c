/-!
# Quoted text

The JSON form of a string: double quotes around the text, a backslash before
the two characters that would end or bend it, and an escape for every control
character below U+0020. All other characters stand for themselves, so a quoted
text never holds a line break.
-/

namespace ArithScript.Text

/-- The characters that stand for `c` inside quotes: the short escape where
there is one, `\u` and four lower-case hexadecimal digits for the other control
characters, and `c` itself above them. -/
def escaped (c : Char) : List Char :=
  match c with
  | '"' => ['\\', '"']
  | '\\' => ['\\', '\\']
  | '\x08' => ['\\', 'b']
  | '\x0c' => ['\\', 'f']
  | '\n' => ['\\', 'n']
  | '\r' => ['\\', 'r']
  | '\t' => ['\\', 't']
  | c =>
    if c.toNat < 0x20 then
      ['\\', 'u', '0', '0', (c.toNat / 16).digitChar, (c.toNat % 16).digitChar]
    else [c]

/-- The text in double quotes, every character escaped as `escaped` says. -/
def quoted (text : String) : String :=
  String.ofList ('"' :: (text.toList.flatMap escaped ++ ['"']))

end ArithScript.Text
