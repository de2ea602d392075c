/-!
# Visible text

Names of files may hold any character. Where one is reported it stands between double
quotes, with a backslash before the characters that would end or bend them and the code
point in place of a character that cannot be seen.
-/

namespace ArithScript.Text

/-- First and last code points of runs of characters that cannot be seen by themselves:
controls, formats, separators other than the space, general combining marks and variation
selectors, private use, and all that follows the last ideographs. The combining marks of
single scripts and the gaps between the blocks of scripts are not listed. -/
def invisibleRuns : List (Nat × Nat) :=
  [(0x0000, 0x001F), (0x007F, 0x00A0), (0x00AD, 0x00AD), (0x0300, 0x036F), (0x0600, 0x0605),
   (0x061C, 0x061C), (0x06DD, 0x06DD), (0x070F, 0x070F), (0x0890, 0x0891), (0x08E2, 0x08E2),
   (0x1680, 0x1680), (0x180E, 0x180E), (0x1AB0, 0x1AFF), (0x1DC0, 0x1DFF), (0x2000, 0x200F),
   (0x2028, 0x202F), (0x205F, 0x206F), (0x20D0, 0x20FF), (0x3000, 0x3000), (0xE000, 0xF8FF),
   (0xFE00, 0xFE0F), (0xFE20, 0xFE2F), (0xFEFF, 0xFEFF), (0xFFF0, 0xFFFB), (0xFFFE, 0xFFFF),
   (0x110BD, 0x110BD), (0x110CD, 0x110CD), (0x13430, 0x1343F), (0x1BCA0, 0x1BCA3),
   (0x1D173, 0x1D17A), (0x33480, 0x10FFFF)]

def isInvisible (c : Char) : Bool :=
  invisibleRuns.any fun (first, last) => first ≤ c.toNat && c.toNat ≤ last

/-- The characters that stand for `c` inside quotes: the short escape where there is one, the
code point in hexadecimal digits for other characters that cannot be seen, and `c` itself for
the rest. -/
def visible (c : Char) : List Char :=
  match c with
  | '"' => ['\\', '"']
  | '\x27' => ['\\', '\x27']
  | '\\' => ['\\', '\\']
  | '\x00' => ['\\', '0']
  | '\t' => ['\\', 't']
  | '\n' => ['\\', 'n']
  | '\r' => ['\\', 'r']
  | c =>
    if isInvisible c then ['\\', 'u', '\x7b'] ++ Nat.toDigits 16 c.toNat ++ ['\x7d'] else [c]

/-- The text in double quotes, every character as `visible` has it. -/
def visiblyQuoted (text : String) : String :=
  String.ofList ('"' :: (text.toList.flatMap visible ++ ['"']))

end ArithScript.Text
