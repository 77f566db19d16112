/-
PrototypeLisp.Text.Blank — the characters that separate words.

A blank is one of the 29 characters that Unicode counts as white space
(bidirectional class B, S or WS, or general category Zs). Blanks separate
words in a source text and are trimmed from the ends of a setting.
-/

namespace PrototypeLisp.Text

/-- The white-space characters: the ASCII controls that move the cursor or
separate records, the space, and the spaces and line separators of the
other blocks. -/
def isBlank (c : Char) : Bool :=
  let n := c.toNat
  (0x09 ≤ n && n ≤ 0x0D) || (0x1C ≤ n && n ≤ 0x20) || n == 0x85 || n == 0xA0 ||
    n == 0x1680 || (0x2000 ≤ n && n ≤ 0x200A) || n == 0x2028 || n == 0x2029 ||
    n == 0x202F || n == 0x205F || n == 0x3000

/-- Drop the blanks at both ends. -/
def trim (cs : List Char) : List Char :=
  ((cs.dropWhile isBlank).reverse.dropWhile isBlank).reverse

/-- Drop the blanks at both ends of a text. -/
def trimText (s : String) : String :=
  String.ofList (trim s.toList)

end PrototypeLisp.Text
