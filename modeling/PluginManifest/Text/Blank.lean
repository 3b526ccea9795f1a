import PluginManifest.Text.CodePoint

/-! # Blank code points

The code points that separate words and are trimmed off lines: the Unicode white space
characters and the four ASCII information separators U+001C to U+001F. -/

namespace PluginManifest

/-- White space of Unicode, or an ASCII information separator. -/
def CodePoint.isBlank (c : CodePoint) : Bool :=
  let n := c.val
  (0x09 ≤ n && n ≤ 0x0D) || (0x1C ≤ n && n ≤ 0x20) || n == 0x85 || n == 0xA0 || n == 0x1680 ||
    (0x2000 ≤ n && n ≤ 0x200A) || n == 0x2028 || n == 0x2029 || n == 0x202F || n == 0x205F ||
    n == 0x3000

namespace Text

/-- The text without the blanks at its front. -/
def trimStart (t : Text) : Text := t.dropWhile CodePoint.isBlank

/-- The text without the blanks at its back. -/
def trimEnd (t : Text) : Text := (t.reverse.dropWhile CodePoint.isBlank).reverse

/-- The text without the blanks at both ends. -/
def trim (t : Text) : Text := trimEnd (trimStart t)

/-- The first word of a text without blanks at its front, and what follows the blanks after
that word. -/
def cutWord (t : Text) : Text × Text :=
  (t.takeWhile (!·.isBlank), trimStart (t.dropWhile (!·.isBlank)))

/-- The words of a text, read after the part `word` of the first one. -/
def wordsFrom (word : Text) : Text → List Text
  | [] => if word.isEmpty then [] else [word.reverse]
  | c :: rest =>
    if c.isBlank then
      if word.isEmpty then wordsFrom [] rest else word.reverse :: wordsFrom [] rest
    else wordsFrom (c :: word) rest

/-- The words of a text: its longest parts without blanks. -/
def words (t : Text) : List Text := wordsFrom [] t

end Text

end PluginManifest
