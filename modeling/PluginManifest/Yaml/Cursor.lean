import PluginManifest.Text.CodePoint

/-! # Reading positions in a YAML text

A cursor is the text that is still to be read, with the line and the column of its first
character.  The classes of characters that the grammar asks for are here too. -/

namespace PluginManifest.Yaml

/-- Why a text is no YAML document. -/
inductive Error
  /-- The text breaks the grammar, or a node cannot have the value that its tag asks for. -/
  | malformed
  /-- A number has no digits, or more of them than can be converted. -/
  | badNumber
  /-- A value that is tagged as a number is empty. -/
  | emptyNumber
  /-- A value that is tagged as a truth value is none. -/
  | badTruth
  /-- A value that is tagged as a timestamp is none. -/
  | noTimestamp
  /-- A timestamp is not on the calendar, or its time zone is a day or more away. -/
  | badTimestamp
  /-- An escape gives a number beyond the last code point. -/
  | noCodePoint
  /-- An escape gives a number beyond 31 bits. -/
  | hugeCodePoint
deriving DecidableEq, Repr

/-! ### Classes of characters -/

/-- A character that ends a line. -/
def isBreak (c : CodePoint) : Bool :=
  c = '\n' || c = '\r' || c.val == 0x85 || c.val == 0x2028 || c.val == 0x2029

/-- A space, a tab or the end of a line. -/
def isSeparator (c : CodePoint) : Bool := c = ' ' || c = '\t' || isBreak c

/-- A character of the name of an anchor or a tag handle. -/
def isWord (c : CodePoint) : Bool := c.digit?.isSome || c = '-' || c = '_'

/-- A character that a text may hold. -/
def isPrintable (c : CodePoint) : Bool :=
  let n := c.val
  n == 0x09 || n == 0x0A || n == 0x0D || (0x20 ≤ n && n ≤ 0x7E) || n == 0x85 ||
    (0xA0 ≤ n && n ≤ 0xD7FF) || (0xE000 ≤ n && n ≤ 0xFFFD) || 0x10000 ≤ n

/-- The text is at its end or starts with a character of a class. -/
def startsIn (p : CodePoint → Bool) : Text → Bool
  | [] => true
  | c :: _ => p c

/-- The text starts with a character of a class. -/
def startsWithIn (p : CodePoint → Bool) : Text → Bool
  | [] => false
  | c :: _ => p c

/-- The text starts with a mark that begins or ends a document. -/
def startsDocument (t : Text) : Bool :=
  (Text.startsWith t "---" || Text.startsWith t "...") && startsIn isSeparator (t.drop 3)

/-! ### Cursors -/

/-- A position in a text. -/
structure Cursor where
  /-- The text that is still to be read. -/
  rest : Text
  /-- The number of characters that were read. -/
  index : Nat
  /-- The number of lines that were read. -/
  line : Nat
  /-- The number of characters that were read on this line. -/
  column : Nat

namespace Cursor

/-- The start of a text. -/
def start (t : Text) : Cursor := ⟨t, 0, 0, 0⟩

/-- The character at the cursor. -/
def peek? (c : Cursor) : Option CodePoint := c.rest.head?

/-- The text is at its end. -/
def atEnd (c : Cursor) : Bool := c.rest.isEmpty

/-- The cursor stands at a given character. -/
def at? (c : Cursor) (char : Char) : Bool := c.peek? = some (CodePoint.ofChar char)

/-- The cursor behind the character that it stands at.  A byte order mark takes no column. -/
def next (c : Cursor) : Cursor :=
  match c.rest with
  | [] => c
  | a :: rest =>
    let returns := a = '\r' && startsWithIn (fun b : CodePoint => b = '\n') rest
    if isBreak a && !returns then ⟨rest, c.index + 1, c.line + 1, 0⟩
    else ⟨rest, c.index + 1, c.line, if a.val == 0xFEFF then c.column else c.column + 1⟩

/-- The cursor behind the next `n` characters. -/
def skip : Nat → Cursor → Cursor
  | 0, c => c
  | n + 1, c => skip n c.next

/-- The characters of a class at the cursor, and the cursor behind them. -/
def takeWhile (p : CodePoint → Bool) (c : Cursor) : Text × Cursor :=
  let taken := c.rest.takeWhile p
  (taken, c.skip taken.length)

/-- The cursor behind the characters of a class. -/
def dropWhile (p : CodePoint → Bool) (c : Cursor) : Cursor := (c.takeWhile p).2

/-- The cursor behind the spaces. -/
def skipSpaces (c : Cursor) : Cursor := c.dropWhile fun a : CodePoint => a = ' '

/-- The cursor behind a comment, if one starts here. -/
def skipComment (c : Cursor) : Cursor := if c.at? '#' then c.dropWhile (!isBreak ·) else c

/-- The line break at the cursor as it counts in a value, and the cursor behind it. -/
def takeBreak (c : Cursor) : Text × Cursor :=
  match c.rest with
  | [] => ([], c)
  | a :: rest =>
    if a = '\r' && startsWithIn (fun b : CodePoint => b = '\n') rest then ("\n", c.skip 2)
    else if a = '\n' || a = '\r' || a.val == 0x85 then ("\n", c.next)
    else if isBreak a then ([a], c.next)
    else ([], c)

end Cursor

end PluginManifest.Yaml
