import PluginManifest.Text.Utf8

/-! # Comments in the trivia between tokens

`Trivia.comments text pos trailing` scans the bytes from `pos` up to the first one that is
neither white space nor part of a comment.  Trailing comments are those before the first line
break; leading comments are those after it, or all of them at the start of the text.  A first
line that starts with `#!` is skipped. -/

namespace PluginManifest.Trivia

/-- The byte range of a comment. -/
structure CommentRange where
  /-- The offset of its first byte. -/
  pos : Nat
  /-- The offset after its last byte. -/
  stop : Nat
  /-- A block comment, as opposed to one that ends with its line. -/
  multiline : Bool
deriving DecidableEq, Repr

/-- Carriage return or line feed. -/
def isBreak (b : UInt8) : Bool := b == 0x0A || b == 0x0D

/-- Space, tab, vertical tab or form feed. -/
def isSpace (b : UInt8) : Bool := b == 0x20 || b == 0x09 || b == 0x0B || b == 0x0C

/-- The number of bytes of a line comment after its two slashes. -/
def lineLength (bs : Bytes) : Nat := (bs.takeWhile (!isBreak ·)).length

/-- The number of bytes of a block comment after its opening, the closing included. -/
def blockLength : Bytes → Nat
  | [] => 0
  | [_] => 1
  | a :: b :: rest => if a == 0x2A && b == 0x2F then 2 else blockLength (b :: rest) + 1

/-- One piece of trivia at the front of the bytes. -/
inductive Piece
  /-- White space inside a line. -/
  | space
  /-- A line break. -/
  | lineBreak
  /-- A comment. -/
  | comment (multiline : Bool)
deriving DecidableEq, Repr

/-- The piece at the front of the bytes and its length. -/
def piece? : Bytes → Option (Piece × Nat)
  | 0x0D :: 0x0A :: _ => some (.lineBreak, 2)
  | 0xC2 :: 0xA0 :: _ => some (.space, 2)
  | 0xEF :: 0xBB :: 0xBF :: _ => some (.space, 3)
  | 0x2F :: 0x2F :: rest => some (.comment false, 2 + lineLength rest)
  | 0x2F :: 0x2A :: rest => some (.comment true, 2 + blockLength rest)
  | b :: _ =>
    if isBreak b then some (.lineBreak, 1) else if isSpace b then some (.space, 1) else none
  | [] => none

/-- Every piece takes at least one byte. -/
theorem piece?_pos {bs : Bytes} {p : Piece} {n : Nat} (h : piece? bs = some (p, n)) : 0 < n := by
  unfold piece? at h
  split at h
  case h_1 | h_2 | h_3 =>
    -- A line break or a space of several bytes.
    cases h
    decide
  case h_4 | h_5 =>
    -- A comment: its opening alone has two bytes.
    cases h
    exact Nat.add_pos_left Nat.two_pos _
  case h_6 b _ _ _ _ _ _ =>
    by_cases hbreak : isBreak b
    · rw [if_pos hbreak] at h
      cases h
      decide
    · rw [if_neg hbreak] at h
      by_cases hspace : isSpace b
      · rw [if_pos hspace] at h
        cases h
        decide
      · rw [if_neg hspace] at h
        cases h
  case h_7 => cases h

/-- The bytes hold a piece. -/
theorem piece?_ne_nil {bs : Bytes} {p : Piece} {n : Nat} (h : piece? bs = some (p, n)) :
    0 < bs.length := by
  cases bs with
  | nil => simp [piece?] at h
  | cons => simp

/-- The comments from offset `pos` on, where `bs` are the bytes from there.  `collecting` tells
whether comments count already. -/
def scan (trailing collecting : Bool) (pos : Nat) (bs : Bytes) : List CommentRange :=
  match h : piece? bs with
  | none => []
  | some (piece, n) =>
    have : bs.length - n < bs.length := Nat.sub_lt (piece?_ne_nil h) (piece?_pos h)
    match piece with
    | .space => scan trailing collecting (pos + n) (bs.drop n)
    | .lineBreak => if trailing then [] else scan trailing true (pos + n) (bs.drop n)
    | .comment multiline =>
      if collecting then
        ⟨pos, pos + n, multiline⟩ :: scan trailing collecting (pos + n) (bs.drop n)
      else scan trailing collecting (pos + n) (bs.drop n)
termination_by bs.length
decreasing_by
  all_goals
    rw [List.length_drop]
    exact this

/-- The length of a first line that starts with `#!`, without its line feed. -/
def hashBangLength : Bytes → Nat
  | 0x23 :: 0x21 :: rest => 2 + (rest.takeWhile (· != 0x0A)).length
  | _ => 0

/-- The trailing or the leading comments of the trivia that starts at `pos`. -/
def comments (text : Bytes) (pos : Nat) (trailing : Bool) : List CommentRange :=
  if pos = 0 then
    let start := hashBangLength text
    scan trailing true start (text.drop start)
  else scan trailing trailing pos (text.drop pos)

/-- The bytes from one offset up to another. -/
def slice (text : Bytes) (start stop : Nat) : Bytes := (text.drop start).take (stop - start)

/-- A block comment that opens with two asterisks and is not the empty comment. -/
def CommentRange.isDoc (text : Bytes) (range : CommentRange) : Bool :=
  range.multiline && slice text range.pos (range.pos + 3) == [0x2F, 0x2A, 0x2A] &&
    slice text (range.pos + 3) (range.pos + 4) != [0x2F]

end PluginManifest.Trivia
