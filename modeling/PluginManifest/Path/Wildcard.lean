import PluginManifest.Text.CodePoint

/-! # Wildcard patterns

A pattern describes whole texts: `*` stands for any text, `?` for any character, and a class in
brackets for one of its characters, or with `!` for any other one.  A bracket that is not
closed stands for itself.

Inside a class a hyphen between two characters makes a range.  A range whose ends are out of
order holds nothing: the hyphen and both ends are dropped.  A class of which nothing is left
matches no character, and its complement matches all. -/

namespace PluginManifest

/-- One element of a wildcard pattern. -/
inductive Wildcard
  /-- Any text. -/
  | many
  /-- Any character. -/
  | one
  /-- This character. -/
  | literal (c : CodePoint)
  /-- A character that is in one of the ranges, or with `negated` in none of them. -/
  | oneOf (negated : Bool) (ranges : List (CodePoint × CodePoint))
deriving DecidableEq

namespace Wildcard

/-! ### Classes -/

/-- The content of a class between its brackets, and the pattern after it.  A closing bracket
that comes first in the class belongs to it. -/
def takeClass? (t : Text) : Option (Text × Text) :=
  let (mark, rest) : Text × Text := match t with
    | c :: more => if c = '!' then ([c], more) else ([], t)
    | [] => ([], [])
  let (first, rest) : Text × Text := match rest with
    | c :: more => if c = ']' then ([c], more) else ([], rest)
    | [] => ([], [])
  match rest.dropWhile fun c : CodePoint => c ≠ ']' with
  | [] => none
  | _ :: after => some (mark ++ first ++ rest.takeWhile (fun c : CodePoint => c ≠ ']'), after)

/-- The text up to the first hyphen behind its first `skip` characters, and the text after that
hyphen. -/
def cutHyphen? (skip : Nat) (t : Text) : Option (Text × Text) :=
  match (t.drop skip).dropWhile fun c : CodePoint => c ≠ '-' with
  | [] => none
  | _ :: after => some (t.take skip ++ (t.drop skip).takeWhile (fun c : CodePoint => c ≠ '-'), after)

/-- The pieces of a class between the hyphens that make ranges. -/
def pieces : Nat → Nat → Text → List Text
  | 0, _, t => [t]
  | fuel + 1, skip, t =>
    match cutHyphen? skip t with
    | none => [t]
    | some (piece, []) => [piece ++ "-"]
    | some (piece, rest) => piece :: pieces fuel 2 rest

/-- A piece put before the others: where the range between them is out of order, its ends are
dropped and the two pieces become one. -/
def joinPiece (piece : Text) : List Text → List Text
  | [] => [piece]
  | next :: rest =>
    match piece.getLast?, next with
    | some a, b :: more =>
      if b.val < a.val then (piece.dropLast ++ more) :: rest else piece :: next :: rest
    | _, _ => piece :: next :: rest

/-- The ranges of a class: each character of a piece, and what lies between two pieces. -/
def rangesOf : List Text → List (CodePoint × CodePoint)
  | [] => []
  | [piece] => piece.map fun c => (c, c)
  | piece :: next :: rest =>
    let between := match piece.getLast?, next.head? with
      | some a, some b => [(a, b)]
      | _, _ => []
    piece.map (fun c => (c, c)) ++ between ++ rangesOf (next :: rest)

/-- The element that a class stands for. -/
def ofClass (content : Text) : Wildcard :=
  let skip := if content.head? = some '!' then 2 else 1
  match (pieces content.length skip content).foldr joinPiece [] with
  | [] => .oneOf false []
  | first :: rest =>
    match first with
    | c :: more => if c = '!' then .oneOf true (rangesOf (more :: rest)) else .oneOf false (rangesOf (first :: rest))
    | [] => .oneOf false (rangesOf (first :: rest))

/-! ### Patterns -/

/-- The elements of a pattern, read with fuel for its characters. -/
def readWith : Nat → Text → List Wildcard
  | 0, _ => []
  | _, [] => []
  | fuel + 1, c :: rest =>
    if c = '*' then .many :: readWith fuel rest
    else if c = '?' then .one :: readWith fuel rest
    else if c = '[' then
      match takeClass? rest with
      | some (content, after) => ofClass content :: readWith fuel after
      | none => .literal c :: readWith fuel rest
    else .literal c :: readWith fuel rest

/-- The elements of a pattern. -/
def read (pattern : Text) : List Wildcard := readWith pattern.length pattern

/-- The element matches a single character. -/
def admits (c : CodePoint) : Wildcard → Bool
  | .many => true
  | .one => true
  | .literal d => c = d
  | .oneOf negated ranges => (ranges.any fun (a, b) => a.val ≤ c.val && c.val ≤ b.val) != negated

/-- A text is described by a sequence of elements. -/
def matchAll : List Wildcard → Text → Bool
  | [], t => t.isEmpty
  | .many :: rest, [] => matchAll rest []
  | .many :: rest, c :: t => matchAll rest (c :: t) || matchAll (.many :: rest) t
  | _ :: _, [] => false
  | w :: rest, c :: t => w.admits c && matchAll rest t
termination_by ws t => (ws.length + t.length)

/-- A text is described by a pattern. -/
def describes (pattern t : Text) : Bool := matchAll (read pattern) t

end Wildcard

end PluginManifest
