import PluginManifest.Yaml.Cursor

/-! # Scalars of a YAML text

A scalar is written plain, in single or double quotes, or as a block.  A line break inside a
quoted or plain scalar is folded: one break becomes a space, and of several the first is
dropped.  A block keeps its line breaks, or folds those between lines that start with text. -/

namespace PluginManifest.Yaml

/-- A value or a fault, and the cursor behind what was read. -/
abbrev Reading (α : Type) := Except Error (α × Cursor)

/-- The line breaks of a folded text: `first` and those that follow it. -/
def foldBreaks (first : Text) (more : List Text) : Text :=
  (if first ≠ "\n" then first else if more.isEmpty then " " else []) ++ more.flatten

/-! ### Quoted scalars -/

/-- The characters that a letter after a backslash stands for. -/
def namedEscapes : List (CodePoint × Nat) :=
  [('0', 0x00), ('a', 0x07), ('b', 0x08), ('t', 0x09), ('\t', 0x09), ('n', 0x0A), ('v', 0x0B),
   ('f', 0x0C), ('r', 0x0D), ('e', 0x1B), (' ', 0x20), ('\"', 0x22), ('\\', 0x5C), ('/', 0x2F),
   ('N', 0x85), ('_', 0xA0), ('L', 0x2028), ('P', 0x2029)]

/-- The number of digits after a letter that announces a code point. -/
def codeLength? (c : CodePoint) : Option Nat :=
  if c = 'x' then some 2 else if c = 'u' then some 4 else if c = 'U' then some 8 else none

/-- The code point of a number. -/
def codePoint (n : Nat) : Except Error CodePoint :=
  match CodePoint.ofNat? n with
  | some c => .ok c
  | none => .error (if n < 0x80000000 then .noCodePoint else .hugeCodePoint)

/-- The line breaks between two parts of a quoted scalar.  A mark of a document may not stand
there. -/
def quotedBreaks : Nat → Cursor → Reading (List Text)
  | 0, c => .ok ([], c)
  | fuel + 1, c =>
    if startsDocument c.rest then .error .malformed
    else
      let c := c.dropWhile fun a : CodePoint => a = ' ' || a = '\t'
      if startsWithIn isBreak c.rest then
        let (b, c) := c.takeBreak
        (quotedBreaks fuel c).map fun (more, c) => (b :: more, c)
      else .ok ([], c)

/-- An escape after its backslash. -/
def escape (c : Cursor) : Reading Text :=
  match c.peek? with
  | none => .error .malformed
  | some a =>
    match namedEscapes.lookup a, codeLength? a with
    | some n, _ => (codePoint n).map fun p => ([p], c.next)
    | none, some length =>
      let digits := c.next.rest.take length
      match if digits.length = length then Text.toNat? 16 digits else none with
      | none => .error .malformed
      | some n => (codePoint n).map fun p => ([p], c.next.skip length)
    | none, none =>
      if isBreak a then
        let (_, c) := c.takeBreak
        (quotedBreaks c.rest.length c).map fun (breaks, c) => (breaks.flatten, c)
      else .error .malformed

/-- The blanks inside a quoted scalar: spaces on a line, or folded line breaks. -/
def quotedBlanks (c : Cursor) : Reading Text :=
  let (spaces, c) := c.takeWhile fun a : CodePoint => a = ' ' || a = '\t'
  if c.atEnd then .error .malformed
  else if startsWithIn isBreak c.rest then
    let (first, c) := c.takeBreak
    (quotedBreaks c.rest.length c).map fun (more, c) => (foldBreaks first more, c)
  else .ok (spaces, c)

/-- A quoted scalar behind its opening quote, and the cursor behind its closing quote. -/
def quoted (double : Bool) : Nat → Cursor → Reading Text
  | 0, _ => .error .malformed
  | fuel + 1, c =>
    let go (part : Text) (c : Cursor) : Reading Text :=
      (quoted double fuel c).map fun (more, c) => (part ++ more, c)
    match c.peek? with
    | none => .error .malformed
    | some a =>
      if isSeparator a then
        match quotedBlanks c with
        | .ok (part, c) => go part c
        | .error e => .error e
      else if double && a = '\"' then .ok ([], c.next)
      else if double && a = '\\' then
        match escape c.next with
        | .ok (part, c) => go part c
        | .error e => .error e
      else if !double && a = '\'' then
        if c.next.at? '\'' then go [a] (c.skip 2) else .ok ([], c.next)
      else go [a] c.next

/-- A quoted scalar at its opening quote. -/
def quotedScalar (double : Bool) (c : Cursor) : Reading Text :=
  quoted double c.rest.length c.next

/-! ### Plain scalars -/

/-- A character of a collection in brackets. -/
def isFlowMark (c : CodePoint) : Bool := c = ',' || c = '[' || c = ']' || c = '\x7b' || c = '\x7d'

/-- The number of characters before the first one that ends a run of a plain scalar: a blank, a
colon before a blank, and inside brackets also a mark of a collection. -/
def plainRun (flow : Bool) : Text → Nat
  | [] => 0
  | a :: rest =>
    if isSeparator a then 0
    else if a = ':' && startsIn (fun b => isSeparator b || (flow && isFlowMark b)) rest then 0
    else if flow && (isFlowMark a || a = '?') then 0
    else plainRun flow rest + 1

/-- The blanks after a run of a plain scalar. -/
inductive PlainBlanks
  /-- Spaces on a line, or none. -/
  | spaces (t : Text)
  /-- Folded line breaks. -/
  | folded (t : Text)
  /-- Line breaks before a mark of a document. -/
  | documentEnd

/-- The line breaks of a plain scalar behind the first one. -/
def plainBreaks : Nat → Cursor → Option (List Text) × Cursor
  | 0, c => (some [], c)
  | fuel + 1, c =>
    if c.at? ' ' then plainBreaks fuel c.next
    else if startsWithIn isBreak c.rest then
      let (b, c) := c.takeBreak
      if startsDocument c.rest then (none, c)
      else
        let (more, c) := plainBreaks fuel c
        (more.map (b :: ·), c)
    else (some [], c)

/-- The blanks after a run of a plain scalar, and the cursor behind them. -/
def plainBlanks (c : Cursor) : PlainBlanks × Cursor :=
  let (spaces, c) := c.takeWhile fun a : CodePoint => a = ' '
  if startsWithIn isBreak c.rest then
    let (first, c) := c.takeBreak
    if startsDocument c.rest then (.documentEnd, c)
    else
      match plainBreaks c.rest.length c with
      | (some more, c) => (.folded (foldBreaks first more), c)
      | (none, c) => (.documentEnd, c)
  else (.spaces spaces, c)

/-- A plain scalar that was read. -/
structure Plain where
  /-- The value. -/
  text : Text
  /-- A line break follows, so that a key may come next. -/
  brokenOff : Bool

/-- A plain scalar, read with `blanks` before its next run; lines after the first are indented
to `indent`. -/
def plain (flow : Bool) (indent : Nat) : Nat → Text → Bool → Cursor → Plain × Cursor
  | 0, _, broken, c => (⟨[], broken⟩, c)
  | fuel + 1, blanks, broken, c =>
    let n := if c.at? '#' then 0 else plainRun flow c.rest
    if n = 0 then (⟨[], broken⟩, c)
    else
      let run := blanks ++ c.rest.take n
      let finish (broken : Bool) (c : Cursor) : Plain × Cursor := (⟨run, broken⟩, c)
      let go (blanks : Text) (broken : Bool) (c : Cursor) : Plain × Cursor :=
        if blanks.isEmpty || c.at? '#' || (!flow && c.column < indent) then finish broken c
        else
          let (more, c) := plain flow indent fuel blanks broken c
          (⟨run ++ more.text, more.brokenOff⟩, c)
      match plainBlanks (c.skip n) with
      | (.spaces t, c) => go t false c
      | (.folded t, c) => go t true c
      | (.documentEnd, c) => finish true c

/-- A plain scalar at the cursor. -/
def plainScalar (flow : Bool) (indent : Nat) (c : Cursor) : Plain × Cursor :=
  plain flow indent (c.rest.length + 1) [] false c

/-! ### Block scalars -/

/-- What becomes of the line breaks at the end of a block. -/
inductive Chomping
  /-- All are dropped. -/
  | strip
  /-- One is kept. -/
  | clip
  /-- All are kept. -/
  | keep
deriving DecidableEq

/-- The chomping that a sign asks for. -/
def chomping? (c : Cursor) : Option Chomping :=
  if c.at? '+' then some .keep else if c.at? '-' then some .strip else none

/-- The indentation that a digit asks for. -/
def indentDigit? (c : Cursor) : Option Nat := c.peek?.bind (·.digitIn? 10)

/-- The chomping and the indentation in the header of a block, in either order. -/
def blockHeader (c : Cursor) : Reading (Chomping × Option Nat) :=
  let (chomping, indent, c) :=
    match chomping? c with
    | some ch =>
      match indentDigit? c.next with
      | some n => (ch, some n, c.skip 2)
      | none => (ch, none, c.next)
    | none =>
      match indentDigit? c with
      | some n =>
        match chomping? c.next with
        | some ch => (ch, some n, c.skip 2)
        | none => (Chomping.clip, some n, c.next)
      | none => (Chomping.clip, none, c)
  if indent = some 0 then .error .malformed
  else if startsIn (fun a => isSeparator a && a ≠ '\t') c.rest then
    let c := c.skipSpaces.skipComment
    if startsIn isBreak c.rest then .ok ((chomping, indent), c.takeBreak.2)
    else .error .malformed
  else .error .malformed

/-- The empty lines at the start of a block whose indentation is not given, and the deepest
indentation among them and the first line with text. -/
def blockStart : Nat → Nat → Cursor → List Text × Nat × Cursor
  | 0, depth, c => ([], depth, c)
  | fuel + 1, depth, c =>
    if c.at? ' ' then blockStart fuel (max depth c.next.column) c.next
    else if startsWithIn isBreak c.rest then
      let (b, c) := c.takeBreak
      let (more, depth, c) := blockStart fuel depth c
      (b :: more, depth, c)
    else ([], depth, c)

/-- The cursor behind spaces, up to a column. -/
def skipIndent (indent : Nat) (c : Cursor) : Cursor :=
  c.skip (min ((c.rest.takeWhile fun a : CodePoint => a = ' ').length) (indent - c.column))

/-- The empty lines in a block that is indented to `indent`. -/
def blockBreaks (indent : Nat) : Nat → Cursor → List Text × Cursor
  | 0, c => ([], c)
  | fuel + 1, c =>
    let c := skipIndent indent c
    if startsWithIn isBreak c.rest then
      let (b, c) := c.takeBreak
      let (more, c) := blockBreaks indent fuel c
      (b :: more, c)
    else ([], c)

/-- The lines of a block: their text, the last line break, and the empty lines at the end. -/
def blockLines (folded : Bool) (indent : Nat) :
    Nat → List Text → Cursor → Text × Text × List Text × Cursor
  | 0, breaks, c => ([], [], breaks, c)
  | fuel + 1, breaks, c =>
    if c.column = indent && !c.atEnd then
      let indented := startsWithIn (fun a => a = ' ' || a = '\t') c.rest
      let (line, c) := c.takeWhile (!isBreak ·)
      let (lineBreak, c) := c.takeBreak
      let (more, c) := blockBreaks indent c.rest.length c
      let text := breaks.flatten ++ line
      if c.column = indent && !c.atEnd then
        let nextIndented := startsWithIn (fun a => a = ' ' || a = '\t') c.rest
        let between : Text :=
          if folded && lineBreak = "\n" && !indented && !nextIndented then
            if more.isEmpty then " " else []
          else lineBreak
        let (rest, last) := blockLines folded indent fuel more c
        (text ++ between ++ rest, last)
      else (text, lineBreak, more, c)
    else ([], [], breaks, c)

/-- A block scalar at the cursor, behind its mark; `parent` is the least indentation. -/
def blockScalar (folded : Bool) (parent : Nat) (c : Cursor) : Except Error (Text × Cursor) := do
  let ((chomping, given), c) ← blockHeader c
  let least := max parent 1
  let (breaks, indent, c) := match given with
    | some n =>
      let indent := least + n - 1
      let (breaks, c) := blockBreaks indent c.rest.length c
      (breaks, indent, c)
    | none =>
      let (breaks, depth, c) := blockStart c.rest.length 0 c
      (breaks, max least depth, c)
  let (text, lineBreak, breaks, c) := blockLines folded indent (c.rest.length + 1) breaks c
  let ending : Text := match chomping with
    | .strip => []
    | .clip => lineBreak
    | .keep => lineBreak ++ breaks.flatten
  .ok (text ++ ending, c)

end PluginManifest.Yaml
