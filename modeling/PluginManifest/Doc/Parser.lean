import PluginManifest.Doc.Comment
import PluginManifest.Text.Blank

/-! # Reading documentation comments

`Doc.parse` reads every block of a text that opens with `/**` and closes with the next `*/`.
The lines of a block lose their gutter (the asterisk they start with) and the blanks around
them.  A line that starts with `@` and a word opens a tag, which takes the lines after it up to
the next tag; the lines before the first tag are the description. -/

namespace PluginManifest.Doc

/-! ### Blocks -/

/-- The bodies of the blocks of a text: each runs from `/**` to the next `*/`. -/
def bodies (t : Text) : List Text :=
  match hOpen : Text.breakOn? "/**" t with
  | none => []
  | some (_, inside) =>
    match hClose : Text.breakOn? "*/" inside with
    | none => []
    | some (body, after) =>
      have : after.length < t.length := by
        have h1 := Text.length_of_breakOn? hOpen
        have h2 := Text.length_of_breakOn? hClose
        have h3 : (Text.ofString "*/").length = 2 := by decide
        omega
      body :: bodies after
termination_by t.length

/-! ### Lines -/

/-- Every carriage return before a line feed is dropped. -/
def joinBreaks : Text → Text
  | [] => []
  | [c] => [c]
  | c :: d :: rest =>
    if c = '\r' && d = '\n' then joinBreaks (d :: rest) else c :: joinBreaks (d :: rest)

/-- The line without its gutter: blanks, an asterisk that closes no comment, one space. -/
def dropGutter (line : Text) : Text :=
  match Text.trimStart line with
  | star :: rest =>
    if star = '*' then
      match rest with
      | [] => []
      | c :: more => if c = '/' then line else if c = ' ' then more else rest
    else line
  | [] => line

/-- The lines of a block's body, trimmed.  The first one follows the opening and has no
gutter. -/
def contentLines (body : Text) : List Text :=
  match Text.splitOn '\n' (joinBreaks body) with
  | [] => []
  | first :: rest => Text.trim first :: rest.map fun line => Text.trim (dropGutter line)

/-! ### Tags -/

/-- The position of the closing bracket that matches the first opening one, counted from a
depth. -/
def closing? (opener closer : CodePoint) : Nat → Text → Option (Text × Text)
  | _, [] => none
  | depth, c :: rest =>
    if c = opener then
      (closing? opener closer (depth + 1) rest).map fun (inside, after) => (c :: inside, after)
    else if c = closer then
      if depth ≤ 1 then some ([], rest)
      else (closing? opener closer (depth - 1) rest).map fun (inside, after) => (c :: inside, after)
    else (closing? opener closer depth rest).map fun (inside, after) => (c :: inside, after)

/-- The content of a bracket whose opener has been read, and the text after it, both trimmed.
A bracket that is never closed takes everything. -/
def takeBalanced (opener closer : CodePoint) (t : Text) : Text × Text :=
  match closing? opener closer 1 t with
  | some (inside, after) => (Text.trim inside, Text.trim after)
  | none => (Text.trim t, [])

/-- The type in braces at the front of a tag line, and the text after it. -/
def takeType (rest : Text) : Text × Text :=
  match rest with
  | c :: more => if c = '\x7b' then takeBalanced '\x7b' '\x7d' more else ([], rest)
  | [] => ([], [])

/-- The value of a tag line, and the text after it: a bracketed name without its default, a
quoted text, or a word. -/
def takeValue (rest : Text) : Text × Text :=
  match rest with
  | [] => ([], [])
  | c :: more =>
    if c = '[' then
      let (inside, after) := takeBalanced '[' ']' more
      (Text.trim (inside.takeWhile fun d : CodePoint => d ≠ '='), after)
    else if c = '\"' || c = '\x27' then
      match Text.breakOn? [c] more with
      | some (quoted, after) => (quoted, Text.trim after)
      | none => (rest, [])
    else Text.cutWord rest

/-- A tag under construction: its first line, and the lines of its description. -/
structure OpenTag where
  /-- The tag as far as its first line gives it. -/
  tag : Tag
  /-- The lines of its description. -/
  lines : List Text

/-- The tag that a line opens: `@`, a name, and the rest of the line. -/
def openTag? (line : Text) : Option OpenTag :=
  match line with
  | c :: rest =>
    let name := rest.takeWhile (!·.isBlank)
    if c = '@' && !name.isEmpty then
      let (type, more) := takeType (Text.trim (rest.dropWhile (!·.isBlank)))
      let (value, more) := takeValue more
      let text := Text.trim more
      some ⟨⟨name, type, value, []⟩, if text.isEmpty then [] else [text]⟩
    else none
  | [] => none

/-- The finished tag. -/
def OpenTag.close (t : OpenTag) : Tag := { t.tag with description := Text.join " " t.lines }

/-- The lines that belong to what stands before them: all lines up to the next tag, without
the empty ones. -/
def continuation : List Text → List Text
  | [] => []
  | line :: rest =>
    match openTag? line with
    | some _ => []
    | none => if line.isEmpty then continuation rest else line :: continuation rest

/-- The tags that a list of lines opens, each with the lines that continue it. -/
def tagsOf : List Text → List Tag
  | [] => []
  | line :: rest =>
    match openTag? line with
    | some t => OpenTag.close { t with lines := t.lines ++ continuation rest } :: tagsOf rest
    | none => tagsOf rest

/-- The comment that a list of trimmed lines writes. -/
def ofLines (lines : List Text) : Comment :=
  { description := Text.join " " (continuation lines), tags := tagsOf lines }

/-- The comment in the body of a block. -/
def parseBody (body : Text) : Comment := ofLines (contentLines body)

/-- The comments of all blocks of a text. -/
def parse (t : Text) : List Comment := (bodies t).map parseBody

end PluginManifest.Doc
