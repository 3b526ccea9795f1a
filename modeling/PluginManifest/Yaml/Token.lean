import PluginManifest.Text.Utf8
import PluginManifest.Yaml.Scalar

/-! # Tokens of a YAML text

`tokens` cuts a text into tokens.  The structure that indentation gives is made explicit: a
block collection starts with a token of its own and ends with `blockEnd`.

A key needs no mark before it; what makes it a key is the colon behind it.  So wherever a key
may start, the place is kept as a candidate, and the colon puts the token `key` there.  A
candidate lasts to the end of its line and for at most 1024 characters. -/

namespace PluginManifest.Yaml

/-- A line that tells how a document is to be read. -/
inductive Directive
  /-- The version of the language. -/
  | version (major minor : Nat)
  /-- What a tag handle is short for. -/
  | tagHandle (handle meaning : Text)
  /-- A directive without a meaning here. -/
  | other

/-- A token of a YAML text. -/
inductive Token
  | directive (d : Directive)
  | documentStart
  | documentEnd
  | blockSequence
  | blockMapping
  | blockEnd
  | flowSequence
  | flowSequenceEnd
  | flowMapping
  | flowMappingEnd
  | flowEntry
  | blockEntry
  | key
  | value
  | alias (name : Text)
  | anchor (name : Text)
  /-- A tag: a handle, if it has one, and the rest of it. -/
  | tag (handle : Option Text) (suffix : Text)
  /-- A scalar, and whether it is plain. -/
  | scalar (text : Text) (plain : Bool)

/-- A place where a key may start. -/
structure Candidate where
  /-- The number of tokens before it. -/
  position : Nat
  /-- It has to be a key, because a block goes on at its column. -/
  required : Bool
  /-- The number of characters before it. -/
  index : Nat
  /-- The number of lines before it. -/
  line : Nat
  /-- Its column. -/
  column : Nat

/-- What was read so far. -/
structure State where
  /-- Where reading goes on. -/
  cursor : Cursor
  /-- The tokens, last one first. -/
  tokens : List Token
  /-- The columns of the open blocks, innermost first. -/
  blocks : List Nat
  /-- The candidates outside and inside of the open brackets, innermost first. -/
  candidates : List (Option Candidate)
  /-- A key may start here. -/
  keyAllowed : Bool

namespace State

/-- The start of a text. -/
def start (t : Text) : State := ⟨Cursor.start t, [], [], [none], true⟩

/-- The cursor is inside of brackets. -/
def inFlow (s : State) : Bool := 1 < s.candidates.length

/-- The least indentation of what belongs to the innermost block. -/
def inner (s : State) : Nat := match s.blocks with
  | [] => 0
  | column :: _ => column + 1

/-- The state with one more token. -/
def push (s : State) (t : Token) : State := { s with tokens := t :: s.tokens }

/-- The state with a token for the next `n` characters. -/
def take (s : State) (n : Nat) (t : Token) : State :=
  { s.push t with cursor := s.cursor.skip n }

/-- The state with a token put before those that follow the first `position` ones. -/
def insert (s : State) (position : Nat) (t : Token) : State :=
  let later := s.tokens.length - position
  { s with tokens := s.tokens.take later ++ t :: s.tokens.drop later }

/-! ### Candidates -/

/-- The candidate, unless its line or its 1024 characters are over. -/
def fresh (c : Cursor) : Option Candidate → Except Error (Option Candidate)
  | none => .ok none
  | some k =>
    if k.line ≠ c.line || k.index + 1024 < c.index then
      if k.required then .error .malformed else .ok none
    else .ok (some k)

/-- The state without candidates that are over. -/
def dropStale (s : State) : Except Error State := do
  let candidates ← s.candidates.mapM (fresh s.cursor)
  .ok { s with candidates := candidates }

/-- The state without a candidate at this level. -/
def dropCandidate (s : State) : Except Error State :=
  match s.candidates with
  | some k :: rest =>
    if k.required then .error .malformed else .ok { s with candidates := none :: rest }
  | _ => .ok s

/-- The state in which the next token may be a key. -/
def keepCandidate (s : State) : Except Error State :=
  if s.keyAllowed then do
    let s ← s.dropCandidate
    let c := s.cursor
    let k : Candidate :=
      { position := s.tokens.length, required := !s.inFlow && s.blocks.head? = some c.column,
        index := c.index, line := c.line, column := c.column }
    .ok { s with candidates := some k :: s.candidates.drop 1 }
  else .ok s

/-! ### Blocks -/

/-- Opens a block at a column unless one is open there; `position` is where it starts. -/
def openBlock (s : State) (column position : Nat) (t : Token) : State :=
  if s.inner ≤ column then { s.insert position t with blocks := column :: s.blocks } else s

/-- Closes the blocks that `ends` says are over, innermost first. -/
def closeBlocks (ends : Nat → Bool) (s : State) : State :=
  if s.inFlow then s
  else
    let closed := s.blocks.takeWhile ends
    { s with
      blocks := s.blocks.dropWhile ends
      tokens := closed.map (fun _ => Token.blockEnd) ++ s.tokens }

/-- Closes all blocks and lets no key start here. -/
def leaveBlocks (s : State) : Except Error State := do
  let s ← (s.closeBlocks fun _ => true).dropCandidate
  .ok { s with keyAllowed := false }

/-! ### Directives and tags -/

/-- The directive is followed by nothing but a comment. -/
def endDirective (d : Directive) (c : Cursor) : Except Error (Directive × Cursor) :=
  let c := c.skipSpaces.skipComment
  if startsIn isBreak c.rest then .ok (d, c.takeBreak.2) else .error .malformed

/-- A blank other than a tab, or the end of the text. -/
def atGap (c : Cursor) : Bool := startsIn (fun a => isSeparator a && a ≠ '\t') c.rest

/-- A tag handle: `!`, or a word between two of them. -/
def tagHandle (c : Cursor) : Except Error (Text × Cursor) :=
  if !c.at? '!' then .error .malformed
  else if c.next.at? ' ' then .ok ("!", c.next)
  else
    let (word, after) := c.next.takeWhile isWord
    if after.at? '!' then .ok ("!" ++ word ++ "!", after.next) else .error .malformed

/-- A character that the rest of a tag may hold. -/
def isTagChar (c : CodePoint) : Bool :=
  c.digit?.isSome || (Text.ofString "-;/?:@&=+$,_.!~*'()[]%").contains c

/-- The bytes of escapes with a percent sign at the front of a text. -/
def percentBytes? : Text → Option (Bytes × Text)
  | p :: a :: b :: rest =>
    if p = '%' then
      match Text.toNat? 16 [a, b], percentBytes? rest with
      | some n, some (bytes, rest) => some (n.toUInt8 :: bytes, rest)
      | _, _ => none
    else some ([], p :: a :: b :: rest)
  | [] => some ([], [])
  | p :: rest => if p = '%' then none else some ([], p :: rest)

/-- The rest of a tag with its escapes decoded. -/
def tagText : Nat → Text → Except Error Text
  | 0, _ => .error .malformed
  | _, [] => .ok []
  | fuel + 1, c :: rest =>
    if c = '%' then
      match percentBytes? (c :: rest) with
      | none => .error .malformed
      | some (bytes, after) =>
        match Utf8.decode? bytes with
        | none => .error .malformed
        | some t => (tagText fuel after).map (t ++ ·)
    else (tagText fuel rest).map (c :: ·)

/-- The rest of a tag at the cursor. -/
def tagSuffix (c : Cursor) : Except Error (Text × Cursor) :=
  let (written, after) := c.takeWhile isTagChar
  if written.isEmpty then .error .malformed
  else (tagText (written.length + 1) written).map fun t => (t, after)

/-- A tag at the cursor. -/
def readTag (c : Cursor) : Except Error (Token × Cursor) := do
  let (tag, after) ←
    if c.next.at? '<' then
      match ← tagSuffix (c.skip 2) with
      | (suffix, after) =>
        if after.at? '>' then pure (Token.tag none suffix, after.next) else throw .malformed
    else if startsIn isSeparator c.next.rest then pure (Token.tag none "!", c.next)
    else
      let written := c.next.rest.takeWhile fun a => !isSeparator a || a = '\t'
      if written.contains '!' then
        match ← tagHandle c with
        | (handle, after) => do
          let (suffix, after) ← tagSuffix after
          pure (Token.tag (some handle) suffix, after)
      else do
        let (suffix, after) ← tagSuffix c.next
        pure (Token.tag (some "!") suffix, after)
  if atGap after then pure (tag, after) else throw .malformed

/-- A number of a version. -/
def versionNumber (c : Cursor) : Except Error (Nat × Cursor) :=
  let (digits, after) := c.takeWhile CodePoint.isDigit
  match Text.toNat? 10 digits with
  | some n => .ok (n, after)
  | none => .error .malformed

/-- A directive at the cursor. -/
def readDirective (c : Cursor) : Except Error (Directive × Cursor) := do
  let (name, c) := c.next.takeWhile isWord
  if name.isEmpty || !atGap c then throw .malformed
  else if name = "YAML" then
    let (major, c) ← versionNumber c.skipSpaces
    if !c.at? '.' then throw .malformed
    else
      let (minor, c) ← versionNumber c.next
      if atGap c then endDirective (.version major minor) c else throw .malformed
  else if name = "TAG" then
    let (handle, c) ← tagHandle c.skipSpaces
    if !c.at? ' ' then throw .malformed
    else
      let (meaning, c) ← tagSuffix c.skipSpaces
      if atGap c then endDirective (.tagHandle handle meaning) c else throw .malformed
  else endDirective .other (c.dropWhile (!isBreak ·))

/-- The name of an anchor or alias behind its mark. -/
def anchorName (c : Cursor) : Except Error (Text × Cursor) :=
  let (name, after) := c.next.takeWhile isWord
  let ends (a : CodePoint) : Bool :=
    isSeparator a || (Text.ofString "?:,]\x7d%@\x60").contains a
  if !name.isEmpty && startsIn ends after.rest then .ok (name, after) else .error .malformed

/-! ### Reading on -/

/-- The state at the next token: blanks, comments and line breaks are skipped. -/
def skipGap : Nat → State → State
  | 0, s => s
  | fuel + 1, s =>
    let c := s.cursor.skipSpaces.skipComment
    if startsWithIn isBreak c.rest then
      skipGap fuel { s with cursor := c.takeBreak.2, keyAllowed := s.keyAllowed || !s.inFlow }
    else { s with cursor := c }

/-- A mark of the start or the end of a document. -/
def documentMark (s : State) (t : Token) : Except Error State := do
  let s ← s.leaveBlocks
  .ok (s.take 3 t)

/-- An opening bracket. -/
def openFlow (s : State) (t : Token) : Except Error State := do
  let s ← s.keepCandidate
  .ok ({ s with candidates := none :: s.candidates, keyAllowed := true }.take 1 t)

/-- A closing bracket. -/
def closeFlow (s : State) (t : Token) : Except Error State := do
  let s ← s.dropCandidate
  if s.inFlow then
    .ok ({ s with candidates := s.candidates.drop 1, keyAllowed := false }.take 1 t)
  else .error .malformed

/-- A comma between the items of a collection. -/
def flowEntry (s : State) : Except Error State := do
  let s ← s.dropCandidate
  .ok ({ s with keyAllowed := true }.take 1 .flowEntry)

/-- A mark that opens a block where none is open: the mark of an item or of a key. -/
def blockMark (s : State) (opening mark : Token) (keyAllowed : Bool) : Except Error State :=
  if !s.inFlow && !s.keyAllowed then .error .malformed
  else do
    let s := if s.inFlow then s else s.openBlock s.cursor.column s.tokens.length opening
    let s ← { s with keyAllowed := keyAllowed }.dropCandidate
    .ok (s.take 1 mark)

/-- A colon behind a key. -/
def valueMark (s : State) : Except Error State :=
  match s.candidates with
  | some k :: rest =>
    let s := { s with candidates := none :: rest, keyAllowed := false }.insert k.position .key
    let s := if s.inFlow then s else s.openBlock k.column k.position .blockMapping
    .ok (s.take 1 .value)
  | _ => s.blockMark .blockMapping .value (!s.inFlow)

/-- A node that may be a key: its token and the cursor behind it. -/
def node (s : State) (read : Cursor → Except Error (Token × Cursor)) : Except Error State := do
  let s ← s.keepCandidate
  let (t, c) ← read s.cursor
  .ok { s.push t with cursor := c, keyAllowed := false }

/-- A plain scalar. -/
def plainNode (s : State) : Except Error State := do
  let s ← s.keepCandidate
  let (scalar, c) := plainScalar s.inFlow s.inner s.cursor
  .ok { s.push (.scalar scalar.text true) with cursor := c, keyAllowed := scalar.brokenOff }

/-- A block scalar. -/
def blockNode (s : State) (folded : Bool) : Except Error State := do
  let s ← { s with keyAllowed := true }.dropCandidate
  let (text, c) ← blockScalar folded s.inner s.cursor.next
  .ok { s.push (.scalar text false) with cursor := c }

/-- A plain scalar may start with a character that is followed by `after`. -/
def startsPlain (flow : Bool) (c : CodePoint) (after : Text) : Bool :=
  let marks : Text := "-?:,[]\x7b\x7d#&*!|>'\"%@\x60"
  (!isSeparator c && !marks.contains c) ||
    (!startsIn isSeparator after && (c = '-' || (!flow && (c = '?' || c = ':'))))

/-- The state behind the next token; the cursor stands at its first character. -/
def advance (s : State) (c : CodePoint) (after : Text) : Except Error State :=
  let first := s.cursor.column = 0
  let gap := startsIn isSeparator after
  if c = '%' && first then do
    let s ← s.leaveBlocks
    let (d, cursor) ← readDirective s.cursor
    .ok { s.push (.directive d) with cursor := cursor }
  else if c = '-' && first && startsDocument (c :: after) then s.documentMark .documentStart
  else if c = '.' && first && startsDocument (c :: after) then s.documentMark .documentEnd
  else if c = '[' then s.openFlow .flowSequence
  else if c = '\x7b' then s.openFlow .flowMapping
  else if c = ']' then s.closeFlow .flowSequenceEnd
  else if c = '\x7d' then s.closeFlow .flowMappingEnd
  else if c = ',' then s.flowEntry
  else if c = '-' && gap then s.blockMark .blockSequence .blockEntry true
  else if c = '?' && (s.inFlow || gap) then s.blockMark .blockMapping .key (!s.inFlow)
  else if c = ':' && (s.inFlow || gap) then s.valueMark
  else if c = '*' then s.node fun c => (anchorName c).map fun (name, c) => (.alias name, c)
  else if c = '&' then s.node fun c => (anchorName c).map fun (name, c) => (.anchor name, c)
  else if c = '!' then s.node readTag
  else if c = '|' && !s.inFlow then s.blockNode false
  else if c = '>' && !s.inFlow then s.blockNode true
  else if c = '\'' then s.node fun c => (quotedScalar false c).map fun (t, c) => (.scalar t false, c)
  else if c = '\"' then s.node fun c => (quotedScalar true c).map fun (t, c) => (.scalar t false, c)
  else if startsPlain s.inFlow c after then s.plainNode
  else .error .malformed

/-- The tokens up to the end of the text. -/
def run : Nat → State → Except Error (List Token)
  | 0, _ => .error .malformed
  | fuel + 1, s => do
    let s ← (s.skipGap (s.cursor.rest.length + 1)).dropStale
    let s := s.closeBlocks (s.cursor.column < ·)
    match s.cursor.rest with
    | [] => do
      let s ← s.leaveBlocks
      .ok s.tokens.reverse
    | c :: after => do
      let s ← s.advance c after
      run fuel s

end State

/-- The tokens of a text. -/
def tokens (t : Text) : Except Error (List Token) :=
  if !t.all isPrintable then .error .malformed
  else
    let cursor := if startsWithIn (·.val == 0xFEFF) t then (Cursor.start t).next else Cursor.start t
    State.run (t.length + 1) { State.start t with cursor := cursor }

end PluginManifest.Yaml
