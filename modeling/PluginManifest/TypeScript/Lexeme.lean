import PluginManifest.SyntaxTree.Node

/-! # Lexemes of TypeScript

The shapes of tokens in the bytes of a source.  What a token is depends on where the grammar
expects it, so there is no token stream: a `Lexeme` says what is asked for, and `Lexeme.match?`
tells where the token ends that starts at a given offset. -/

namespace PluginManifest.TypeScript

open SyntaxTree

/-- The bytes of a source, with access by offset. -/
abbrev Code := Array UInt8

namespace Code

/-- The byte at an offset; zero after the end. -/
def byte (src : Code) (i : Nat) : UInt8 := src.getD i 0

/-- The source goes on with the given bytes. -/
def startsWith (src : Code) (i : Nat) : Bytes → Bool
  | [] => true
  | b :: rest => i < src.size && src.byte i == b && src.startsWith (i + 1) rest

/-- The end of the run of bytes that satisfy a predicate. -/
def skipWhile (src : Code) (p : UInt8 → Bool) (i : Nat) : Nat :=
  if h : i < src.size then
    if p src[i] then src.skipWhile p (i + 1) else i
  else i
termination_by src.size - i

/-! ### White space and comments -/

/-- The length of the white space character at an offset, or zero. -/
def gapLength (src : Code) (i : Nat) : Nat :=
  let b := src.byte i
  if i ≥ src.size then 0
  else if b == 0x20 || (0x09 ≤ b && b ≤ 0x0D) then 1
  else if b < 0x80 then 0
  else
    let c := src.byte (i + 1)
    let d := src.byte (i + 2)
    if b == 0xC2 && (c == 0xA0 || c == 0x85) then 2
    else if b == 0xE1 && c == 0x9A && d == 0x80 then 3
    else if b == 0xE2 && c == 0x80 && ((0x80 ≤ d && d ≤ 0x8B) || d == 0xA8 || d == 0xA9 || d == 0xAF)
      then 3
    else if b == 0xE2 && c == 0x81 && (d == 0x9F || d == 0xA0) then 3
    else if b == 0xE3 && c == 0x80 && d == 0x80 then 3
    else if b == 0xEF && c == 0xBB && d == 0xBF then 3
    else 0

/-- A line separator or paragraph separator at an offset. -/
def isSeparator (src : Code) (i : Nat) : Bool :=
  src.byte i == 0xE2 && src.byte (i + 1) == 0x80 && (src.byte (i + 2) == 0xA8 || src.byte (i + 2) == 0xA9)

/-- The end of a line comment, from somewhere inside it. -/
def lineCommentEnd (src : Code) (i : Nat) : Nat :=
  if h : i < src.size then
    if src[i] == 0x0A || src[i] == 0x0D || src.isSeparator i then i else src.lineCommentEnd (i + 1)
  else i
termination_by src.size - i

/-- The end of a block comment, from somewhere inside it. -/
def blockCommentEnd? (src : Code) (i : Nat) : Option Nat :=
  if h : i < src.size then
    if src[i] == 0x2A && src.byte (i + 1) == 0x2F then some (i + 2) else src.blockCommentEnd? (i + 1)
  else none
termination_by src.size - i

/-- The end of the comment that starts at an offset. -/
def commentEnd? (src : Code) (i : Nat) : Option Nat :=
  if src.byte i == 0x2F then
    if src.byte (i + 1) == 0x2F then some (src.lineCommentEnd (i + 2))
    else if src.byte (i + 1) == 0x2A then src.blockCommentEnd? (i + 2)
    else none
  else none

/-- The comments between an offset and the next token, and the offset of that token. -/
def trivia (src : Code) : Nat → Nat → List Node × Nat
  | 0, i => ([], i)
  | fuel + 1, i =>
    match src.gapLength i with
    | n + 1 => src.trivia fuel (i + n + 1)
    | 0 =>
      match src.commentEnd? i with
      | some stop =>
        let (comments, next) := src.trivia fuel stop
        (⟨"comment", true, i, stop, none, []⟩ :: comments, next)
      | none => ([], i)

/-- A line feed stands in the given range. -/
def hasBreak (src : Code) (start stop : Nat) : Bool :=
  src.skipWhile (· != 0x0A) start < min stop src.size

/-! ### Names and numbers -/

/-- A hexadecimal digit. -/
def isHex (b : UInt8) : Bool :=
  (0x30 ≤ b && b ≤ 0x39) || (0x41 ≤ b && b ≤ 0x46) || (0x61 ≤ b && b ≤ 0x66)

/-- A decimal digit. -/
def isDigit (b : UInt8) : Bool := 0x30 ≤ b && b ≤ 0x39

/-- The end of an escaped code point after its backslash. -/
def codePointEnd? (src : Code) (i : Nat) : Option Nat :=
  if src.byte i == 0x75 then
    if src.byte (i + 1) == 0x7B then
      let stop := src.skipWhile isHex (i + 2)
      if i + 2 < stop && src.byte stop == 0x7D then some (stop + 1) else none
    else if isHex (src.byte (i + 1)) && isHex (src.byte (i + 2)) && isHex (src.byte (i + 3)) &&
        isHex (src.byte (i + 4)) then some (i + 5)
    else none
  else none

/-- The end of the character of a name at an offset; `i` itself if there is none. -/
def nameStep (src : Code) (first : Bool) (i : Nat) : Nat :=
  let b := src.byte i
  if i ≥ src.size then i
  else if (0x61 ≤ b && b ≤ 0x7A) || (0x41 ≤ b && b ≤ 0x5A) || b == 0x5F || b == 0x24 || b == 0x7F then
    i + 1
  else if isDigit b then if first then i else i + 1
  else if b == 0x5C then (src.codePointEnd? (i + 1)).getD i
  else if b < 0x80 then i
  else if src.gapLength i = 0 then i + 1 else i

/-- The end of a name, from somewhere inside it. -/
def nameRest (src : Code) : Nat → Nat → Nat
  | 0, i => i
  | fuel + 1, i =>
    let j := src.nameStep false i
    if j = i then i else src.nameRest fuel j

/-- The end of the name that starts at an offset. -/
def nameEnd? (src : Code) (i : Nat) : Option Nat :=
  let j := src.nameStep true i
  if j = i then none else some (src.nameRest (src.size - i) j)

/-- The end of digits with single underscores between them. -/
def digitsEnd (src : Code) (p : UInt8 → Bool) : Nat → Nat → Nat
  | 0, i => i
  | fuel + 1, i =>
    if i < src.size && p (src.byte i) then
      if src.byte (i + 1) == 0x5F && p (src.byte (i + 2)) then src.digitsEnd p fuel (i + 2)
      else src.digitsEnd p fuel (i + 1)
    else i

/-- The end of an exponent, or the offset itself. -/
def exponentEnd (src : Code) (i : Nat) : Nat :=
  if src.byte i == 0x65 || src.byte i == 0x45 then
    let j := if src.byte (i + 1) == 0x2B || src.byte (i + 1) == 0x2D then i + 2 else i + 1
    if isDigit (src.byte j) then src.digitsEnd isDigit src.size j else i
  else i

/-- The end of a number after its base mark, with the mark of a big integer. -/
def basedEnd? (src : Code) (p : UInt8 → Bool) (i : Nat) : Option Nat :=
  if p (src.byte i) then
    let stop := src.digitsEnd p src.size i
    some (if src.byte stop == 0x6E then stop + 1 else stop)
  else none

/-- The end of a decimal number that starts with a digit. -/
def decimalEnd (src : Code) (i : Nat) : Nat :=
  let whole := src.digitsEnd isDigit src.size i
  if src.byte whole == 0x2E then
    let fraction := src.digitsEnd isDigit src.size (whole + 1)
    src.exponentEnd fraction
  else if src.byte whole == 0x6E then whole + 1
  else src.exponentEnd whole

/-- The end of the number that starts at an offset. -/
def numberEnd? (src : Code) (i : Nat) : Option Nat :=
  let b := src.byte i
  let c := src.byte (i + 1)
  if b == 0x30 && (c == 0x78 || c == 0x58) then src.basedEnd? isHex (i + 2)
  else if b == 0x30 && (c == 0x62 || c == 0x42) then
    src.basedEnd? (fun d => d == 0x30 || d == 0x31) (i + 2)
  else if b == 0x30 && (c == 0x6F || c == 0x4F) then
    src.basedEnd? (fun d => 0x30 ≤ d && d ≤ 0x37) (i + 2)
  else if isDigit b then some (src.decimalEnd i)
  else if b == 0x2E && isDigit c then
    some (src.exponentEnd (src.digitsEnd isDigit src.size (i + 1)))
  else none

/-! ### Inside literals -/

/-- The length of the encoded character that starts with a byte. -/
def characterLength (b : UInt8) : Nat :=
  if b < 0xC0 then 1 else if b < 0xE0 then 2 else if b < 0xF0 then 3 else 4

/-- The end of an escape that starts with a backslash. -/
def escapeEnd? (src : Code) (i : Nat) : Option Nat :=
  let b := src.byte (i + 1)
  if src.byte i != 0x5C || i + 1 ≥ src.size then none
  else if b == 0x78 then
    if isHex (src.byte (i + 2)) && isHex (src.byte (i + 3)) then some (i + 4) else none
  else if b == 0x75 then src.codePointEnd? (i + 1)
  else if 0x30 ≤ b && b ≤ 0x37 then
    let octal := fun d : UInt8 => 0x30 ≤ d && d ≤ 0x37
    if octal (src.byte (i + 2)) then
      if octal (src.byte (i + 3)) then some (i + 4) else some (i + 3)
    else some (i + 2)
  else if b == 0x0D && src.byte (i + 2) == 0x0A then some (i + 3)
  else some (i + 1 + characterLength b)

/-- A non-empty range. -/
def nonEmpty? (start stop : Nat) : Option Nat := if start < stop then some stop else none

/-- The end of the plain part of a string in the given quotes. -/
def stringPartEnd? (src : Code) (quote : UInt8) (i : Nat) : Option Nat :=
  nonEmpty? i (src.skipWhile (fun b => b != quote && b != 0x5C && b != 0x0D && b != 0x0A) i)

/-- The end of the plain part of a template, from somewhere inside it. -/
def templatePartEnd (src : Code) (i : Nat) : Nat :=
  if h : i < src.size then
    if src[i] == 0x60 || src[i] == 0x5C || (src[i] == 0x24 && src.byte (i + 1) == 0x7B) then i
    else src.templatePartEnd (i + 1)
  else i
termination_by src.size - i

/-- The end of a regular expression before its closing slash; `inClass` inside brackets. -/
def regexEnd? (src : Code) : Nat → Bool → Nat → Option Nat
  | 0, _, _ => none
  | fuel + 1, inClass, i =>
    let b := src.byte i
    if i ≥ src.size || b == 0x0A then none
    else if b == 0x5C then src.regexEnd? fuel inClass (i + 2)
    else if inClass then src.regexEnd? fuel (b != 0x5D) (i + 1)
    else if b == 0x2F then some i
    else src.regexEnd? fuel (b == 0x5B) (i + 1)

/-! ### Inside markup -/

/-- The end of the text between elements, and whether it says more than a line break and the
white space around it. -/
def markupTextEnd (src : Code) : Nat → (atBreak sawText : Bool) → Nat → Bool × Nat
  | 0, _, saw, i => (saw, i)
  | fuel + 1, atBreak, saw, i =>
    let b := src.byte i
    if i ≥ src.size || b == 0x3C || b == 0x3E || b == 0x7B || b == 0x7D || b == 0x26 then (saw, i)
    else if b == 0x0A then src.markupTextEnd fuel true saw (i + 1)
    else
      let still := atBreak && src.gapLength i != 0
      src.markupTextEnd fuel still (saw || !still) (i + 1)

/-- The end of a character reference such as `&amp;`. -/
def referenceEnd? (src : Code) (i : Nat) : Option Nat :=
  let letter := fun b : UInt8 => (0x61 ≤ b && b ≤ 0x7A) || (0x41 ≤ b && b ≤ 0x5A)
  let close := fun (start stop most : Nat) =>
    if start < stop && stop ≤ start + most && src.byte stop == 0x3B then some (stop + 1) else none
  if src.byte i != 0x26 then none
  else if src.byte (i + 1) == 0x23 then
    if src.byte (i + 2) == 0x78 || src.byte (i + 2) == 0x58 then
      close (i + 3) (src.skipWhile isHex (i + 3)) 6
    else close (i + 2) (src.skipWhile isDigit (i + 2)) 5
  else close (i + 1) (src.skipWhile letter (i + 1)) 30

/-- The end of the plain part of an attribute's string in the given quotes. -/
def attributePartEnd (src : Code) (quote : UInt8) : Nat → Nat → Nat
  | 0, i => i
  | fuel + 1, i =>
    let b := src.byte i
    let c := src.byte (i + 1)
    if i ≥ src.size || b == quote then i
    else if b == 0x26 && (c == 0x23 || (0x61 ≤ c && c ≤ 0x7A) || (0x41 ≤ c && c ≤ 0x5A)) then i
    else src.attributePartEnd quote fuel (i + 1)

/-- The end of a name that holds a hyphen. -/
def hyphenNameEnd? (src : Code) (i : Nat) : Option Nat :=
  let part := fun b : UInt8 =>
    (0x61 ≤ b && b ≤ 0x7A) || (0x41 ≤ b && b ≤ 0x5A) || b == 0x5F || b == 0x24 || isDigit b
  let first := src.skipWhile part i
  if i < first && !isDigit (src.byte i) && src.byte first == 0x2D then
    some (src.skipWhile (fun b => part b || b == 0x2D) (first + 1))
  else none

end Code

/-! ### Lexemes -/

/-- What a grammar may ask for at an offset. -/
inductive Lexeme
  /-- Exactly these bytes. -/
  | text (bytes : Bytes)
  /-- A name that is exactly this word. -/
  | keyword (word : Bytes)
  /-- These bytes, where no longer operator starts. -/
  | operator (bytes : Bytes)
  /-- A name that is none of the given words. -/
  | name (except : List Bytes)
  /-- A name after a number sign. -/
  | privateName
  /-- A name that holds a hyphen. -/
  | hyphenName
  /-- A number. -/
  | number
  /-- An escape. -/
  | escape
  /-- The plain part of a string in the given quotes. -/
  | stringPart (quote : UInt8)
  /-- The plain part of a template. -/
  | templatePart
  /-- The pattern of a regular expression. -/
  | regex
  /-- The flags of a regular expression. -/
  | regexFlags
  /-- Text between elements. -/
  | markupText
  /-- A character reference. -/
  | reference
  /-- The plain part of an attribute's string in the given quotes. -/
  | attributePart (quote : UInt8)
  /-- A first line that names an interpreter. -/
  | hashBang

/-- The bytes of a string. -/
def bytesOf (s : String) : Bytes := s.toUTF8.toList

/-- The operators of more than one byte, longer ones first. -/
def longOperators : List Bytes :=
  [">>>=", "...", "===", "!==", "**=", "<<=", ">>=", ">>>", "&&=", "||=", "??=", "=>", "==", "!=",
   "<=", ">=", "&&", "||", "??", "?.", "++", "--", "+=", "-=", "*=", "/=", "%=", "&=", "|=", "^=",
   "<<", ">>", "**"].map bytesOf

/-- The length of the operator at an offset. -/
def operatorLength (src : Code) (i : Nat) : Nat :=
  match longOperators.find? (src.startsWith i) with
  | some op => if op == [0x3F, 0x2E] && Code.isDigit (src.byte (i + 2)) then 1 else op.length
  | none => 1

/-- The end of the token that starts at an offset, if it is what is asked for. -/
def Lexeme.match? (src : Code) (i : Nat) : Lexeme → Option Nat
  | text bytes => if src.startsWith i bytes then some (i + bytes.length) else none
  | keyword word =>
    if src.startsWith i word && src.nameStep false (i + word.length) = i + word.length then
      some (i + word.length)
    else none
  | operator bytes =>
    if src.startsWith i bytes && operatorLength src i = bytes.length then some (i + bytes.length)
    else none
  | name words =>
    match src.nameEnd? i with
    | some stop =>
      if words.any fun w => i + w.length = stop && src.startsWith i w then none else some stop
    | none => none
  | privateName => if src.byte i == 0x23 then src.nameEnd? (i + 1) else none
  | hyphenName => src.hyphenNameEnd? i
  | number => src.numberEnd? i
  | escape => src.escapeEnd? i
  | stringPart quote => src.stringPartEnd? quote i
  | templatePart => Code.nonEmpty? i (src.templatePartEnd i)
  | regex => (src.regexEnd? src.size false i).bind (Code.nonEmpty? i)
  | regexFlags => Code.nonEmpty? i (src.skipWhile (fun b => 0x61 ≤ b && b ≤ 0x7A) i)
  | markupText =>
    let (saw, stop) := src.markupTextEnd src.size false false i
    if saw then some stop else none
  | reference => src.referenceEnd? i
  | attributePart quote => Code.nonEmpty? i (src.attributePartEnd quote src.size i)
  | hashBang =>
    if src.startsWith i [0x23, 0x21] then some (src.skipWhile (· != 0x0A) i) else none

end PluginManifest.TypeScript
