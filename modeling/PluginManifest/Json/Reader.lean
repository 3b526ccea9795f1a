import PluginManifest.Literal.Number
import PluginManifest.Value.Basic

/-! # Reading JSON

`Json.read` reads a whole text as one value.  Beyond the standard it knows `NaN` and the two
infinities; a map keeps the first place and the last value of a repeated key; an escaped
surrogate is combined with the one after it where they form a pair. -/

namespace PluginManifest

/-- Why a text is no JSON document. -/
inductive JsonError
  /-- The text breaks the grammar. -/
  | malformed
  /-- An integer with more digits than can be converted. -/
  | longInteger
deriving DecidableEq, Repr

namespace Json

/-- White space between the tokens of a document. -/
def isGap (c : CodePoint) : Bool := c.val == 0x20 || c.val == 0x09 || c.val == 0x0A || c.val == 0x0D

/-- The text without the white space at its front. -/
def skipGap (t : Text) : Text := t.dropWhile isGap

/-- What a single character after a backslash stands for. -/
def simpleEscape? (c : CodePoint) : Option CodePoint :=
  if c = '\"' || c = '\\' || c = '/' then some c
  else if c = 'b' then some '\x08' else if c = 'f' then some '\x0c' else if c = 'n' then some '\n'
  else if c = 'r' then some '\r' else if c = 't' then some '\t' else none

/-- Four hexadecimal digits at the front of a text. -/
def hex4? : Text → Option (Nat × Text)
  | a :: b :: c :: d :: rest => (Text.toNat? 16 [a, b, c, d]).map fun n => (n, rest)
  | _ => none

/-- The code point of a pair of surrogates. -/
def pair? (high low : Nat) : Option CodePoint :=
  if 0xD800 ≤ high && high < 0xDC00 && 0xDC00 ≤ low && low < 0xE000 then
    CodePoint.ofNat? (0x10000 + (high - 0xD800) * 0x400 + (low - 0xDC00))
  else none

/-- The low surrogate that completes `high`, escaped at the front of a text. -/
def completion? (high : Nat) : Text → Option (CodePoint × Text)
  | a :: b :: rest =>
    if a = '\\' && b = 'u' then
      match hex4? rest with
      | some (low, after) => (pair? high low).map fun c => (c, after)
      | none => none
    else none
  | _ => none

/-- One character of a string and the text after it. -/
def character? : Text → Option (CodePoint × Text)
  | [] => none
  | c :: rest =>
    if c.val < 0x20 then none
    else if c = '\\' then
      match rest with
      | [] => none
      | d :: more =>
        if d = 'u' then
          match hex4? more with
          | none => none
          | some (n, after) =>
            match completion? n after with
            | some found => some found
            | none => (CodePoint.ofNat? n).map fun p => (p, after)
        else (simpleEscape? d).map fun p => (p, more)
    else some (c, rest)

/-- A string after its opening quote, and the text after its closing quote. -/
def string? : Nat → Text → Option (Text × Text)
  | 0, _ => none
  | _ + 1, [] => none
  | fuel + 1, c :: rest =>
    if c = '\"' then some ([], rest)
    else
      match character? (c :: rest) with
      | none => none
      | some (p, after) => (string? fuel after).map fun (ps, left) => (p :: ps, left)

/-- The decimal digits at the front of a text, and the text after them. -/
def digits (t : Text) : Text × Text := (t.takeWhile CodePoint.isDigit, t.dropWhile CodePoint.isDigit)

/-- The whole part of a number: `0`, or digits without a leading zero. -/
def whole? : Text → Option (Text × Text)
  | [] => none
  | c :: rest =>
    if c = '0' then some ([c], rest)
    else if c.isDigit then some (digits (c :: rest)) else none

/-- The fraction of a number with its point, if one follows. -/
def fraction (t : Text) : Text × Text :=
  match t with
  | c :: rest =>
    if c = '.' && !(digits rest).1.isEmpty then (c :: (digits rest).1, (digits rest).2) else ([], t)
  | [] => ([], [])

/-- The exponent of a number with its mark, if one follows. -/
def exponent (t : Text) : Text × Text :=
  match t with
  | c :: rest =>
    let (sign, more) : Text × Text := match rest with
      | s :: ds => if s = '+' || s = '-' then ([s], ds) else ([], rest)
      | [] => ([], [])
    if c.lower = 'e' && !(digits more).1.isEmpty then
      (c :: sign ++ (digits more).1, (digits more).2)
    else ([], t)
  | [] => ([], [])

/-- A number at the front of a text, without its sign. -/
def number (negative : Bool) (t : Text) : Except JsonError (Value × Text) :=
  match whole? t with
  | none => .error .malformed
  | some (whole, rest) =>
    let (frac, rest) := fraction rest
    let (power, rest) := exponent rest
    if frac.isEmpty && power.isEmpty then
      if maxDigits < whole.length then .error .longInteger
      else
        let n := (Text.toNat? 10 whole).getD 0
        .ok (.int (if negative then -(n : Int) else n), rest)
    else
      match Binary64.readMagnitude? negative (whole ++ frac ++ power) with
      | some x => .ok (.float x, rest)
      | none => .error .malformed

/-- The words that stand for values. -/
def constants : List (Text × Value) :=
  [("null", .null), ("true", .bool true), ("false", .bool false), ("NaN", .float .nan),
   ("Infinity", .float (.infinite false)), ("-Infinity", .float (.infinite true))]

/-- A value that is neither a string nor a list nor a map. -/
def scalar (t : Text) : Except JsonError (Value × Text) :=
  match constants.findSome? fun (word, v) => (Text.dropStart? word t).map fun rest => (v, rest) with
  | some found => .ok found
  | none =>
    match t with
    | [] => .error .malformed
    | c :: rest => if c = '-' then number true rest else number false (c :: rest)

mutual

/-- A value at the front of a text, and the text after it. -/
def value : Nat → Text → Except JsonError (Value × Text)
  | 0, _ => .error .malformed
  | fuel + 1, t =>
    match t with
    | [] => .error .malformed
    | c :: rest =>
      if c = '\"' then
        match string? (rest.length + 1) rest with
        | some (s, after) => .ok (.text s, after)
        | none => .error .malformed
      else if c = '[' then
        match skipGap rest with
        | [] => .error .malformed
        | d :: more =>
          if d = ']' then .ok (.list [], more)
          else (items fuel (d :: more)).map fun (vs, after) => (.list vs, after)
      else if c = '\x7b' then
        match skipGap rest with
        | [] => .error .malformed
        | d :: more =>
          if d = '\x7d' then .ok (.map [], more)
          else (pairs fuel (d :: more)).map fun (ps, after) => (.map (Keyed.ofPairs ps), after)
      else scalar (c :: rest)

/-- The items of a list up to its closing bracket. -/
def items : Nat → Text → Except JsonError (List Value × Text)
  | 0, _ => .error .malformed
  | fuel + 1, t =>
    match value fuel t with
    | .error e => .error e
    | .ok (v, after) =>
      match skipGap after with
      | [] => .error .malformed
      | c :: rest =>
        if c = ',' then (items fuel (skipGap rest)).map fun (vs, left) => (v :: vs, left)
        else if c = ']' then .ok ([v], rest)
        else .error .malformed

/-- The keys and values of a map up to its closing brace. -/
def pairs : Nat → Text → Except JsonError (List (Text × Value) × Text)
  | 0, _ => .error .malformed
  | fuel + 1, t =>
    match t with
    | [] => .error .malformed
    | q :: inside =>
      if q = '\"' then
        match string? (inside.length + 1) inside with
        | none => .error .malformed
        | some (key, after) =>
          match skipGap after with
          | [] => .error .malformed
          | colon :: rest =>
            if colon = ':' then
              match value fuel (skipGap rest) with
              | .error e => .error e
              | .ok (v, after) =>
                match skipGap after with
                | [] => .error .malformed
                | c :: rest =>
                  if c = ',' then
                    (pairs fuel (skipGap rest)).map fun (ps, left) => ((key, v) :: ps, left)
                  else if c = '\x7d' then .ok ([(key, v)], rest)
                  else .error .malformed
            else .error .malformed
      else .error .malformed

end

/-- A text as one JSON document. -/
def read (t : Text) : Except JsonError Value :=
  match value (2 * t.length + 2) (skipGap t) with
  | .error e => .error e
  | .ok (v, rest) => if (skipGap rest).isEmpty then .ok v else .error .malformed

end Json

end PluginManifest
