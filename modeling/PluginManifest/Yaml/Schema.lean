import PluginManifest.Literal.Number
import PluginManifest.Text.Base64
import PluginManifest.Yaml.Timestamp

/-! # Types of plain scalars

A plain scalar is a truth value, a number, a timestamp or nothing when it is written like one, and a
text otherwise.

* Truth values are `yes`, `true`, `on` and their opposites in lower case, upper case or with a
  capital.
* Integers are decimal, binary after `0b`, octal after `0`, hexadecimal after `0x`, or digits of
  base sixty between colons.  Floats have a point, and a sign in their exponent.  Underscores may
  separate digits. -/

namespace PluginManifest.Yaml

/-- The type that the text of a plain scalar has. -/
inductive PlainType
  | null
  | truth
  | int
  | float
  | timestamp
  /-- The key that takes in the pairs of another mapping. -/
  | merge
  /-- The key of a default value, which is no value itself. -/
  | default
  | text
deriving DecidableEq, Repr

/-! ### Recognising -/

/-- The texts of one word in lower case, with a capital, and in upper case. -/
def spellings (lower capital upper : String) : List Text := [lower, capital, upper]

/-- The texts that stand for the true value. -/
def trueWords : List Text :=
  spellings "yes" "Yes" "YES" ++ spellings "true" "True" "TRUE" ++ spellings "on" "On" "ON"

/-- The texts that stand for the false value. -/
def falseWords : List Text :=
  spellings "no" "No" "NO" ++ spellings "false" "False" "FALSE" ++ spellings "off" "Off" "OFF"

/-- The texts that stand for no value. -/
def nullWords : List Text := [] :: "~" :: spellings "null" "Null" "NULL"

/-- A decimal digit or an underscore. -/
def isPaddedDigit (c : CodePoint) : Bool := c.isDigit || c = '_'

/-- A digit of a base or an underscore. -/
def isDigitOf (base : Nat) (c : CodePoint) : Bool := (c.digitIn? base).isSome || c = '_'

/-- A digit, then digits and underscores. -/
def isNumeral : Text → Bool
  | [] => false
  | c :: rest => c.isDigit && rest.all isPaddedDigit

/-- A sign and what follows it. -/
def splitSign : Text → Bool × Bool × Text
  | [] => (false, false, [])
  | c :: rest =>
    if c = '-' then (true, true, rest) else if c = '+' then (true, false, rest)
    else (false, false, c :: rest)

/-- A digit of base sixty: one or two decimal digits. -/
def isSixtieth : Text → Bool
  | [a] => a.isDigit
  | [a, b] => a.isDigit && a.val ≤ 0x35 && b.isDigit
  | _ => false

/-- A numeral and digits of base sixty, at least one, after colons. -/
def isSexagesimal (t : Text) : Bool :=
  match Text.splitOn ':' t with
  | first :: second :: rest => isNumeral first && (second :: rest).all isSixtieth
  | _ => false

/-- A non-empty text of digits of a base and underscores after a mark. -/
def isMarked (mark : Text) (base : Nat) (t : Text) : Bool :=
  match Text.dropStart? mark t with
  | some (c :: rest) => (c :: rest).all (isDigitOf base)
  | _ => false

/-- An integer. -/
def isInt (t : Text) : Bool :=
  let (_, _, t) := splitSign t
  isMarked "0b" 2 t || isMarked "0" 8 t || isMarked "0x" 16 t || t = "0" ||
    (t.head? ≠ some '0' && (isNumeral t || isSexagesimal t))

/-- An exponent with its mark and its sign, or nothing. -/
def isExponent : Text → Bool
  | [] => true
  | e :: sign :: d :: digits =>
    (e = 'e' || e = 'E') && (sign = '-' || sign = '+') && (d :: digits).all CodePoint.isDigit
  | _ => false

/-- Digits around a point, without a sign. -/
def isDecimal (signed : Bool) (t : Text) : Bool :=
  let mantissa := t.takeWhile fun c : CodePoint => c ≠ 'e' && c ≠ 'E'
  isExponent (t.drop mantissa.length) &&
    match Text.breakOn? "." mantissa with
    | some ([], fraction) => !signed && isNumeral fraction
    | some (whole, fraction) => isNumeral whole && fraction.all isPaddedDigit
    | none => false

/-- A floating point number. -/
def isFloat (t : Text) : Bool :=
  let (signed, _, magnitude) := splitSign t
  isDecimal signed magnitude ||
    (match Text.breakOn? "." magnitude with
      | some (whole, fraction) => isSexagesimal whole && fraction.all isPaddedDigit
      | none => false) ||
    (spellings ".inf" ".Inf" ".INF").contains magnitude ||
    (!signed && (spellings ".nan" ".NaN" ".NAN").contains magnitude)

/-- The type of a plain scalar. -/
def plainType (t : Text) : PlainType :=
  if trueWords.contains t || falseWords.contains t then .truth
  else if isFloat t then .float
  else if isInt t then .int
  else if isTimestamp t then .timestamp
  else if t = "<<" then .merge
  else if nullWords.contains t then .null
  else if t = "=" then .default
  else .text

/-! ### Values -/

/-- The number that digits of a base write. -/
def digitsValue (base : Nat) (t : Text) : Except Error Nat :=
  if base = 10 && maxDigits < t.length then .error .badNumber
  else match Text.toNat? base t with
    | some n => .ok n
    | none => .error .badNumber

/-- The number that digits of base sixty write. -/
def sixtiethsValue (parts : List Text) : Except Error Nat := do
  let digits ← parts.mapM (digitsValue 10)
  .ok (digits.foldl (fun n d => n * 60 + d) 0)

/-- The value of an integer without its sign. -/
def magnitudeValue (t : Text) : Except Error Nat :=
  match t with
  | [] => .error .emptyNumber
  | c :: rest =>
    match Text.dropStart? "0b" t, Text.dropStart? "0x" t with
    | some digits, _ => digitsValue 2 digits
    | none, some digits => digitsValue 16 digits
    | none, none =>
      if c = '0' then if rest.isEmpty then .ok 0 else digitsValue 8 t
      else match Text.splitOn ':' t with
        | _ :: _ :: _ => sixtiethsValue (Text.splitOn ':' t)
        | _ => digitsValue 10 t

/-- A text without its underscores. -/
def dropUnderscores (t : Text) : Text := t.filter fun c : CodePoint => c ≠ '_'

/-- The value of an integer. -/
def intValue (t : Text) : Except Error Value :=
  let (_, negative, magnitude) := splitSign (dropUnderscores t)
  (magnitudeValue magnitude).map fun n => .int (if negative then -(n : Int) else n)

/-- The sum of digits of base sixty, last digit first, each worth `weight` times as much. -/
def sixtiethsSum (weight : Nat) (sum : Binary64) : List Binary64 → Binary64
  | [] => sum
  | d :: rest =>
    sixtiethsSum (weight * 60) (sum.plus (d.times (Binary64.nearest false weight 1))) rest

/-- The value of a float without its sign. -/
def floatMagnitude (t : Text) : Except Error Binary64 :=
  match t with
  | [] => .error .emptyNumber
  | _ =>
    if t = ".inf" then .ok (.infinite false)
    else if t = ".nan" then .ok .nan
    else
      match (Text.splitOn ':' t).mapM Binary64.read? with
      | none => .error .badNumber
      | some [x] => .ok x
      | some digits => .ok (sixtiethsSum 1 (Binary64.zero false) digits.reverse)

/-- The value of a float. -/
def floatValue (t : Text) : Except Error Value :=
  let (_, negative, magnitude) := splitSign (dropUnderscores t).lower
  (floatMagnitude magnitude).map fun x => .float (if negative then x.negate else x)

/-- The value of a truth value, in any letter case. -/
def truthValue (t : Text) : Except Error Value :=
  if trueWords.contains t.lower then .ok (.bool true)
  else if falseWords.contains t.lower then .ok (.bool false)
  else .error .badTruth

/-- The bytes that a text writes in base 64. -/
def binaryValue (t : Text) : Except Error Value :=
  if t.all fun c : CodePoint => c.val < 0x80 then
    match Base64.decode? t with
    | some bytes => .ok (.binary bytes)
    | none => .error .malformed
  else .error .malformed

/-- The value of a plain scalar.  The key of a default value and the key of a merge are no
values. -/
def plainValue (t : Text) : Except Error Value :=
  match plainType t with
  | .null => .ok .null
  | .truth => truthValue t
  | .int => intValue t
  | .float => floatValue t
  | .timestamp => timestampValue t
  | .merge | .default => .error .malformed
  | .text => .ok (.text t)

/-- The value of a scalar whose tag names a type. -/
def taggedValue (name t : Text) : Except Error Value :=
  match Text.dropStart? "tag:yaml.org,2002:" name with
  | none => .error .malformed
  | some type =>
    if type = "str" then .ok (.text t)
    else if type = "int" then intValue t
    else if type = "float" then floatValue t
    else if type = "bool" then truthValue t
    else if type = "null" then .ok .null
    else if type = "timestamp" then timestampValue t
    else if type = "binary" then binaryValue t
    else .error .malformed

end PluginManifest.Yaml
