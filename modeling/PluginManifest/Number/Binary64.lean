import PluginManifest.Text.Digit

/-! # Binary floating point numbers of 64 bits

A finite number is a mantissa below `2 ^ 53` times a power of two, so all arithmetic here is
exact arithmetic on natural numbers.

* `Binary64.nearest` rounds a quotient of natural numbers, a half to the even neighbour.
* `Binary64.shortest` is the decimal with the fewest digits that reads back as the number, of
  two such decimals the nearer one.
* `Binary64.format` writes it: positional between `1e-4` and `1e16`, with an exponent of at
  least two digits elsewhere. -/

namespace PluginManifest

/-- A number of the 64 bit binary format; zeros, infinities and the one NaN included. -/
inductive Binary64
  /-- Not a number. -/
  | nan
  /-- Beyond the largest finite number. -/
  | infinite (negative : Bool)
  /-- `mantissa * 2 ^ exponent`, with a sign also for zero. -/
  | finite (negative : Bool) (mantissa : Nat) (exponent : Int)
deriving DecidableEq

namespace Binary64

/-- The exponent of the smallest positive number. -/
def leastExponent : Int := -1074

/-- The greatest exponent of a finite number. -/
def greatestExponent : Int := 971

/-- Zero with a sign. -/
def zero (negative : Bool) : Binary64 := .finite negative 0 leastExponent

/-- The quotient `num / den` divided by `2 ^ e`, again as a quotient. -/
def scale (num den : Nat) (e : Int) : Nat × Nat :=
  if 0 ≤ e then (num, den * Nat.pow 2 e.toNat) else (num * Nat.pow 2 (-e).toNat, den)

/-- The nearest natural number to `num / den`, of two the even one. -/
def roundQuotient (num den : Nat) : Nat :=
  let q := num / den
  let r := num % den
  if 2 * r < den then q else if den < 2 * r then q + 1 else q + q % 2

/-- The number nearest to `num / den`, with the given sign. -/
def nearest (negative : Bool) (num den : Nat) : Binary64 :=
  if num = 0 then zero negative
  else
    let guess : Int := (num.log2 : Int) - den.log2 - 52
    let (n, d) := scale num den guess
    let e := max (if n / d < Nat.pow 2 52 then guess - 1 else guess) leastExponent
    let (n, d) := scale num den e
    let m := roundQuotient n d
    let (m, e) := if Nat.pow 2 53 ≤ m then (m / 2, e + 1) else (m, e)
    if greatestExponent < e then .infinite negative else .finite negative m e

/-- The number of decimal digits of a natural number. -/
def digitCount (n : Nat) : Nat := (Nat.toDigits 10 n).length

/-- The number nearest to `digits * 10 ^ exponent`.  Magnitudes that are out of range by far
are told by the position of their first digit. -/
def ofDecimal (negative : Bool) (digits : Nat) (exponent : Int) : Binary64 :=
  let point := exponent + digitCount digits
  if digits = 0 || point < -330 then zero negative
  else if 310 < point then .infinite negative
  else if 0 ≤ exponent then nearest negative (digits * Nat.pow 10 exponent.toNat) 1
  else nearest negative digits (Nat.pow 10 (-exponent).toNat)

/-! ### Arithmetic -/

/-- The number with the other sign. -/
def negate : Binary64 → Binary64
  | .nan => .nan
  | .infinite negative => .infinite !negative
  | .finite negative m e => .finite (!negative) m e

/-- A magnitude `m * 2 ^ e` as a quotient. -/
def quotient (m : Nat) (e : Int) : Nat × Nat :=
  if 0 ≤ e then (m * Nat.pow 2 e.toNat, 1) else (m, Nat.pow 2 (-e).toNat)

/-- The sum of two numbers that are not negative. -/
def plus : Binary64 → Binary64 → Binary64
  | .finite _ m e, .finite _ n f =>
    let (a, b) := quotient m e
    let (c, d) := quotient n f
    nearest false (a * d + c * b) (b * d)
  | .nan, _ => .nan
  | _, .nan => .nan
  | _, _ => .infinite false

/-- The product of two numbers that are not negative. -/
def times : Binary64 → Binary64 → Binary64
  | .finite _ m e, .finite _ n f =>
    let (a, b) := quotient m e
    let (c, d) := quotient n f
    nearest false (a * c) (b * d)
  | .nan, _ => .nan
  | _, .nan => .nan
  | _, _ => .infinite false

/-! ### Reading -/

/-- Digits, point and exponent of a decimal numeral as `(digits, exponent)`. -/
def decimalParts? (t : Text) : Option (Nat × Int) :=
  let whole := t.takeWhile CodePoint.isDigit
  let rest := t.dropWhile CodePoint.isDigit
  let (fraction, rest) := match rest with
    | c :: more =>
      if c = '.' then (more.takeWhile CodePoint.isDigit, more.dropWhile CodePoint.isDigit)
      else ([], rest)
    | [] => ([], [])
  if whole.isEmpty && fraction.isEmpty then none
  else do
    let digits ← Text.toNat? 10 (whole ++ fraction)
    let shift : Int := -(fraction.length : Int)
    match rest with
    | [] => some (digits, shift)
    | c :: more =>
      if c.lower = 'e' then
        let (negative, more) := match more with
          | s :: ds => if s = '-' then (true, ds) else if s = '+' then (false, ds) else (false, more)
          | [] => (false, [])
        let power ← Text.toNat? 10 more
        some (digits, if negative then shift - power else shift + power)
      else none

/-- The number of a numeral without sign: a decimal, an infinity or NaN. -/
def readMagnitude? (negative : Bool) (t : Text) : Option Binary64 :=
  let word := t.lower
  if word = "inf" || word = "infinity" then some (.infinite negative)
  else if word = "nan" then some .nan
  else (decimalParts? t).map fun (digits, exponent) => ofDecimal negative digits exponent

/-- The number of a numeral in digits of any script, blanks around it allowed. -/
def read? (t : Text) : Option Binary64 :=
  match Text.trim t.plainDigits with
  | [] => none
  | c :: rest =>
    if c = '-' then readMagnitude? true rest
    else if c = '+' then readMagnitude? false rest
    else readMagnitude? false (c :: rest)

/-! ### Writing -/

/-- The number as an integer, if it is one. -/
def toInt? : Binary64 → Option Int
  | .finite negative m e =>
    let magnitude :=
      if 0 ≤ e then some (m * Nat.pow 2 e.toNat)
      else if m % Nat.pow 2 (-e).toNat = 0 then some (m / Nat.pow 2 (-e).toNat) else none
    magnitude.map fun n => if negative then -(n : Int) else n
  | _ => none

/-- The position `p` of the decimal point: `10 ^ (p - 1) ≤ num / den < 10 ^ p`. -/
def pointOf (num den : Nat) : Int :=
  let reaches (p : Int) : Bool :=
    if 0 ≤ p then den * Nat.pow 10 p.toNat ≤ num else den ≤ num * Nat.pow 10 (-p).toNat
  let guess : Int := ((num.log2 : Int) - den.log2) * 30103 / 100000
  if reaches (guess + 1) then guess + 2
  else if reaches guess then guess + 1
  else if reaches (guess - 1) then guess
  else guess - 1

/-- Of the two decimals with `n` digits around the positive `num / den` the nearer one that
reads back as `m * 2 ^ e`. -/
def decimalOf? (m : Nat) (e : Int) (num den : Nat) (point : Int) (n : Nat) : Option (Nat × Int) :=
  let shift : Int := (n : Int) - point
  let (a, b) :=
    if 0 ≤ shift then (num * Nat.pow 10 shift.toNat, den)
    else (num, den * Nat.pow 10 (-shift).toNat)
  let low := a / b
  let readsBack (digits : Nat) : Bool := ofDecimal false digits (-shift) = .finite false m e
  match readsBack low, readsBack (low + 1) with
  | true, true => if roundQuotient a b = low then some (low, -shift) else some (low + 1, -shift)
  | true, false => some (low, -shift)
  | false, true => some (low + 1, -shift)
  | false, false => none

/-- Digits and exponent without the zeros at the end of the digits. -/
def dropZeros : Nat → Nat × Int → Nat × Int
  | 0, d => d
  | fuel + 1, (digits, exponent) =>
    if digits % 10 = 0 && digits ≠ 0 then dropZeros fuel (digits / 10, exponent + 1)
    else (digits, exponent)

/-- The decimal with the fewest digits that reads back as `m * 2 ^ e`; zero is `0`. -/
def shortest (m : Nat) (e : Int) : Nat × Int :=
  if m = 0 then (0, 0)
  else
    let num := if 0 ≤ e then m * Nat.pow 2 e.toNat else m
    let den := if 0 ≤ e then 1 else Nat.pow 2 (-e).toNat
    let point := pointOf num den
    match (List.range 17).findSome? fun n => decimalOf? m e num den point (n + 1) with
    | some d => dropZeros 20 d
    | none => (0, 0)

/-- `n` zeros. -/
def zeros (n : Nat) : Text := List.replicate n '0'

/-- A decimal in the usual form: positional unless the point stands more than three zeros
before the digits or more than sixteen places behind the first one. -/
def formatDecimal (digits : Nat) (exponent : Int) : Text :=
  let ds := Text.ofNat digits
  let point : Int := exponent + ds.length
  if point ≤ -4 || 16 < point then
    let power := point - 1
    let size := Text.ofNat power.natAbs
    let tail : Text := match ds.drop 1 with
      | [] => []
      | more => "." ++ more
    ds.take 1 ++ tail ++ (if power < 0 then "e-" else "e+") ++ zeros (2 - size.length) ++ size
  else if point ≤ 0 then "0." ++ zeros (-point).toNat ++ ds
  else if ds.length ≤ point.toNat then ds ++ zeros (point.toNat - ds.length) ++ ".0"
  else ds.take point.toNat ++ "." ++ ds.drop point.toNat

/-- The text of a number. -/
def format : Binary64 → Text
  | .nan => "nan"
  | .infinite negative => if negative then "-inf" else "inf"
  | .finite negative m e =>
    let (digits, exponent) := shortest m e
    (if negative then ("-" : Text) else []) ++
      (if m = 0 then ("0.0" : Text) else formatDecimal digits exponent)

end Binary64

end PluginManifest
