/-! # Code points and text

A `Text` is a list of Unicode code points.  Surrogates are code points here: an escape in a
quoted name can denote one, and it stays in the text until the text is encoded.  Every
`String` is a `Text`; a `Text` is a `String` exactly when it holds no surrogate. -/

namespace PluginManifest

/-- A Unicode code point, surrogates included. -/
structure CodePoint where
  /-- The number of the code point. -/
  val : Nat
  /-- Code points end at `0x10FFFF`. -/
  isLt : val < 0x110000
deriving DecidableEq

/-- A text: its code points in order. -/
abbrev Text := List CodePoint

namespace CodePoint

/-- The code point with number `n`, if there is one. -/
def ofNat? (n : Nat) : Option CodePoint :=
  if h : n < 0x110000 then some ⟨n, h⟩ else none

/-- The code point of a byte. -/
def ofByte (b : UInt8) : CodePoint :=
  ⟨b.toNat, Nat.lt_trans b.toNat_lt (by decide)⟩

/-- The code point of a character. -/
def ofChar (c : Char) : CodePoint :=
  ⟨c.toNat, by
    have h := c.valid
    simp only [UInt32.isValidChar, Nat.isValidChar] at h
    simp only [Char.toNat]
    omega⟩

instance : Coe Char CodePoint := ⟨ofChar⟩

/-- The character U+FFFD that stands for bytes that encode nothing. -/
def replacement : CodePoint := ⟨0xFFFD, by decide⟩

/-- A surrogate: a code point that UTF-8 cannot encode. -/
def isSurrogate (c : CodePoint) : Bool := 0xD800 ≤ c.val && c.val < 0xE000

/-- The character of a code point; a surrogate has none. -/
def toChar? (c : CodePoint) : Option Char :=
  if h : c.val.isValidChar then some (Char.ofNatAux c.val h) else none

/-- An ASCII decimal digit. -/
def isDigit (c : CodePoint) : Bool := 0x30 ≤ c.val && c.val ≤ 0x39

/-- The value of an ASCII digit or letter as a digit of a base up to 36. -/
def digit? (c : CodePoint) : Option Nat :=
  if 0x30 ≤ c.val && c.val ≤ 0x39 then some (c.val - 0x30)
  else if 0x41 ≤ c.val && c.val ≤ 0x5A then some (c.val - 0x41 + 10)
  else if 0x61 ≤ c.val && c.val ≤ 0x7A then some (c.val - 0x61 + 10)
  else none

/-- The value of a digit of base `base`. -/
def digitIn? (base : Nat) (c : CodePoint) : Option Nat :=
  c.digit?.filter (· < base)

/-- An ASCII capital letter in lower case, any other code point as it is. -/
def lower (c : CodePoint) : CodePoint :=
  if h : 0x41 ≤ c.val ∧ c.val ≤ 0x5A then ⟨c.val + 0x20, by omega⟩ else c

end CodePoint

namespace Text

/-- The code points of a string. -/
def ofString (s : String) : Text := s.toList.map CodePoint.ofChar

instance : Coe String Text := ⟨ofString⟩

/-- The string with the same code points; a text with a surrogate has none. -/
def toString? (t : Text) : Option String :=
  (t.mapM CodePoint.toChar?).map String.ofList

/-- The parts of a text between the separators `sep`, empty parts included. -/
def splitOn (sep : CodePoint) : Text → List Text
  | [] => [[]]
  | c :: rest =>
    if c = sep then [] :: splitOn sep rest
    else match splitOn sep rest with
      | [] => [[c]]
      | part :: parts => (c :: part) :: parts

/-- The texts joined with `sep` between neighbours. -/
def join (sep : Text) : List Text → Text
  | [] => []
  | [t] => t
  | t :: u :: rest => t ++ sep ++ join sep (u :: rest)

/-- What follows `start` at the front of a text that starts with it. -/
def dropStart? : Text → Text → Option Text
  | [], t => some t
  | _ :: _, [] => none
  | p :: ps, c :: cs => if p = c then dropStart? ps cs else none

theorem dropStart?_eq_some_iff {start t rest : Text} :
    dropStart? start t = some rest ↔ t = start ++ rest := by
  induction start generalizing t with
  | nil => simp [dropStart?, eq_comm]
  | cons p ps ih =>
      cases t with
      | nil => simp [dropStart?]
      | cons c cs =>
          by_cases h : p = c
          · simp [dropStart?, h, ih]
          · simp [dropStart?, h, Ne.symm h]

/-- The text starts with `start`. -/
def startsWith (t start : Text) : Bool := (dropStart? start t).isSome

/-- The text ends with `ending`. -/
def endsWith (t ending : Text) : Bool := startsWith t.reverse ending.reverse

/-- The text before and after the first occurrence of `mark`. -/
def breakOn? (mark : Text) : Text → Option (Text × Text)
  | [] => (dropStart? mark []).map fun rest => ([], rest)
  | c :: rest =>
    match dropStart? mark (c :: rest) with
    | some after => some ([], after)
    | none => (breakOn? mark rest).map fun (before, after) => (c :: before, after)

/-- What a text is split into makes it up. -/
theorem eq_of_breakOn? {mark t before after : Text} (h : breakOn? mark t = some (before, after)) :
    t = before ++ (mark ++ after) := by
  induction t generalizing before with
  | nil =>
      simp only [breakOn?, Option.map_eq_some_iff, Prod.mk.injEq] at h
      obtain ⟨rest, hdrop, rfl, rfl⟩ := h
      rw [List.nil_append, dropStart?_eq_some_iff.mp hdrop]
  | cons c t ih =>
      rw [breakOn?] at h
      cases hdrop : dropStart? mark (c :: t) with
      | some rest =>
          rw [hdrop] at h
          cases h
          rw [List.nil_append, dropStart?_eq_some_iff.mp hdrop]
      | none =>
          rw [hdrop] at h
          obtain ⟨⟨start, rest⟩, hbreak, heq⟩ := Option.map_eq_some_iff.mp h
          cases heq
          rw [ih hbreak, List.cons_append]

theorem length_of_breakOn? {mark t before after : Text} (h : breakOn? mark t = some (before, after)) :
    t.length = before.length + mark.length + after.length := by
  rw [eq_of_breakOn? h, List.length_append, List.length_append, Nat.add_assoc]

/-- Letter case is ignored for ASCII letters. -/
def lower (t : Text) : Text := t.map CodePoint.lower

/-- The lexicographic order by code point, as a test for "strictly before". -/
def before : Text → Text → Bool
  | _, [] => false
  | [], _ :: _ => true
  | a :: as, b :: bs => a.val < b.val || (a == b && before as bs)

/-- A natural number in decimal digits. -/
def ofNat (n : Nat) : Text := ofString (toString n)

/-- An integer in decimal digits, with a sign when it is negative. -/
def ofInt : Int → Text
  | .ofNat n => ofNat n
  | .negSucc n => ofString "-" ++ ofNat (n + 1)

/-- The number that digits of base `base` write, read after the value `acc`. -/
def readDigits (base : Nat) (acc : Nat) : Text → Option Nat
  | [] => some acc
  | c :: rest =>
    match c.digitIn? base with
    | some d => readDigits base (acc * base + d) rest
    | none => none

/-- The number written by a non-empty run of digits of base `base`. -/
def toNat? (base : Nat) : Text → Option Nat
  | [] => none
  | t => readDigits base 0 t

end Text

end PluginManifest
