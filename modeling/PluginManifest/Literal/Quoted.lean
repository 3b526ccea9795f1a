import PluginManifest.Text.CodePoint
import PluginManifest.Literal.Error

/-! # Quoted names

The value of a quoted string literal: its content with the escapes decoded.  An escape is a
backslash followed by a hexadecimal code point in braces, by `u` and four or `x` and two
hexadecimal digits, by a line terminator (which continues the line and writes nothing), or by
any other character. -/

namespace PluginManifest.Literal

/-- Hexadecimal digits at the front of a text. -/
def hexRun (t : Text) : Text := t.takeWhile fun c => (c.digitIn? 16).isSome

/-- The code point with the given number, or the reason why there is none. -/
def codePoint (n : Nat) : Except LiteralError CodePoint :=
  match CodePoint.ofNat? n with
  | some c => .ok c
  | none => .error (if n < 0x80000000 then .noCodePoint else .hugeCodePoint)

/-- A hexadecimal number in braces at the front of a text, and the text after it. -/
def braced? : Text → Option (Nat × Text)
  | [] => none
  | c :: rest =>
    if c = '\x7b' then
      let digits := hexRun rest
      match Text.toNat? 16 digits, rest.drop digits.length with
      | some n, d :: after => if d = '\x7d' then some (n, after) else none
      | _, _ => none
    else none

/-- A hexadecimal number of exactly `count` digits at the front of a text, and the text after
it. -/
def fixed? (count : Nat) (t : Text) : Option (Nat × Text) :=
  let digits := t.take count
  if digits.length = count then (Text.toNat? 16 digits).map fun n => (n, t.drop count) else none

/-- What a single character after a backslash stands for, when not for itself. -/
def namedEscape (c : CodePoint) : CodePoint :=
  if c = 'n' then '\n' else if c = 't' then '\t' else if c = 'r' then '\r'
  else if c = 'b' then '\x08' else if c = 'f' then '\x0c' else if c = 'v' then '\x0b'
  else if c = '0' then '\x00' else c

/-- A line terminator: after a backslash it continues the line. -/
def isLineEnd (c : CodePoint) : Bool :=
  c.val == 0x0A || c.val == 0x0D || c.val == 0x2028 || c.val == 0x2029

/-- The escape `c` followed by `rest`: its code points and the text after it. -/
def escape (c : CodePoint) (rest : Text) : Except LiteralError (Text × Text) :=
  let numbered? : Option (Nat × Text) :=
    if c = 'u' then braced? rest <|> fixed? 4 rest
    else if c = 'x' then fixed? 2 rest else none
  match numbered? with
  | some (n, after) => (codePoint n).map fun p => ([p], after)
  | none =>
    if c = '\r' then
      .ok ([], match rest with
        | d :: after => if d = '\n' then after else rest
        | [] => [])
    else if isLineEnd c then .ok ([], rest)
    else .ok ([namedEscape c], rest)

/-- What follows a numbered escape is shorter than the text that holds it. -/
theorem braced?_shorter {t : Text} {n : Nat} {after : Text} (h : braced? t = some (n, after)) :
    after.length < t.length := by
  cases t with
  | nil => simp [braced?] at h
  | cons c rest =>
    simp only [braced?] at h
    split at h
    · split at h
      · rename_i hd
        split at h
        · have hl := congrArg List.length hd
          simp only [Option.some.injEq, Prod.mk.injEq] at h
          simp only [List.length_drop, List.length_cons] at hl
          rw [← h.2]
          simp only [List.length_cons]
          omega
        · simp at h
      · simp at h
    · simp at h

theorem fixed?_shorter {count : Nat} {t : Text} {n : Nat} {after : Text}
    (h : fixed? count t = some (n, after)) : after.length ≤ t.length := by
  simp only [fixed?] at h
  split at h
  · simp only [Option.map_eq_some_iff, Prod.mk.injEq] at h
    obtain ⟨_, _, _, rfl⟩ := h
    simp
  · simp at h

/-- An escape leaves no more text than stands after its first character. -/
theorem escape_shorter {c : CodePoint} {rest out after : Text}
    (h : escape c rest = .ok (out, after)) : after.length ≤ rest.length := by
  simp only [escape] at h
  split at h
  · rename_i n after' hn
    have ha : after'.length ≤ rest.length := by
      split at hn
      · cases hb : braced? rest with
        | some p => simp [hb] at hn; subst hn; exact Nat.le_of_lt (braced?_shorter hb)
        | none => simp [hb] at hn; exact fixed?_shorter hn
      · split at hn
        · exact fixed?_shorter hn
        · simp at hn
    cases hc : codePoint n with
    | error e => simp [hc, Except.map] at h
    | ok p => simp [hc, Except.map] at h; rw [← h.2]; exact ha
  · split at h
    · simp only [Except.ok.injEq, Prod.mk.injEq] at h
      obtain ⟨_, rfl⟩ := h
      split
      · split
        · simp
        · simp
      · simp
    · split at h
      · simp only [Except.ok.injEq, Prod.mk.injEq] at h
        obtain ⟨_, rfl⟩ := h
        exact Nat.le_refl _
      · simp only [Except.ok.injEq, Prod.mk.injEq] at h
        obtain ⟨_, rfl⟩ := h
        exact Nat.le_refl _

/-- The content of a literal with its escapes decoded; the first bad escape is reported.  A
backslash at the end stands for itself. -/
def unescape : Text → Except LiteralError Text
  | [] => .ok []
  | c :: rest =>
    if c = '\\' then
      match rest with
      | [] => .ok [c]
      | d :: more =>
        match h : escape d more with
        | .error e => .error e
        | .ok (out, after) =>
          have := escape_shorter h
          match unescape after with
          | .error e => .error e
          | .ok tail => .ok (out ++ tail)
    else
      match unescape rest with
      | .error e => .error e
      | .ok tail => .ok (c :: tail)
termination_by t => t.length
decreasing_by
  · simp only [List.length_cons]
    omega
  · simp only [List.length_cons]
    omega

/-- The text between the first and the last character of a literal. -/
def inner (t : Text) : Text := (t.drop 1).dropLast

/-- The value of a string literal, written with its quotes. -/
def quotedValue (literal : Text) : Except LiteralError Text := unescape (inner literal)

end PluginManifest.Literal
