import PluginManifest.Literal.Quoted
import PluginManifest.Proofs.Utf8Encoding
import Mathlib.Data.List.TakeWhile
import Mathlib.Tactic.SplitIfs

/-! # Writing and reading quoted names

A character may be written as it is, by its number in hexadecimal digits, by a letter of its own or
behind a backslash (`Spells`), and lines may be continued between characters (`Written`).  Reading gives
back what was written, whatever mixture of these forms was used (`Written.unescape_append`); an escape
beyond the last code point has no value, and the first of them is told (`quotedValue_of_written`).

One lemma for each form says which escape is read there and what is left behind it. -/

namespace PluginManifest.Literal

/-! ### Hexadecimal numbers -/

/-- A hexadecimal digit in either case, and its value. -/
def HexDigit (c : CodePoint) (v : Nat) : Prop :=
  v < 10 ∧ c.val = 0x30 + v ∨
    (10 ≤ v ∧ v < 16) ∧ (c.val = 0x41 + (v - 10) ∨ c.val = 0x61 + (v - 10))

/-- Hexadecimal digits, leading zeros included, and the number that they write. -/
inductive Hex : Text → Nat → Prop
  | digit {c : CodePoint} {v : Nat} : HexDigit c v → Hex [c] v
  | more {digits : Text} {c : CodePoint} {n v : Nat} : Hex digits n → HexDigit c v →
      Hex (digits ++ [c]) (16 * n + v)

theorem HexDigit.digitIn?_eq {c : CodePoint} {v : Nat} (h : HexDigit c v) :
    c.digitIn? 16 = some v := by
  have hdigit : c.digit? = some v := by
    unfold CodePoint.digit?
    simp only [Bool.and_eq_true, decide_eq_true_eq]
    rcases h with ⟨hv, hc⟩ | ⟨hv, hc | hc⟩
    · rw [if_pos (by omega)]
      congr 1
      omega
    · rw [if_neg (by omega), if_pos (by omega)]
      congr 1
      omega
    · rw [if_neg (by omega), if_neg (by omega), if_pos (by omega)]
      congr 1
      omega
  have hlt : v < 16 := by
    unfold HexDigit at h
    omega
  unfold CodePoint.digitIn?
  rw [hdigit, Option.filter_some, if_pos (by simpa using hlt)]

theorem hexDigit_of_digitIn? {c : CodePoint} {v : Nat} (h : c.digitIn? 16 = some v) :
    HexDigit c v := by
  obtain ⟨hdigit, hlt⟩ := Option.filter_eq_some_iff.mp h
  have hlt : v < 16 := of_decide_eq_true hlt
  unfold CodePoint.digit? at hdigit
  simp only [Bool.and_eq_true, decide_eq_true_eq] at hdigit
  unfold HexDigit
  split_ifs at hdigit with h1 h2 h3
  · have hv := Option.some.inj hdigit
    omega
  · have hv := Option.some.inj hdigit
    omega
  · have hv := Option.some.inj hdigit
    omega

theorem readDigits_append (base acc : Nat) (t u : Text) :
    Text.readDigits base acc (t ++ u) =
      (Text.readDigits base acc t).bind fun n => Text.readDigits base n u := by
  induction t generalizing acc with
  | nil => rfl
  | cons c t ih =>
      rw [List.cons_append, Text.readDigits, Text.readDigits]
      cases c.digitIn? base with
      | none => rfl
      | some d => exact ih _

namespace Hex

variable {digits : Text} {n : Nat}

theorem readDigits_eq (h : Hex digits n) : Text.readDigits 16 0 digits = some n := by
  induction h with
  | digit hc => simp [Text.readDigits, hc.digitIn?_eq]
  | more _ hc ih =>
      rw [readDigits_append, ih, Option.bind_some]
      simp [Text.readDigits, hc.digitIn?_eq, Nat.mul_comm]

theorem ne_nil (h : Hex digits n) : digits ≠ [] := by
  cases h with
  | digit => simp
  | more => simp

theorem toNat?_eq (h : Hex digits n) : Text.toNat? 16 digits = some n := by
  have hread := h.readDigits_eq
  obtain ⟨c, rest, rfl⟩ := List.exists_cons_of_ne_nil h.ne_nil
  exact hread

theorem isSome_digitIn? (h : Hex digits n) : ∀ c ∈ digits, (c.digitIn? 16).isSome = true := by
  induction h with
  | digit hc =>
      intro d hd
      rw [List.mem_singleton.mp hd, hc.digitIn?_eq]
      rfl
  | more _ hc ih =>
      intro d hd
      rcases List.mem_append.mp hd with hd | hd
      · exact ih d hd
      · rw [List.mem_singleton.mp hd, hc.digitIn?_eq]
        rfl

/-- A run of digits ends at the closing brace. -/
theorem hexRun_eq (h : Hex digits n) (rest : Text) :
    hexRun (digits ++ CodePoint.ofChar '\x7d' :: rest) = digits := by
  unfold hexRun
  rw [List.takeWhile_append_of_pos h.isSome_digitIn?, List.takeWhile_cons_of_neg (by decide),
    List.append_nil]

theorem braced?_eq (h : Hex digits n) (rest : Text) :
    braced? ('\x7b' :: (digits ++ CodePoint.ofChar '\x7d' :: rest)) = some (n, rest) := by
  rw [braced?, if_pos rfl, h.hexRun_eq]
  dsimp only
  rw [h.toNat?_eq, List.drop_left]
  rfl

theorem fixed?_eq (h : Hex digits n) (rest : Text) :
    fixed? digits.length (digits ++ rest) = some (n, rest) := by
  rw [fixed?, List.take_left, if_pos rfl, h.toNat?_eq, List.drop_left]
  rfl

/-- Digits do not open a brace. -/
theorem braced?_eq_none (h : Hex digits n) (rest : Text) : braced? (digits ++ rest) = none := by
  obtain ⟨c, more, rfl⟩ := List.exists_cons_of_ne_nil h.ne_nil
  have hc := h.isSome_digitIn? c List.mem_cons_self
  have hne : c ≠ '\x7b' := by
    rintro rfl
    exact absurd hc (by decide)
  rw [List.cons_append, braced?, if_neg hne]

/-- Further digits go behind the ones already read. -/
theorem append (h : Hex digits n) {more : Text} {m : Nat} (hmore : Text.readDigits 16 n more = some m) :
    Hex (digits ++ more) m := by
  induction more generalizing digits n with
  | nil =>
      obtain rfl := Option.some.inj hmore
      rwa [List.append_nil]
  | cons c more ih =>
      rw [Text.readDigits] at hmore
      cases hc : c.digitIn? 16 with
      | none =>
          rw [hc] at hmore
          cases hmore
      | some v =>
          rw [hc, Nat.mul_comm] at hmore
          rw [← List.singleton_append, ← List.append_assoc]
          exact ih (h.more (hexDigit_of_digitIn? hc)) hmore

end Hex

/-- The numbers in hexadecimal digits are those that are read. -/
theorem hex_iff {digits : Text} {n : Nat} : Hex digits n ↔ Text.toNat? 16 digits = some n := by
  refine ⟨Hex.toNat?_eq, fun h => ?_⟩
  cases digits with
  | nil => cases h
  | cons c rest =>
      rw [Text.toNat?, Text.readDigits] at h
      · cases hc : c.digitIn? 16 with
        | none =>
            rw [hc] at h
            cases h
        | some v =>
            rw [hc] at h
            dsimp only at h
            rw [Nat.zero_mul, Nat.zero_add] at h
            exact (Hex.digit (hexDigit_of_digitIn? hc)).append h
      · nofun

instance (digits : Text) (n : Nat) : Decidable (Hex digits n) := decidable_of_iff _ hex_iff.symm

/-! ### Forms of a character -/

/-- The characters that have a letter of their own. -/
def namedEscapes : List (CodePoint × CodePoint) :=
  [('n', '\n'), ('t', '\t'), ('r', '\r'), ('b', '\x08'), ('f', '\x0c'), ('v', '\x0b'), ('0', '\x00')]

/-- The letters that do not stand for themselves behind a backslash. -/
def letters : Text := "ntrbfv0ux"

/-- Line feed, carriage return, line separator and paragraph separator. -/
def lineEnds : Text := "\n\r\u2028\u2029"

/-- What may follow the backslash where a line is continued. -/
def continuations : List Text := ["\n", "\r", "\r\n", "\u2028", "\u2029"]

/-- The escape of a number in braces. -/
def bracedEscape (digits : Text) : Text :=
  '\\' :: 'u' :: '\x7b' :: (digits ++ [CodePoint.ofChar '\x7d'])

/-- The ways to write a character. -/
inductive Spells : CodePoint → Text → Prop
  /-- As it is. -/
  | plain {c : CodePoint} : c ≠ '\\' → Spells c [c]
  /-- By its number in braces. -/
  | braced {c : CodePoint} (digits : Text) : Hex digits c.val → Spells c (bracedEscape digits)
  /-- By its number in four digits. -/
  | four {c : CodePoint} (digits : Text) : Hex digits c.val → digits.length = 4 →
      Spells c ('\\' :: 'u' :: digits)
  /-- By its number in two digits. -/
  | two {c : CodePoint} (digits : Text) : Hex digits c.val → digits.length = 2 →
      Spells c ('\\' :: 'x' :: digits)
  /-- By the letter of its own. -/
  | named (letter : CodePoint) {c : CodePoint} : (letter, c) ∈ namedEscapes → Spells c ['\\', letter]
  /-- Behind a backslash. -/
  | escaped {c : CodePoint} : c ∉ letters → c ∉ lineEnds → Spells c ['\\', c]

/-- A text written character by character, with lines continued between the characters.  A carriage
return that continues a line does not stand before a line feed: together they would continue it. -/
inductive Written : Text → Text → Prop
  | nil : Written [] []
  | character {c : CodePoint} {spelled s t : Text} : Spells c spelled → Written s t →
      Written (c :: s) (spelled ++ t)
  | continued (ending : Text) {s t : Text} : ending ∈ continuations →
      (ending = Text.ofString "\r" → t.head? ≠ some '\n') → Written s t →
      Written s ('\\' :: (ending ++ t))

/-! ### Escapes one by one -/

theorem codePoint_val (c : CodePoint) : codePoint c.val = .ok c := by
  rw [codePoint, Utf8.ofNat?_val]

theorem codePoint_beyond {n : Nat} (h : 0x10FFFF < n) :
    codePoint n = .error (if n < 0x80000000 then .noCodePoint else .hugeCodePoint) := by
  rw [codePoint, CodePoint.ofNat?, dif_neg (by omega)]

section escapes

variable {digits : Text} {n : Nat} (rest : Text)

theorem escape_braced (h : Hex digits n) :
    escape 'u' ('\x7b' :: (digits ++ [CodePoint.ofChar '\x7d'] ++ rest)) =
      (codePoint n).map fun c => ([c], rest) := by
  unfold escape
  rw [if_pos rfl, List.append_assoc, List.singleton_append, h.braced?_eq]
  rfl

theorem escape_four (h : Hex digits n) (hlength : digits.length = 4) :
    escape 'u' (digits ++ rest) = (codePoint n).map fun c => ([c], rest) := by
  have hfixed := h.fixed?_eq rest
  rw [hlength] at hfixed
  unfold escape
  rw [if_pos rfl, h.braced?_eq_none, hfixed]
  rfl

theorem escape_two (h : Hex digits n) (hlength : digits.length = 2) :
    escape 'x' (digits ++ rest) = (codePoint n).map fun c => ([c], rest) := by
  have hfixed := h.fixed?_eq rest
  rw [hlength] at hfixed
  unfold escape
  rw [if_neg (by decide), if_pos rfl, hfixed]

/-- An escape that is neither numbered nor a line end. -/
theorem escape_single {c : CodePoint} (hu : c ≠ 'u') (hx : c ≠ 'x') (hend : isLineEnd c = false) :
    escape c rest = .ok ([namedEscape c], rest) := by
  have hr : c ≠ '\r' := by
    rintro rfl
    exact absurd hend (by decide)
  unfold escape
  rw [if_neg hu, if_neg hx]
  dsimp only
  rw [if_neg hr, hend]
  rfl

theorem escape_named {letter c : CodePoint} (h : (letter, c) ∈ namedEscapes) :
    escape letter rest = .ok ([c], rest) := by
  have hall : ∀ entry ∈ namedEscapes, entry.1 ≠ 'u' ∧ entry.1 ≠ 'x' ∧
      isLineEnd entry.1 = false ∧ namedEscape entry.1 = entry.2 := by
    decide
  obtain ⟨hu, hx, hend, hvalue⟩ := hall _ h
  rw [escape_single rest hu hx hend, hvalue]

theorem isLineEnd_eq_false {c : CodePoint} (h : c ∉ lineEnds) : isLineEnd c = false := by
  have hends : lineEnds = [⟨0x0A, by decide⟩, ⟨0x0D, by decide⟩, ⟨0x2028, by decide⟩,
      ⟨0x2029, by decide⟩] := by
    decide
  rw [hends] at h
  simp only [List.mem_cons, List.not_mem_nil, or_false, not_or] at h
  obtain ⟨val, hlt⟩ := c
  simp only [CodePoint.mk.injEq] at h
  simp [isLineEnd, h]

theorem namedEscape_eq_self {c : CodePoint} (h : c ∉ letters) : namedEscape c = c := by
  have hletter : ∀ d ∈ letters, c ≠ d := by
    rintro d hd rfl
    exact h hd
  unfold namedEscape
  rw [if_neg (hletter 'n' (by decide)), if_neg (hletter 't' (by decide)),
    if_neg (hletter 'r' (by decide)), if_neg (hletter 'b' (by decide)),
    if_neg (hletter 'f' (by decide)), if_neg (hletter 'v' (by decide)),
    if_neg (hletter '0' (by decide))]

theorem escape_self {c : CodePoint} (hletter : c ∉ letters) (hend : c ∉ lineEnds) :
    escape c rest = .ok ([c], rest) := by
  have hne : ∀ d ∈ letters, c ≠ d := by
    rintro d hd rfl
    exact hletter hd
  rw [escape_single rest (hne 'u' (by decide)) (hne 'x' (by decide)) (isLineEnd_eq_false hend),
    namedEscape_eq_self hletter]

end escapes

/-! ### What is read -/

theorem unescape_plain {c : CodePoint} (h : c ≠ '\\') (rest : Text) :
    unescape (c :: rest) = (unescape rest).map (c :: ·) := by
  rw [unescape.eq_def]
  dsimp only
  rw [if_neg h]
  cases unescape rest with
  | ok s => rfl
  | error e => rfl

theorem unescape_escape {d : CodePoint} {more out after : Text}
    (h : escape d more = .ok (out, after)) :
    unescape ('\\' :: d :: more) = (unescape after).map (out ++ ·) := by
  rw [unescape, if_pos rfl]
  split
  · rename_i heq
    rw [h] at heq
    cases heq
  · rename_i heq
    rw [h] at heq
    cases heq
    cases unescape after with
    | ok s => rfl
    | error e => rfl

theorem unescape_error {d : CodePoint} {more : Text} {e : LiteralError}
    (h : escape d more = .error e) : unescape ('\\' :: d :: more) = .error e := by
  rw [unescape, if_pos rfl]
  split
  · rename_i heq
    rw [h] at heq
    cases heq
    rfl
  · rename_i heq
    rw [h] at heq
    cases heq

/-- A character is read back from each of its forms. -/
theorem Spells.unescape_append {c : CodePoint} {spelled : Text} (h : Spells c spelled)
    (rest : Text) : unescape (spelled ++ rest) = (unescape rest).map (c :: ·) := by
  cases h with
  | plain hc => exact unescape_plain hc rest
  | braced _ hdigits =>
      have hescape := escape_braced rest hdigits
      rw [codePoint_val] at hescape
      exact unescape_escape hescape
  | four _ hdigits hlength =>
      have hescape := escape_four rest hdigits hlength
      rw [codePoint_val] at hescape
      exact unescape_escape hescape
  | two _ hdigits hlength =>
      have hescape := escape_two rest hdigits hlength
      rw [codePoint_val] at hescape
      exact unescape_escape hescape
  | named _ hnamed => exact unescape_escape (escape_named rest hnamed)
  | escaped hletter hend => exact unescape_escape (escape_self rest hletter hend)

/-- Where a line is continued nothing is read. -/
theorem unescape_continued {ending rest : Text} (h : ending ∈ continuations)
    (hfeed : ending = Text.ofString "\r" → rest.head? ≠ some '\n') :
    unescape ('\\' :: (ending ++ rest)) = unescape rest := by
  have hnothing : (unescape rest).map (([] : Text) ++ ·) = unescape rest := by
    cases unescape rest with
    | ok s => rfl
    | error e => rfl
  rw [← hnothing]
  simp only [continuations, List.mem_cons, List.not_mem_nil, or_false] at h
  rcases h with rfl | rfl | rfl | rfl | rfl
  · exact unescape_escape rfl
  · -- A carriage return would take a line feed along.
    refine unescape_escape ?_
    cases rest with
    | nil => rfl
    | cons d after =>
        have hd : d ≠ '\n' := by
          rintro rfl
          exact hfeed rfl rfl
        show Except.ok ([], if d = '\n' then after else d :: after) = _
        rw [if_neg hd]
  · exact unescape_escape rfl
  · exact unescape_escape rfl
  · exact unescape_escape rfl

/-- What was written is read back in front of any text that does not turn the last continuation
into another one. -/
theorem Written.unescape_append {s t : Text} (h : Written s t) (rest : Text)
    (hrest : rest.head? ≠ some '\n') : unescape (t ++ rest) = (unescape rest).map (s ++ ·) := by
  induction h with
  | nil =>
      rw [List.nil_append]
      cases unescape rest with
      | ok s => rfl
      | error e => rfl
  | character hspelled _ ih =>
      rw [List.append_assoc, hspelled.unescape_append, ih]
      cases unescape rest with
      | ok s => rfl
      | error e => rfl
  | @continued ending _ t hending hfeed _ ih =>
      have hnext : ending = Text.ofString "\r" → (t ++ rest).head? ≠ some '\n' := by
        intro hreturn
        rw [List.head?_append]
        cases hhead : t.head? with
        | none => exact hrest
        | some c =>
            have hc := hfeed hreturn
            rwa [hhead] at hc
      rw [List.cons_append, List.append_assoc, unescape_continued hending hnext]
      exact ih

/-- A text between quotes. -/
def quoted (quote : CodePoint) (t : Text) : Text := quote :: (t ++ [quote])

theorem quotedValue_quoted (quote : CodePoint) (t : Text) :
    quotedValue (quoted quote t) = unescape t := by
  unfold quotedValue inner quoted
  rw [List.drop_one, List.tail_cons, List.dropLast_concat]

/-- **A quoted name is read as it was written,** whatever forms its characters were given and wherever
lines were continued; and of the escapes beyond the last code point the first one is told. -/
theorem quotedValue_of_written (quote : CodePoint) {s t : Text} (h : Written s t) :
    quotedValue (quoted quote t) = .ok s ∧
    ∀ (digits : Text) (n : Nat) (rest : Text), Hex digits n → 0x10FFFF < n →
      quotedValue (quoted quote (t ++ (bracedEscape digits ++ rest))) =
        .error (if n < 0x80000000 then .noCodePoint else .hugeCodePoint) := by
  constructor
  · have hread := h.unescape_append [] nofun
    rw [List.append_nil, unescape] at hread
    rw [quotedValue_quoted, hread]
    show Except.ok (s ++ []) = _
    rw [List.append_nil]
  · intro digits n rest hdigits hbeyond
    have hescape := escape_braced rest hdigits
    rw [codePoint_beyond hbeyond] at hescape
    have hread : unescape (bracedEscape digits ++ rest) = _ := unescape_error hescape
    rw [quotedValue_quoted, h.unescape_append _ (by simp [bracedEscape]; decide), hread]
    rfl

/-- Each of the forms: digits behind numbers that they could extend, and a carriage return that
continues the line before a line feed written by its letter. -/
def mixedForms : Text := "1\\u\x7b00e9\x7d\\u00E9\\x4A1\\\r\\n\\01\\\\\\\r\n\\q"

/-- What `mixedForms` writes. -/
def mixedName : Text := ['1', 'é', 'é', 'J', '1', '\n', '\x00', '1', '\\', 'q']

theorem written_mixedForms : Written mixedName mixedForms := by
  have hwritten : ∃ t, t = mixedForms ∧ Written mixedName t :=
    ⟨_, by decide +kernel,
      .character (.plain (by decide)) <|
      .character (.braced ['0', '0', 'e', '9'] (by decide)) <|
      .character (.four ['0', '0', 'E', '9'] (by decide) rfl) <|
      .character (.two ['4', 'A'] (by decide) rfl) <|
      .character (.plain (by decide)) <|
      .continued "\r" (by decide) (by decide) <|
      .character (.named 'n' (by decide)) <|
      .character (.named '0' (by decide)) <|
      .character (.plain (by decide)) <|
      .character (.escaped (by decide) (by decide)) <|
      .continued "\r\n" (by decide) (by decide) <|
      .character (.escaped (by decide) (by decide)) .nil⟩
  obtain ⟨t, rfl, h⟩ := hwritten
  exact h

theorem quotedValue_of_written_mixedForms :
    quotedValue (quoted '"' mixedForms) = .ok mixedName ∧
      quotedValue (quoted '"' (mixedForms ++ "\\u\x7b110000\x7d\\u\x7b80000000\x7d")) =
        .error .noCodePoint ∧
      quotedValue (quoted '"' (mixedForms ++ "\\u\x7b080000000\x7d\\u\x7b110000\x7d")) =
        .error .hugeCodePoint := by
  obtain ⟨hread, hbeyond⟩ := quotedValue_of_written '"' written_mixedForms
  refine ⟨hread, ?_, ?_⟩
  · exact hbeyond "110000" 0x110000 "\\u\x7b80000000\x7d" (by decide) (by decide)
  · exact hbeyond "080000000" 0x80000000 "\\u\x7b110000\x7d" (by decide) (by decide)

end PluginManifest.Literal
