import PluginManifest.Item.Properties
import PluginManifest.Proofs.NumberNames
import PluginManifest.Proofs.Utf8Encoding
import PluginManifest.Source.Index

/-! # Offsets told by their positions

The position behind some bytes is found from the start of their last line: the line feeds before it
give the line, and the code points behind it the column (`Position.after_append`).  A search backwards
from an offset finds this start (`File.position_eq`).  Of a text in UTF-8 the last line is itself the
encoding of a text (`exists_last_line`).  Every further byte therefore moves the position on, by a line
or by a column (`before_append`), and from its position an offset between two code points can be
recovered (`offsetAt?_position`).  Locations in messages tell their positions (`located_inj`), and so
they tell where a node starts. -/

namespace PluginManifest

/-! ### Encoded texts in parts -/

namespace Utf8

theorem encode?_append (t u : Text) : encode? (t ++ u) =
    (encode? t).bind fun bytes => (encode? u).map fun more => bytes ++ more := by
  unfold encode?
  rw [List.mapM_append]
  cases t.mapM encodePoint? with
  | none => rfl
  | some parts =>
      cases u.mapM encodePoint? with
      | none => rfl
      | some parts' => exact congrArg some List.flatten_append

theorem exists_of_encode?_append {t u : Text} {bytes : Bytes} (h : encode? (t ++ u) = some bytes) :
    ∃ before after, encode? t = some before ∧ encode? u = some after ∧ bytes = before ++ after := by
  rw [encode?_append, Option.bind_eq_some_iff] at h
  obtain ⟨before, hbefore, h⟩ := h
  obtain ⟨after, hafter, rfl⟩ := Option.map_eq_some_iff.mp h
  exact ⟨before, after, hbefore, hafter, rfl⟩

/-- Behind an encoded text all bytes are decoded as if they stood alone. -/
theorem decodeLossy_encode?_append {t : Text} {bytes : Bytes} (h : encode? t = some bytes)
    (more : Bytes) : decodeLossy (bytes ++ more) = t ++ decodeLossy more := by
  induction t generalizing bytes with
  | nil =>
      cases h
      rfl
  | cons c t ih =>
      obtain ⟨first, rest, hfirst, hrest, rfl⟩ := encode?_cons_eq_some h
      rw [decodeLossy, List.append_assoc, units_encodePoint? hfirst, List.map_cons, List.cons_append,
        ← ih hrest]
      rfl

theorem decodeLossy_encode? {t : Text} {bytes : Bytes} (h : encode? t = some bytes) :
    decodeLossy bytes = t := by
  have happend := decodeLossy_encode?_append h []
  rw [List.append_nil] at happend
  exact happend.trans (List.append_nil t)

/-- An ASCII byte stands among bytes exactly when its character stands in the decoded text. -/
theorem mem_decodeLossy_iff {b : UInt8} (hb : b < 0x80) {bs : Bytes} :
    CodePoint.ofByte b ∈ decodeLossy bs ↔ b ∈ bs := by
  constructor
  · intro h
    obtain ⟨before, after, hsplit⟩ := List.append_of_mem h
    obtain ⟨xs, ys, rfl, -⟩ := exists_of_decodeLossy_eq hb bs before after hsplit
    simp
  · intro h
    obtain ⟨xs, ys, rfl⟩ := List.append_of_mem h
    rw [decodeLossy_append (asciiFirst_cons hb ys), decodeLossy_ascii hb]
    simp

/-- An offset between two code points of an encoded text, or at one of its ends. -/
def IsBoundary (t : Text) (offset : Nat) : Prop :=
  ∃ before, before <+: t ∧ (encode? before).map List.length = some offset

instance (t : Text) (offset : Nat) : Decidable (IsBoundary t offset) :=
  decidable_of_iff (∃ before ∈ t.inits, (encode? before).map List.length = some offset)
    (by simp [IsBoundary, List.mem_inits])

/-- A start of a text is encoded as a start of its bytes. -/
theorem isPrefix_of_encode? {before t : Text} {bytes text : Bytes} (hpre : before <+: t)
    (hbefore : encode? before = some bytes) (ht : encode? t = some text) : bytes <+: text := by
  obtain ⟨after, rfl⟩ := hpre
  obtain ⟨first, rest, hfirst, -, rfl⟩ := exists_of_encode?_append ht
  obtain rfl := Option.some.inj (hfirst.symm.trans hbefore)
  exact List.prefix_append _ _

/-- The bytes up to a boundary encode the text up to there. -/
theorem IsBoundary.exists_take {t : Text} {text : Bytes} {offset : Nat} (h : IsBoundary t offset)
    (ht : encode? t = some text) :
    offset ≤ text.length ∧ ∃ before, before <+: t ∧ encode? before = some (text.take offset) := by
  obtain ⟨before, hpre, hlength⟩ := h
  obtain ⟨bytes, hbytes, rfl⟩ := Option.map_eq_some_iff.mp hlength
  have hstart := isPrefix_of_encode? hpre hbytes ht
  rw [← List.prefix_iff_eq_take.mp hstart]
  exact ⟨hstart.length_le, before, hpre, hbytes⟩

end Utf8

/-! ### Lines -/

namespace Source

open Utf8 SyntaxTree

/-- The bytes are the lines before a line: none, or such that a line feed ends them. -/
def EndLine (before : Bytes) : Prop := ∀ b ∈ before.getLast?, b = 0x0A

/-- The position behind a line and the lines before it. -/
theorem Position.after_append {before line : Bytes} (hbefore : EndLine before)
    (hline : 0x0A ∉ line) : Position.after (before ++ line) =
      ⟨before.count 0x0A + 1, (decodeLossy line).length + 1⟩ := by
  have hcount : (before ++ line).count 0x0A = before.count 0x0A := by
    rw [List.count_append, List.count_eq_zero.mpr hline, Nat.add_zero]
  have hlast : (before ++ line).reverse.takeWhile (· != 0x0A) = line.reverse := by
    rw [List.reverse_append, List.takeWhile_append_of_pos]
    · have hstop : before.reverse.takeWhile (· != 0x0A) = [] := by
        rw [List.takeWhile_eq_nil_iff]
        intro hlt hne
        have hfeed := hbefore _ (by rw [← List.head?_reverse, List.head?_eq_getElem?,
          List.getElem?_eq_getElem hlt]; rfl)
        simp [hfeed] at hne
      rw [hstop, List.append_nil]
    · intro b hb
      have hne : b ≠ 0x0A := by
        rintro rfl
        exact hline (List.mem_reverse.mp hb)
      simpa using hne
  unfold Position.after
  rw [hcount, hlast, List.reverse_reverse]

/-- The last place before an offset at which a byte stands, sought from the offset backwards. -/
def lastPlace? (b : UInt8) (text : Bytes) : Nat → Option Nat
  | 0 => none
  | i + 1 => if text[i]? = some b then some i else lastPlace? b text i

/-- The start of the line of an offset: the place behind the last line feed before the offset, or the
start of the text. -/
def lineStart (text : Bytes) (offset : Nat) : Nat := (lastPlace? 0x0A text offset).elim 0 (· + 1)

theorem lineStart_succ (text : Bytes) (offset : Nat) : lineStart text (offset + 1) =
    if text[offset]? = some 0x0A then offset + 1 else lineStart text offset := by
  unfold lineStart
  rw [lastPlace?]
  by_cases h : text[offset]? = some 0x0A
  · rw [if_pos h, if_pos h]
    rfl
  · rw [if_neg h, if_neg h]

/-- The lines before the line of an offset are complete, and the line itself holds no line feed. -/
theorem lineStart_spec (text : Bytes) (offset : Nat) : lineStart text offset ≤ offset ∧
    EndLine (text.take (lineStart text offset)) ∧
    0x0A ∉ Trivia.slice text (lineStart text offset) offset := by
  induction offset with
  | zero => exact ⟨Nat.le_refl 0, by simp [lineStart, lastPlace?, EndLine], by simp [Trivia.slice]⟩
  | succ offset ih =>
      obtain ⟨hle, hlines, hline⟩ := ih
      rw [lineStart_succ]
      by_cases h : text[offset]? = some 0x0A
      · rw [if_pos h, List.take_add_one, h]
        refine ⟨Nat.le_refl _, fun b hb => ?_, by simp [Trivia.slice]⟩
        exact (Option.some.inj (List.getLast?_concat.symm.trans hb)).symm
      · rw [if_neg h]
        refine ⟨by omega, hlines, fun hmem => ?_⟩
        have hlast : text[lineStart text offset + (offset - lineStart text offset)]? =
            text[offset]? := by rw [Nat.add_sub_cancel' hle]
        rw [Trivia.slice, Nat.succ_sub hle, List.take_add_one, List.getElem?_drop, hlast,
          List.mem_append] at hmem
        rcases hmem with hmem | hmem
        · exact hline hmem
        · exact h (Option.mem_toList.mp hmem)

/-- The position of an offset, found from the start of its line: the line feeds before it are
counted, and the bytes behind it decoded. -/
theorem File.position_eq (file : File) (offset : Nat) : file.position offset =
    ⟨(file.text.take (lineStart file.text offset)).count 0x0A + 1,
      (decodeLossy (Trivia.slice file.text (lineStart file.text offset) offset)).length + 1⟩ := by
  obtain ⟨hle, hlines, hline⟩ := lineStart_spec file.text offset
  have hsplit : file.text.take offset = file.text.take (lineStart file.text offset) ++
      Trivia.slice file.text (lineStart file.text offset) offset := by
    rw [Trivia.slice, ← List.take_add, Nat.add_sub_cancel' hle]
  rw [File.position, hsplit, Position.after_append hlines hline]

/-- The last line of an encoded text is an encoded text. -/
theorem exists_last_line {t : Text} {bytes : Bytes} (h : encode? t = some bytes) :
    ∃ before line last, bytes = before ++ line ∧ EndLine before ∧ 0x0A ∉ line ∧
      encode? last = some line := by
  have hfeed : ∀ {u : Text} {more : Bytes}, encode? u = some more →
      CodePoint.ofByte 0x0A ∉ u → (0x0A : UInt8) ∉ more := by
    intro u more hu hnot hmem
    rw [← decodeLossy_encode? hu] at hnot
    exact hnot ((mem_decodeLossy_iff (by decide)).mpr hmem)
  by_cases hmem : CodePoint.ofByte 0x0A ∈ t
  · -- The text is cut behind its last line feed.
    obtain ⟨last, above, hsplit, hnot⟩ :=
      List.eq_append_cons_of_mem (List.mem_reverse.mpr hmem)
    have ht : t = (above.reverse ++ [CodePoint.ofByte 0x0A]) ++ last.reverse := by
      rw [← List.reverse_reverse t, hsplit]
      simp
    rw [ht] at h
    obtain ⟨before, line, hbefore, hline, rfl⟩ := exists_of_encode?_append h
    obtain ⟨lines, feed, -, hlast, rfl⟩ := exists_of_encode?_append hbefore
    obtain rfl : [0x0A] = feed := Option.some.inj hlast
    refine ⟨lines ++ [0x0A], line, last.reverse, rfl, ?_, hfeed hline (by simpa using hnot), hline⟩
    intro b hb
    rw [List.getLast?_append_of_ne_nil _ (by simp)] at hb
    exact (Option.some.inj hb).symm
  · exact ⟨[], bytes, t, rfl, by simp [EndLine], hfeed h hmem, h⟩

/-! ### Order -/

/-- A position on an earlier line, or further left on the same line. -/
def Position.Before (p q : Position) : Prop :=
  p.line < q.line ∨ p.line = q.line ∧ p.column < q.column

theorem Position.Before.ne {p q : Position} (h : p.Before q) : p ≠ q := by
  rintro rfl
  rcases h with h | h
  · exact Nat.lt_irrefl _ h
  · exact Nat.lt_irrefl _ h.2

/-- Whatever follows an encoded text moves the position on. -/
theorem before_append {t : Text} {bytes more : Bytes} (h : encode? t = some bytes)
    (hmore : more ≠ []) : (Position.after bytes).Before (Position.after (bytes ++ more)) := by
  by_cases hfeed : (0x0A : UInt8) ∈ more
  · have hpos := List.count_pos_iff.mpr hfeed
    left
    show bytes.count 0x0A + 1 < (bytes ++ more).count 0x0A + 1
    rw [List.count_append]
    omega
  · obtain ⟨before, line, last, rfl, hbefore, hline, hlast⟩ := exists_last_line h
    have hlonger : 0x0A ∉ line ++ more := by
      rw [List.mem_append, not_or]
      exact ⟨hline, hfeed⟩
    have hpos : 0 < (decodeLossy more).length :=
      List.length_pos_iff.mpr fun hnil => hmore (decodeLossy_eq_nil hnil)
    right
    rw [List.append_assoc, Position.after_append hbefore hline, Position.after_append hbefore hlonger,
      decodeLossy_encode?_append hlast, decodeLossy_encode? hlast, List.length_append]
    exact ⟨rfl, by dsimp only; omega⟩

/-- The offset between two code points that has a given position. -/
def offsetAt? (t : Text) (p : Position) : Option Nat :=
  ((t.inits.filterMap encode?).find? fun bytes => Position.after bytes = p).map List.length

namespace File

variable {file : File} {t : Text} (ht : encode? t = some file.text) {a b : Nat}
include ht

theorem position_before (ha : IsBoundary t a) (hb : IsBoundary t b) (hab : a < b) :
    (file.position a).Before (file.position b) := by
  obtain ⟨-, before, -, hbefore⟩ := ha.exists_take ht
  have hle := (hb.exists_take ht).1
  have hsplit : file.text.take b = file.text.take a ++ (file.text.drop a).take (b - a) := by
    rw [← List.take_add]
    congr 1
    omega
  unfold position
  rw [hsplit]
  apply before_append hbefore
  rw [← List.length_pos_iff, List.length_take, List.length_drop]
  omega

theorem offset_eq_of_position (ha : IsBoundary t a) (hb : IsBoundary t b)
    (h : file.position a = file.position b) : a = b := by
  rcases Nat.lt_trichotomy a b with hlt | heq | hlt
  · exact absurd h (position_before ht ha hb hlt).ne
  · exact heq
  · exact absurd h.symm (position_before ht hb ha hlt).ne

theorem offsetAt?_position (ha : IsBoundary t a) : offsetAt? t (file.position a) = some a := by
  obtain ⟨-, before, hpre, hbefore⟩ := ha.exists_take ht
  unfold offsetAt?
  cases hfind : (t.inits.filterMap encode?).find? fun bytes => Position.after bytes = file.position a with
  | none =>
      have hmem : file.text.take a ∈ t.inits.filterMap encode? :=
        List.mem_filterMap.mpr ⟨before, (List.mem_inits _ _).mpr hpre, hbefore⟩
      exact absurd (decide_eq_true rfl) (List.find?_eq_none.mp hfind _ hmem)
  | some bytes =>
      -- Another offset with the same position would be this one.
      obtain ⟨other, hother, hbytes⟩ := List.mem_filterMap.mp (List.mem_of_find?_eq_some hfind)
      have hpre' := (List.mem_inits _ _).mp hother
      have hbound : IsBoundary t bytes.length := ⟨other, hpre', by rw [hbytes]; rfl⟩
      have hposition : file.position bytes.length = file.position a := by
        rw [position, ← List.prefix_iff_eq_take.mp (isPrefix_of_encode? hpre' hbytes ht)]
        simpa using List.find?_some hfind
      exact congrArg some (offset_eq_of_position ht hbound ha hposition)

/-- Of the line up to an offset the start and the code points tell the position. -/
theorem exists_line_start (ha : IsBoundary t a) :
    ∃ start line, start ≤ a ∧ (start = 0 ∨ file.text[start - 1]? = some 0x0A) ∧
      0x0A ∉ Trivia.slice file.text start a ∧
      encode? line = some (Trivia.slice file.text start a) ∧
      file.position a = ⟨(file.text.take a).count 0x0A + 1, line.length + 1⟩ := by
  obtain ⟨hle, _, -, hencoded⟩ := ha.exists_take ht
  obtain ⟨before, line, last, hsplit, hbefore, hline, hlast⟩ := exists_last_line hencoded
  have hlength : before.length + line.length = a := by
    rw [← List.length_append, ← hsplit, List.length_take]
    omega
  have htext : file.text = before ++ line ++ file.text.drop a := by
    rw [← hsplit, List.take_append_drop]
  have hslice : Trivia.slice file.text before.length a = line := by
    rw [Trivia.slice, htext, List.append_assoc, List.drop_left, ← hlength, Nat.add_sub_cancel_left,
      List.take_left]
  have hcount : (file.text.take a).count 0x0A = before.count 0x0A := by
    rw [hsplit, List.count_append, List.count_eq_zero.mpr hline, Nat.add_zero]
  refine ⟨before.length, last, by omega, ?_, by rw [hslice]; exact hline, by rw [hslice]; exact hlast,
    ?_⟩
  · rcases List.eq_nil_or_concat' before with rfl | ⟨lines, feed, rfl⟩
    · exact .inl rfl
    · right
      obtain rfl : feed = 0x0A := hbefore feed (by simp)
      rw [htext]
      simp
  · rw [hcount, position, hsplit, Position.after_append hbefore hline, decodeLossy_encode? hlast]

end File

/-! ### Locations in messages -/

theorem ofNat_append_inj {m n : Nat} {mark : CodePoint} (hmark : mark.isDigit = false)
    {rest rest' : Text} (h : Text.ofNat m ++ mark :: rest = Text.ofNat n ++ mark :: rest') :
    m = n ∧ rest = rest' := by
  have hdigits : ∀ (k : Nat) (more : Text),
      (Text.ofNat k ++ mark :: more).takeWhile CodePoint.isDigit = Text.ofNat k := by
    intro k more
    rw [List.takeWhile_append_of_pos fun c hc => Literal.isDigit_of_mem_ofNat hc,
      List.takeWhile_cons_of_neg (by simp [hmark]), List.append_nil]
  have hsame : Text.ofNat m = Text.ofNat n := by
    rw [← hdigits m rest, h, hdigits]
  rw [hsame] at h
  exact ⟨Literal.ofNat_injective hsame, (List.cons.inj (List.append_cancel_left h)).2⟩

/-- A message that opens with a location in a file tells the position. -/
theorem located_inj {path rest rest' : Text} {p q : Position}
    (h : path ++ "(" ++ Text.ofNat p.line ++ "," ++ Text.ofNat p.column ++ ")" ++ rest =
      path ++ "(" ++ Text.ofNat q.line ++ "," ++ Text.ofNat q.column ++ ")" ++ rest') : p = q := by
  have hopen : Text.ofString "(" = [CodePoint.ofChar '('] := rfl
  have hcomma : Text.ofString "," = [CodePoint.ofChar ','] := rfl
  have hclose : Text.ofString ")" = [CodePoint.ofChar ')'] := rfl
  simp only [hopen, hcomma, hclose, List.append_assoc, List.singleton_append] at h
  have hbehind := (List.cons.inj (List.append_cancel_left h)).2
  obtain ⟨hline, hbehind⟩ := ofNat_append_inj (by decide) hbehind
  obtain ⟨hcolumn, -⟩ := ofNat_append_inj (by decide) hbehind
  obtain ⟨line, column⟩ := p
  obtain ⟨line', column'⟩ := q
  dsimp only at hline hcolumn
  rw [hline, hcolumn]

namespace File

variable {file : File} {t : Text} (ht : encode? t = some file.text) {f g : Focus}
  (hf : IsBoundary t f.declaration.node.start) (hg : IsBoundary t g.declaration.node.start)
include ht hf hg

/-- A message that opens with the location of a node tells where the node starts. -/
theorem start_eq_of_located {rest rest' : Text}
    (h : file.location f ++ rest = file.location g ++ rest') :
    f.declaration.node.start = g.declaration.node.start :=
  offset_eq_of_position ht hf hg (located_inj h)

theorem location_eq_iff : file.location f = file.location g ↔
    f.declaration.node.start = g.declaration.node.start := by
  constructor
  · intro h
    exact start_eq_of_located ht hf hg (congrArg (· ++ []) h)
  · intro h
    unfold location positionOf
    rw [h]

end File

/-- The wording of an error opens with the location of its node. -/
theorem message_at {file : File} {f : Focus} {fault : Item.Fault} {error : Item.SourceError}
    (h : Item.ScanError.at file f fault = .declaration error) :
    error.message = file.location f ++ (": " ++ fault.message) := by
  obtain rfl := Item.ScanError.declaration.inj h
  have hmark : Text.ofString "): " = Text.ofString ")" ++ Text.ofString ": " := rfl
  simp only [Item.SourceError.message, File.location, hmark, List.append_assoc]

/-- The wording of a warning about a property opens with the location of its node. -/
theorem message_typeDefaulted (location property : Text) :
    (Event.typeDefaulted location property).message = location ++
      (": not able to infer type for property " ++ property ++ ", defaulting to 'text'") := by
  simp only [Event.message, List.append_assoc]

/-- **Positions tell offsets.**  In a text that is encoded in UTF-8 the line of an offset between two
code points counts the line feeds before it, and the column the code points behind the last of them.
Later offsets have later positions, so an offset can be recovered from its position.  A node is located
where the outermost wrapper that owns it starts: nodes share a location exactly if these starts are the
same, and no two of them share the text of an error or a warning otherwise. -/
theorem positions_identify_offsets {file : File} {t : Text} (ht : encode? t = some file.text) :
    (∀ a, IsBoundary t a → ∃ start line, start ≤ a ∧
      (start = 0 ∨ file.text[start - 1]? = some 0x0A) ∧ 0x0A ∉ Trivia.slice file.text start a ∧
      encode? line = some (Trivia.slice file.text start a) ∧
      file.position a = ⟨(file.text.take a).count 0x0A + 1, line.length + 1⟩) ∧
    (∀ a b, IsBoundary t a → IsBoundary t b → a < b →
      (file.position a).Before (file.position b)) ∧
    (∀ a, IsBoundary t a → offsetAt? t (file.position a) = some a) ∧
    ∀ f g : Focus, IsBoundary t f.declaration.node.start → IsBoundary t g.declaration.node.start →
      (file.location f = file.location g ↔ f.declaration.node.start = g.declaration.node.start) ∧
      (∀ fault fault' error error', Item.ScanError.at file f fault = .declaration error →
        Item.ScanError.at file g fault' = .declaration error' → error.message = error'.message →
        f.declaration.node.start = g.declaration.node.start) ∧
      ∀ property property', (Event.typeDefaulted (file.location f) property).message =
        (Event.typeDefaulted (file.location g) property').message →
        f.declaration.node.start = g.declaration.node.start := by
  refine ⟨fun a => File.exists_line_start ht, fun a b => File.position_before ht,
    fun a => File.offsetAt?_position ht, ?_⟩
  intro f g hf hg
  refine ⟨File.location_eq_iff ht hf hg, ?_, ?_⟩
  · intro fault fault' error error' herror herror' hmessage
    rw [message_at herror, message_at herror'] at hmessage
    exact File.start_eq_of_located ht hf hg hmessage
  · intro property property' hmessage
    rw [message_typeDefaulted, message_typeDefaulted] at hmessage
    exact File.start_eq_of_located ht hf hg hmessage

/-- A text with characters of two and of four bytes on its lines. -/
def wideCharacters : Text := Text.ofString "'é';\n'😀'; b"

/-- The file with this text. -/
def wideFile : File := Index.read TypeScript.parse "a.ts" (TypeScript.bytesOf "'é';\n'😀'; b")

theorem positions_identify_offsets_wideCharacters :
    encode? wideCharacters = some wideFile.text ∧ wideFile.position 5 = ⟨1, 5⟩ ∧
      wideFile.position 11 = ⟨2, 3⟩ ∧ (wideFile.position 5).Before (wideFile.position 11) ∧
      offsetAt? wideCharacters ⟨2, 3⟩ = some 11 ∧
      ∃ f g : Focus, f.declaration.node.start = 6 ∧ g.declaration.node.start = 14 ∧
        f ∈ Focus.walk wideFile.root ∧ g ∈ Focus.walk wideFile.root ∧
        wideFile.location f ≠ wideFile.location g := by
  have ht : encode? wideCharacters = some wideFile.text := by decide +kernel
  have hbounds : ∀ a ∈ [5, 6, 11, 14], IsBoundary wideCharacters a := by decide +kernel
  have hfive : wideFile.position 5 = ⟨1, 5⟩ := by decide +kernel
  have heleven : wideFile.position 11 = ⟨2, 3⟩ := by decide +kernel
  have hstarts : 6 ∈ (Focus.walk wideFile.root).map (fun f => f.declaration.node.start) ∧
      14 ∈ (Focus.walk wideFile.root).map fun f => f.declaration.node.start := by decide +kernel
  obtain ⟨⟨f, hfmem, hf⟩, g, hgmem, hg⟩ := hstarts.imp List.mem_map.mp List.mem_map.mp
  obtain ⟨-, hbefore, hrecover, hnodes⟩ := positions_identify_offsets ht
  have hrecovered := hrecover 11 (hbounds 11 (by decide))
  rw [heleven] at hrecovered
  refine ⟨ht, hfive, heleven, hbefore 5 11 (hbounds 5 (by decide)) (hbounds 11 (by decide)) (by omega),
    hrecovered, f, g, hf, hg, hfmem, hgmem, ?_⟩
  intro hsame
  have hstart := (hnodes f g (by rw [hf]; exact hbounds 6 (by decide))
    (by rw [hg]; exact hbounds 14 (by decide))).1.mp hsame
  omega

end Source

end PluginManifest
