import PluginManifest.Proofs.TriviaGrammar
import PluginManifest.Proofs.Utf8
import PluginManifest.Source.Index

/-! # A comment of the scan is one block

The scan delimits comments by bytes, and `Doc.bodies` delimits blocks in decoded text.  Both look for
the first `*/` behind the opening, and decoding moves no mark (`isInfix_of_ascii_isInfix`).  So a
documentation comment that is closed is read as exactly one block, whose body is all that stands
between its marks, and one that is not closed is read as no block (`ReadsAs`).  The outline of a file
lists exactly the closed ones (`documented_eq_closed`). -/

namespace PluginManifest

/-! ### The first mark in a text -/

namespace Text

theorem dropStart?_eq_none_iff {mark t : Text} : dropStart? mark t = none ↔ ¬ mark <+: t := by
  rw [Option.eq_none_iff_forall_ne_some]
  simp only [ne_eq, dropStart?_eq_some_iff]
  exact ⟨fun h ⟨rest, hrest⟩ => h rest hrest.symm, fun h rest hrest => h ⟨rest, hrest.symm⟩⟩

/-- A text without the mark is not split. -/
theorem breakOn?_eq_none {mark t : Text} (h : ¬ mark <:+: t) : breakOn? mark t = none := by
  induction t with
  | nil =>
      have : dropStart? mark [] = none := dropStart?_eq_none_iff.mpr fun hp => h hp.isInfix
      simp [breakOn?, this]
  | cons c t ih =>
      rw [List.infix_cons_iff, not_or] at h
      simp [breakOn?, dropStart?_eq_none_iff.mpr h.1, ih h.2]

/-- A text is split at the first mark. -/
theorem breakOn?_append {mark before : Text} (hne : mark ≠ [])
    (h : ¬ mark <:+: before ++ mark.dropLast) (after : Text) :
    breakOn? mark (before ++ (mark ++ after)) = some (before, after) := by
  induction before with
  | nil =>
      have hdrop : dropStart? mark (mark ++ after) = some after := dropStart?_eq_some_iff.mpr rfl
      cases hm : mark with
      | nil => exact absurd hm hne
      | cons c more =>
          rw [hm] at hdrop
          simp only [List.nil_append, List.cons_append] at hdrop ⊢
          simp [breakOn?, hdrop]
  | cons c before ih =>
      have hnone : dropStart? mark (c :: (before ++ (mark ++ after))) = none := by
        rw [dropStart?_eq_none_iff]
        intro hp
        -- A mark that stood here would end before the last character of the mark behind it.
        have hstart : c :: before ++ mark.dropLast <+: c :: before ++ (mark ++ after) :=
          (List.prefix_append_right_inj _).mpr
            ((List.dropLast_prefix mark).trans (List.prefix_append _ _))
        have hpos := List.length_pos_iff.mpr hne
        refine h (List.prefix_of_prefix_length_le hp hstart ?_).isInfix
        rw [List.length_append, List.length_cons, List.length_dropLast]
        omega
      rw [List.cons_append, List.infix_cons_iff, not_or] at h
      simp [breakOn?, hnone, ih h.2]

end Text

/-! ### Blocks -/

namespace Doc

theorem openMark_eq : Text.ofString "/**" = [0x2F, 0x2A, 0x2A].map CodePoint.ofByte := by decide

theorem closeMark_eq : Text.ofString "*/" = Trivia.closing.map CodePoint.ofByte := by decide

theorem bodies_of_open {t before inside : Text}
    (hopen : Text.breakOn? "/**" t = some (before, inside)) :
    bodies t = match Text.breakOn? "*/" inside with
      | none => []
      | some (body, after) => body :: bodies after := by
  rw [bodies]
  split
  · rename_i hnone
    rw [hopen] at hnone
    cases hnone
  · rename_i hsome
    rw [hopen] at hsome
    cases hsome
    split
    · rename_i hclose
      simp only [hclose]
    · rename_i hclose
      simp only [hclose]

theorem bodies_of_no_open {t : Text} (hopen : Text.breakOn? "/**" t = none) : bodies t = [] := by
  rw [bodies]
  split
  · rfl
  · rename_i hsome
    rw [hopen] at hsome
    cases hsome

/-- A text without a closing mark has no block. -/
theorem bodies_eq_nil {t : Text} (h : ¬ Text.ofString "*/" <:+: t) : bodies t = [] := by
  cases hopen : Text.breakOn? "/**" t with
  | none => exact bodies_of_no_open hopen
  | some parts =>
      obtain ⟨before, inside⟩ := parts
      have hinside : ¬ Text.ofString "*/" <:+: inside := by
        intro hclose
        refine h (hclose.trans ?_)
        rw [Text.eq_of_breakOn? hopen, ← List.append_assoc]
        exact (List.suffix_append _ _).isInfix
      rw [bodies_of_open hopen, Text.breakOn?_eq_none hinside]

theorem not_closeMark_isInfix_nil : ¬ Text.ofString "*/" <:+: [] := by decide

/-- A text that is one block has one body. -/
theorem bodies_eq_singleton {body : Text} (h : ¬ Text.ofString "*/" <:+: body ++ Text.ofString "*") :
    bodies (Text.ofString "/**" ++ (body ++ Text.ofString "*/")) = [body] := by
  have hfirst : ¬ Text.ofString "/**" <:+: [] ++ (Text.ofString "/**").dropLast := by decide
  have hopen := Text.breakOn?_append (by decide) hfirst (body ++ Text.ofString "*/")
  rw [List.nil_append] at hopen
  have hclose : Text.breakOn? "*/" (body ++ Text.ofString "*/") = some (body, []) := by
    have := Text.breakOn?_append (by decide) h []
    rwa [List.append_nil] at this
  simp only [bodies_of_open hopen, hclose, bodies_eq_nil not_closeMark_isInfix_nil]

end Doc

/-! ### Comments of the scan -/

namespace Trivia

/-- The comment is closed: a mark that is not part of its opening ends it. -/
def CommentRange.Closed (text : Bytes) (r : CommentRange) : Prop :=
  r.pos + 4 ≤ r.stop ∧ slice text (r.stop - 2) r.stop = closing

instance (text : Bytes) (r : CommentRange) : Decidable (r.Closed text) :=
  inferInstanceAs (Decidable (_ ∧ _))

/-- The text between the opening `/**` and the closing mark of a comment. -/
def CommentRange.body (text : Bytes) (r : CommentRange) : Text :=
  Utf8.decodeLossy (slice text (r.pos + 3) (r.stop - 2))

theorem slice_add (text : Bytes) (start i j : Nat) :
    slice text (start + i) (start + j) = slice (text.drop start) i j := by
  rw [slice, slice, List.drop_drop, Nat.add_sub_add_left]

/-- A part of the bytes that follow an offset. -/
theorem slice_of_drop {text : Bytes} {start : Nat} (before bs after : Bytes)
    (h : text.drop start = before ++ (bs ++ after)) :
    slice text (start + before.length) (start + (before.length + bs.length)) = bs := by
  rw [slice_add, h, slice, List.drop_left, Nat.add_sub_cancel_left, List.take_left]

/-- A documentation comment is `/**`, its content and its closing mark, or it goes on to the end of
the text. -/
theorem exists_content {text : Bytes} {pos : Nat} {trailing : Bool} {r : CommentRange}
    (hr : r ∈ comments text pos trailing) (hdoc : r.isDoc text = true) : ∃ content,
      (∃ rest, text.drop r.pos = 0x2F :: 0x2A :: 0x2A :: (content ++ (closing ++ rest)) ∧
        r.stop = r.pos + (content.length + 5) ∧ ¬ closing <:+: content ++ [0x2A]) ∨
      (text.drop r.pos = 0x2F :: 0x2A :: 0x2A :: content ∧
        r.stop = r.pos + (content.length + 3) ∧ ¬ closing <:+: 0x2A :: content) := by
  obtain ⟨unit, rest, hdrop, hstop, hspelled⟩ := exists_spelled_of_mem_comments hr
  simp only [CommentRange.isDoc, Bool.and_eq_true, beq_iff_eq, bne_iff_ne] at hdoc
  obtain ⟨⟨hmulti, hopen⟩, hfourth⟩ := hdoc
  rw [hmulti] at hspelled
  have hopen : slice (text.drop r.pos) 0 3 = [0x2F, 0x2A, 0x2A] := by
    rwa [← slice_add, Nat.add_zero]
  rw [slice_add] at hfourth
  rw [hdrop] at hopen hfourth ⊢
  cases hspelled with
  | @closed body _ hbody =>
      cases body with
      | nil => exact absurd rfl hfourth
      | cons a content =>
          obtain rfl : a = 0x2A := by simpa [slice] using hopen
          refine ⟨content, .inl ⟨rest, by simp, ?_, ?_⟩⟩
          · rw [hstop]
            simp only [closing, List.length_append, List.length_cons, List.length_nil]
          · rw [List.cons_append, closing_isInfix_cons, not_or] at hbody
            exact hbody.2
  | @unclosed body hbody =>
      cases body with
      | nil => cases hopen
      | cons a content =>
          obtain rfl : a = 0x2A := by simpa [slice] using hopen
          exact ⟨content, .inr ⟨by simp, by rw [hstop]; simp, hbody⟩⟩

/-! ### Comments as blocks -/

theorem closeMark_isInfix {bs : Bytes} (h : Text.ofString "*/" <:+: Utf8.decodeLossy bs) :
    closing <:+: bs := by
  rw [Doc.closeMark_eq] at h
  exact Utf8.isInfix_of_ascii_isInfix (by simp [closing]) (by simp [closing]) h

/-- What a documentation comment is read as. -/
structure ReadsAs (text : Bytes) (r : CommentRange) : Prop where
  /-- A closed comment is one block with all that stands between its marks. -/
  closed : r.Closed text →
    Doc.bodies (Utf8.decodeLossy (slice text r.pos r.stop)) = [r.body text]
  /-- A comment that is not closed goes on to the end of the text, and is no block. -/
  unclosed : ¬ r.Closed text → r.stop = text.length ∧
    Doc.bodies (Utf8.decodeLossy (slice text r.pos r.stop)) = []

section content

variable {text content rest : Bytes} {r : CommentRange}

/-- The decoding of a closed comment is one block. -/
theorem bodies_closed (h : ¬ closing <:+: content ++ [0x2A]) :
    Doc.bodies (Utf8.decodeLossy (0x2F :: 0x2A :: 0x2A :: (content ++ closing))) =
      [Utf8.decodeLossy content] := by
  have hopen : Utf8.decodeLossy (0x2F :: 0x2A :: 0x2A :: (content ++ closing)) =
      Text.ofString "/**" ++ Utf8.decodeLossy (content ++ closing) := by
    have hascii : ∀ b ∈ ([0x2F, 0x2A, 0x2A] : Bytes), b < 0x80 := by simp
    rw [Doc.openMark_eq]
    exact Utf8.decodeLossy_map hascii (content ++ closing)
  have hclose : Utf8.decodeLossy (content ++ closing) =
      Utf8.decodeLossy content ++ Text.ofString "*/" :=
    Utf8.decodeLossy_append (Utf8.asciiFirst_cons (by decide) _) content
  have hstar : Utf8.decodeLossy (content ++ [0x2A]) =
      Utf8.decodeLossy content ++ Text.ofString "*" :=
    Utf8.decodeLossy_append (Utf8.asciiFirst_cons (by decide) _) content
  rw [hopen, hclose]
  apply Doc.bodies_eq_singleton
  rw [← hstar]
  exact fun hmark => h (closeMark_isInfix hmark)

/-- The decoding of a comment that is not closed is no block. -/
theorem bodies_unclosed (h : ¬ closing <:+: 0x2A :: content) :
    Doc.bodies (Utf8.decodeLossy (0x2F :: 0x2A :: 0x2A :: content)) = [] := by
  apply Doc.bodies_eq_nil
  intro hmark
  have hmark := closeMark_isInfix hmark
  rw [closing_isInfix_cons, closing_isInfix_cons] at hmark
  rcases hmark with ⟨hfirst, -⟩ | ⟨-, hfirst⟩ | hmark
  · cases hfirst
  · cases hfirst
  · exact h hmark

theorem ReadsAs.of_closed
    (hdrop : text.drop r.pos = 0x2F :: 0x2A :: 0x2A :: (content ++ (closing ++ rest)))
    (hstop : r.stop = r.pos + (content.length + 5)) (hcontent : ¬ closing <:+: content ++ [0x2A]) :
    ReadsAs text r := by
  have hmark : closing.length = 2 := rfl
  have hwhole : slice text r.pos r.stop = 0x2F :: 0x2A :: 0x2A :: (content ++ closing) := by
    have := slice_of_drop [] (0x2F :: 0x2A :: 0x2A :: (content ++ closing)) rest (hdrop.trans (by simp))
    simpa [hstop, hmark] using this
  have hbody : slice text (r.pos + 3) (r.stop - 2) = content := by
    have := slice_of_drop [0x2F, 0x2A, 0x2A] content (closing ++ rest) hdrop
    have hend : r.stop - 2 = r.pos + (3 + content.length) := by omega
    rwa [hend]
  have hclosed : r.Closed text := by
    refine ⟨by omega, ?_⟩
    have := slice_of_drop (0x2F :: 0x2A :: 0x2A :: content) closing rest (hdrop.trans (by simp))
    have hend : r.stop - 2 = r.pos + (content.length + 3) := by omega
    rwa [hend, hstop]
  refine ⟨fun _ => ?_, fun hopen => absurd hclosed hopen⟩
  rw [hwhole, bodies_closed hcontent, CommentRange.body, hbody]

theorem ReadsAs.of_unclosed (hdrop : text.drop r.pos = 0x2F :: 0x2A :: 0x2A :: content)
    (hstop : r.stop = r.pos + (content.length + 3)) (hcontent : ¬ closing <:+: 0x2A :: content) :
    ReadsAs text r := by
  have hwhole : slice text r.pos r.stop = 0x2F :: 0x2A :: 0x2A :: content := by
    have := slice_of_drop [] (0x2F :: 0x2A :: 0x2A :: content) [] (hdrop.trans (by simp))
    simpa [hstop] using this
  have hend : r.stop = text.length := by
    have := congrArg List.length hdrop
    simp only [List.length_drop, List.length_cons] at this
    omega
  have hopen : ¬ r.Closed text := by
    -- A mark at the end would stand behind the first two bytes of the opening.
    rintro ⟨hlong, hmark⟩
    have hlater : (0x2A :: content).drop (content.length - 1) = closing := by
      have hfrom : r.stop - 2 = r.pos + (2 + (content.length - 1)) := by omega
      rw [← hmark, hend, slice, List.take_of_length_le (by simp), ← hend, hfrom, ← List.drop_drop,
        hdrop, ← List.drop_drop]
      rfl
    exact hcontent (hlater ▸ (List.drop_suffix _ _).isInfix)
  refine ⟨fun hclosed => absurd hclosed hopen, fun _ => ⟨hend, ?_⟩⟩
  rw [hwhole, bodies_unclosed hcontent]

end content

theorem readsAs_of_isDoc {text : Bytes} {pos : Nat} {trailing : Bool} {r : CommentRange}
    (hr : r ∈ comments text pos trailing) (hdoc : r.isDoc text = true) : ReadsAs text r := by
  obtain ⟨content, ⟨rest, hdrop, hstop, hcontent⟩ | ⟨hdrop, hstop, hcontent⟩⟩ :=
    exists_content hr hdoc
  · exact .of_closed hdrop hstop hcontent
  · exact .of_unclosed hdrop hstop hcontent

end Trivia

/-! ### The outline of a file -/

namespace Source

open Trivia

theorem parse_eq_map (t : Text) : Doc.parse t = (Doc.bodies t).map Doc.parseBody := rfl

/-- The comments on a declaration are its closed documentation comments. -/
theorem Outline.commentsOn_eq_closed (file : File) (f : SyntaxTree.Focus) (kind : SyntaxTree.Kind) :
    commentsOn file f kind = ((file.docRanges f kind).filter (·.Closed file.text)).map fun r =>
      ⟨f, kind, Doc.parseBody (r.body file.text)⟩ := by
  rw [← List.filterMap_eq_map, ← List.filterMap_eq_filter, List.filterMap_filterMap]
  apply List.filterMap_congr
  intro r hr
  have hreads : ReadsAs file.text r := by
    obtain ⟨hr, hdoc⟩ := List.mem_filter.mp hr
    rcases List.mem_append.mp hr with hr | hr
    · split at hr
      · exact readsAs_of_isDoc hr hdoc
      · cases hr
    · exact readsAs_of_isDoc hr hdoc
  by_cases hclosed : r.Closed file.text
  · simp [Option.guard, hclosed, parse_eq_map, hreads.closed hclosed]
  · simp [Option.guard, hclosed, parse_eq_map, (hreads.unclosed hclosed).2]

/-- **A closed documentation comment is one block, an unclosed one is none, and the outline lists
exactly the closed ones.** -/
theorem documented_eq_closed (file : File) :
    (∀ pos trailing, ∀ r ∈ comments file.text pos trailing, r.isDoc file.text = true →
      ReadsAs file.text r) ∧
    (Outline.ofFile file).documented = file.declarations.flatMap fun d =>
      ((file.docRanges d.1 d.2).filter (·.Closed file.text)).map fun r =>
        ⟨d.1, d.2, Doc.parseBody (r.body file.text)⟩ := by
  refine ⟨fun pos trailing r hr hdoc => readsAs_of_isDoc hr hdoc, ?_⟩
  apply List.flatMap_congr
  intro d _
  exact Outline.commentsOn_eq_closed file d.1 d.2

/-- A function behind a comment whose last character is cut short, and before a comment that is
not closed. -/
def cutShort : File := Index.read TypeScript.parse "a.ts"
  ([0x2F, 0x2A, 0x2A, 0x78, 0xE2, 0x82, 0x2A, 0x2F] ++ TypeScript.bytesOf "function f() {}/**y")

theorem documented_eq_closed_cutShort :
    comments cutShort.text 0 false = [⟨0, 8, true⟩] ∧
    Doc.bodies (Utf8.decodeLossy (slice cutShort.text 0 8)) = [[.ofByte 0x78, .replacement]] ∧
    comments cutShort.text 23 true = [⟨23, 27, true⟩] ∧
    Doc.bodies (Utf8.decodeLossy (slice cutShort.text 23 27)) = [] ∧
    (Outline.ofFile cutShort).documented.map (fun d => (d.kind, d.comment.description)) =
      [(.functionDeclaration, [.ofByte 0x78, .replacement])] := by
  have hclosed : comments cutShort.text 0 false = [⟨0, 8, true⟩] := by decide +kernel
  have hopen : comments cutShort.text 23 true = [⟨23, 27, true⟩] := by decide +kernel
  obtain ⟨hreads, hdocumented⟩ := documented_eq_closed cutShort
  refine ⟨hclosed, ?_, hopen, ?_, ?_⟩
  · have := hreads 0 false ⟨0, 8, true⟩ (by simp [hclosed]) (by decide +kernel)
    exact this.closed (by decide +kernel)
  · have := hreads 23 true ⟨23, 27, true⟩ (by simp [hopen]) (by decide +kernel)
    exact (this.unclosed (by decide +kernel)).2
  · rw [hdocumented]
    decide +kernel

end Source

end PluginManifest
