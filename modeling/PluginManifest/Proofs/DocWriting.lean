import PluginManifest.Proofs.Path
import PluginManifest.Proofs.TagLines

/-! # Written comments

A comment is laid out on lines: those of its description, then for each tag its line and the lines
that continue it.  It is written with an opening line, the gutter before every line, and a closing
line.  `parse_layout` reads it back as one block.  The way back is in three steps: the text is one
block (`bodies_text`), the block gives the lines (`contentLines_body`), and the lines give the comment
(`ofLines_lines`). -/

namespace PluginManifest

/-! ### Joined lines -/

namespace Text

theorem join_cons (sep t : Text) {parts : List Text} (h : parts ≠ []) :
    join sep (t :: parts) = t ++ sep ++ join sep parts := by
  obtain ⟨u, more, rfl⟩ := List.exists_cons_of_ne_nil h
  rfl

/-- What follows joined texts belongs to the last one. -/
theorem join_concat_append (sep t more : Text) (parts : List Text) :
    join sep (parts ++ [t]) ++ more = join sep (parts ++ [t ++ more]) := by
  induction parts with
  | nil => rfl
  | cons u parts ih =>
      rw [List.cons_append, List.cons_append, join_cons _ _ (by simp), join_cons _ _ (by simp),
        List.append_assoc, ih]

theorem splitOn_join {sep : CodePoint} {parts : List Text} (h : ∀ part ∈ parts, sep ∉ part)
    (hne : parts ≠ []) : splitOn sep (join [sep] parts) = parts := by
  rw [splitOn_eq, join_eq, List.splitOn_intercalate sep h hne]

/-- A mark does not reach over a character that it does not hold. -/
theorem isInfix_append_cons {mark before after : Text} {c : CodePoint} (hc : c ∉ mark) :
    mark <:+: before ++ c :: after ↔ mark <:+: before ∨ mark <:+: after := by
  refine ⟨fun h => ?_, ?_⟩
  · rcases List.infix_append_iff.mp h with h | h | ⟨start, tail, rfl, hstart, htail⟩
    · exact .inl h
    · rcases List.infix_cons_iff.mp h with h | h
      · cases mark with
        | nil => exact .inr List.nil_infix
        | cons d mark =>
            obtain ⟨rfl, -⟩ := List.cons_prefix_cons.mp h
            exact absurd List.mem_cons_self hc
      · exact .inr h
    · cases tail with
      | nil => exact .inl (by simpa using hstart.isInfix)
      | cons d tail =>
          obtain ⟨rfl, -⟩ := List.cons_prefix_cons.mp htail
          exact absurd (List.mem_append_right _ List.mem_cons_self) hc
  · rintro (h | h)
    · exact h.trans (List.prefix_append _ _).isInfix
    · exact h.trans ((List.suffix_cons _ _).trans (List.suffix_append _ _)).isInfix

theorem not_isInfix_join {mark : Text} {sep : CodePoint} (hsep : sep ∉ mark) (hne : mark ≠ [])
    {parts : List Text} (h : ∀ part ∈ parts, ¬ mark <:+: part) : ¬ mark <:+: join [sep] parts := by
  induction parts with
  | nil => rwa [join, List.infix_nil]
  | cons part parts ih =>
      have hpart := h part List.mem_cons_self
      by_cases hlast : parts = []
      · rw [hlast]
        exact hpart
      · rw [join_cons _ _ hlast, List.append_assoc, List.singleton_append,
          isInfix_append_cons hsep, not_or]
        exact ⟨hpart, ih fun p hp => h p (List.mem_cons_of_mem _ hp)⟩

end Text

namespace Doc

open Text

/-! ### Lines of a block -/

theorem lineFeed_eq : Text.ofString "\n" = [CodePoint.ofChar '\n'] := rfl

/-- No line break stands in the line, and none is made with the line feed behind it. -/
def IsLine (line : Text) : Prop :=
  CodePoint.ofChar '\n' ∉ line ∧ ∀ c ∈ line.getLast?, c ≠ CodePoint.ofChar '\r'

theorem isLine_of_trimmed {line : Text} (hfeed : CodePoint.ofChar '\n' ∉ line)
    (h : line.Trimmed) : IsLine line := by
  refine ⟨hfeed, ?_⟩
  rintro c hc rfl
  exact absurd (h.2 _ hc) (by decide)

theorem IsLine.append {line : Text} (h : IsLine line) (hne : line ≠ []) {start : Text}
    (hstart : CodePoint.ofChar '\n' ∉ start) : IsLine (start ++ line) := by
  refine ⟨by simp [h.1, hstart], ?_⟩
  rw [List.getLast?_append_of_ne_nil _ hne]
  exact h.2

theorem joinBreaks_cons {c d : CodePoint} (h : ¬ (c = '\r' ∧ d = '\n')) (rest : Text) :
    joinBreaks (c :: d :: rest) = c :: joinBreaks (d :: rest) := by
  rw [joinBreaks, if_neg (by simpa using h)]

theorem joinBreaks_line {line : Text} (h : CodePoint.ofChar '\n' ∉ line) :
    joinBreaks line = line := by
  induction line with
  | nil => rfl
  | cons c line ih =>
      rw [List.mem_cons, not_or] at h
      cases line with
      | nil => rfl
      | cons d line =>
          have hd : d ≠ CodePoint.ofChar '\n' := fun e => h.2 (by simp [e])
          rw [joinBreaks_cons (fun e => hd e.2), ih h.2]

theorem joinBreaks_append_feed {line : Text} (h : IsLine line) (rest : Text) :
    joinBreaks (line ++ CodePoint.ofChar '\n' :: rest) =
      line ++ CodePoint.ofChar '\n' :: joinBreaks rest := by
  induction line with
  | nil =>
      cases rest with
      | nil => rfl
      | cons d rest => exact joinBreaks_cons (fun e => absurd e.1 (by decide)) rest
  | cons c line ih =>
      cases line with
      | nil =>
          have hc : c ≠ CodePoint.ofChar '\r' := h.2 c rfl
          have := ih ⟨by simp, by simp⟩
          rw [List.nil_append] at this
          rw [List.singleton_append, List.singleton_append, joinBreaks_cons (fun e => hc e.1), this]
          rfl
      | cons d line =>
          have hd : d ≠ CodePoint.ofChar '\n' := fun e => h.1 (by simp [e])
          have htail : IsLine (d :: line) := by
            refine ⟨fun hmem => h.1 (List.mem_cons_of_mem _ hmem), ?_⟩
            have := h.2
            rwa [List.getLast?_cons_cons] at this
          have := ih htail
          rw [List.cons_append] at this ⊢
          rw [List.cons_append, joinBreaks_cons (fun e => hd e.2), this]
          rfl

/-- Joined lines have no break to be joined. -/
theorem joinBreaks_join {lines : List Text} (h : ∀ line ∈ lines, IsLine line) :
    joinBreaks (join "\n" lines) = join "\n" lines := by
  induction lines with
  | nil => rfl
  | cons line lines ih =>
      have hline := h line List.mem_cons_self
      by_cases hlast : lines = []
      · rw [hlast]
        exact joinBreaks_line hline.1
      · rw [join_cons _ _ hlast, lineFeed_eq, List.append_assoc, List.singleton_append,
          joinBreaks_append_feed hline, ← lineFeed_eq,
          ih fun l hl => h l (List.mem_cons_of_mem _ hl)]

/-- The gutter that a line is written behind. -/
def gutter : Text := " * "

theorem dropGutter_gutter (line : Text) : dropGutter (gutter ++ line) = line := rfl

/-- The lines of a block that is written with gutters. -/
theorem contentLines_join {lines : List Text}
    (hfeed : ∀ line ∈ lines, line ≠ [] ∧ line.Trimmed ∧ CodePoint.ofChar '\n' ∉ line) :
    contentLines (join "\n" ([] :: (lines.map (gutter ++ ·) ++ [Text.ofString " "]))) =
      [] :: (lines ++ [[]]) := by
  have hlines : ∀ line ∈ [] :: (lines.map (gutter ++ ·) ++ [Text.ofString " "]), IsLine line := by
    intro line hline
    rw [List.mem_cons, List.mem_append, List.mem_map, List.mem_singleton] at hline
    rcases hline with rfl | ⟨inner, hinner, rfl⟩ | rfl
    · exact ⟨by simp, by simp⟩
    · obtain ⟨hne, htrimmed, hbreak⟩ := hfeed inner hinner
      exact (isLine_of_trimmed hbreak htrimmed).append hne (by decide)
    · unfold IsLine
      decide
  unfold contentLines
  rw [joinBreaks_join hlines, lineFeed_eq,
    splitOn_join (fun line hline => (hlines line hline).1) (List.cons_ne_nil _ _)]
  have hback : lines.map (fun line => trim (dropGutter (gutter ++ line))) = lines := by
    rw [List.map_congr_left (g := id), List.map_id]
    intro line hline
    rw [dropGutter_gutter, trim_eq_self (hfeed line hline).2.1, id]
  simp only [List.map_append, List.map_map, List.map_cons, List.map_nil, Function.comp_def, hback]
  rfl

/-! ### Lines of a comment -/

/-- The line starts with an at sign and something that can be a name. -/
def OpensTag : Text → Prop
  | sign :: c :: _ => sign = '@' ∧ c.isBlank = false
  | _ => False

instance : DecidablePred OpensTag
  | [] => inferInstanceAs (Decidable False)
  | [_] => inferInstanceAs (Decidable False)
  | sign :: c :: _ => inferInstanceAs (Decidable (sign = CodePoint.ofChar '@' ∧ c.isBlank = false))

/-- A line of a description. -/
def IsPlain (line : Text) : Prop := line ≠ [] ∧ line.Trimmed ∧ ¬ OpensTag line

instance (line : Text) : Decidable (IsPlain line) := inferInstanceAs (Decidable (_ ∧ _))

theorem openTag?_eq_none {line : Text} (h : ¬ OpensTag line) : openTag? line = none := by
  match line with
  | [] => rfl
  | [c] => simp [openTag?]
  | sign :: c :: rest =>
      rw [openTag?, if_neg]
      intro hopens
      simp only [Bool.and_eq_true, decide_eq_true_eq, Bool.not_eq_true', List.isEmpty_eq_false_iff]
        at hopens
      refine h ⟨hopens.1, ?_⟩
      by_contra hc
      exact hopens.2 (List.takeWhile_cons_of_neg (by simpa using hc))

theorem continuation_append {plain : List Text} (h : ∀ line ∈ plain, IsPlain line)
    (rest : List Text) : continuation (plain ++ rest) = plain ++ continuation rest := by
  induction plain with
  | nil => rfl
  | cons line plain ih =>
      obtain ⟨hne, -, hopens⟩ := h line List.mem_cons_self
      rw [List.cons_append, continuation, openTag?_eq_none hopens]
      dsimp only
      rw [if_neg (by simpa using hne), ih fun l hl => h l (List.mem_cons_of_mem _ hl)]
      rfl

theorem tagsOf_append {plain : List Text} (h : ∀ line ∈ plain, IsPlain line) (rest : List Text) :
    tagsOf (plain ++ rest) = tagsOf rest := by
  induction plain with
  | nil => rfl
  | cons line plain ih =>
      rw [List.cons_append, tagsOf, openTag?_eq_none (h line List.mem_cons_self).2.2]
      exact ih fun l hl => h l (List.mem_cons_of_mem _ hl)

/-! ### Comments laid out on lines -/

/-- A tag with the lines that continue its description. -/
structure TagLayout where
  /-- The line of the tag. -/
  line : TagLine
  /-- The lines after it. -/
  more : List Text

/-- A comment as it is laid out. -/
structure Layout where
  /-- The lines before the first tag. -/
  description : List Text
  /-- The tags in order. -/
  tags : List TagLayout

namespace TagLayout

/-- All lines of the tag. -/
def lines (t : TagLayout) : List Text := t.line.text :: t.more

/-- The tag that is written; its description is the text after the value and the lines after it. -/
def tag (t : TagLayout) : Tag :=
  ⟨t.line.name, t.line.type.getD [], t.line.valueText, join " " (t.line.restLines ++ t.more)⟩

/-- The tag can be told from its lines. -/
def WellFormed (t : TagLayout) : Prop := t.line.WellFormed ∧ ∀ line ∈ t.more, IsPlain line

instance (t : TagLayout) : Decidable t.WellFormed := inferInstanceAs (Decidable (_ ∧ _))

/-- Each tag takes its own lines, and no lines of the next one. -/
theorem tagsOf_lines {tags : List TagLayout} (h : ∀ t ∈ tags, t.WellFormed) :
    continuation (tags.flatMap lines ++ [[]]) = [] ∧
      tagsOf (tags.flatMap lines ++ [[]]) = tags.map tag := by
  induction tags with
  | nil => exact ⟨rfl, rfl⟩
  | cons t tags ih =>
      obtain ⟨hcontinue, htags⟩ := ih fun u hu => h u (List.mem_cons_of_mem _ hu)
      obtain ⟨hline, hmore⟩ := h t List.mem_cons_self
      rw [List.flatMap_cons, lines, List.cons_append, List.cons_append, List.append_assoc]
      refine ⟨by rw [continuation, hline.openTag?_text], ?_⟩
      rw [tagsOf, hline.openTag?_text]
      dsimp only
      rw [continuation_append hmore, hcontinue, tagsOf_append hmore, htags, List.append_nil]
      rfl

end TagLayout

namespace Layout

/-- All lines in order. -/
def lines (w : Layout) : List Text := w.description ++ w.tags.flatMap TagLayout.lines

/-- The whole text: an opening line, the lines behind their gutters, a closing line. -/
def text (w : Layout) : Text :=
  join "\n" (Text.ofString "/**" :: (w.lines.map (gutter ++ ·) ++ [Text.ofString " */"]))

/-- The comment that is written; lines are joined by single spaces. -/
def comment (w : Layout) : Comment := ⟨join " " w.description, w.tags.map TagLayout.tag⟩

/-- The comment can be told from its text. -/
@[mk_iff]
structure WellFormed (w : Layout) : Prop where
  description : ∀ line ∈ w.description, IsPlain line
  tags : ∀ t ∈ w.tags, t.WellFormed
  oneLine : ∀ line ∈ w.lines, CodePoint.ofChar '\n' ∉ line
  markFree : ∀ line ∈ w.lines, ¬ Text.ofString "*/" <:+: line

instance (w : Layout) : Decidable w.WellFormed := decidable_of_iff' _ (wellFormed_iff w)

/-- What stands between the marks. -/
def body (w : Layout) : Text :=
  join "\n" ([] :: (w.lines.map (gutter ++ ·) ++ [Text.ofString " "]))

theorem text_eq (w : Layout) : w.text = Text.ofString "/**" ++ (w.body ++ Text.ofString "*/") := by
  have hlast : Text.ofString " */" = Text.ofString " " ++ Text.ofString "*/" := rfl
  rw [text, body, hlast, join_cons _ _ (by simp), join_cons _ _ (by simp), List.nil_append,
    List.append_assoc, List.append_assoc, join_concat_append]

variable {w : Layout}

theorem WellFormed.trimmed (h : w.WellFormed) : ∀ line ∈ w.lines, line ≠ [] ∧ line.Trimmed := by
  intro line hline
  rcases List.mem_append.mp hline with hline | hline
  · obtain ⟨hne, htrimmed, -⟩ := h.description line hline
    exact ⟨hne, htrimmed⟩
  · obtain ⟨t, ht, hline⟩ := List.mem_flatMap.mp hline
    obtain ⟨htag, hmore⟩ := h.tags t ht
    rcases List.mem_cons.mp hline with rfl | hline
    · exact htag.trimmed_text
    · obtain ⟨hne, htrimmed, -⟩ := hmore line hline
      exact ⟨hne, htrimmed⟩

/-- The text is one block. -/
theorem WellFormed.bodies_text (h : w.WellFormed) : bodies w.text = [w.body] := by
  rw [text_eq]
  apply bodies_eq_singleton
  rw [body, ← List.cons_append, join_concat_append, List.cons_append]
  apply not_isInfix_join (by decide) (by decide)
  intro part hpart
  rw [List.mem_cons, List.mem_append, List.mem_map, List.mem_singleton] at hpart
  rcases hpart with rfl | ⟨line, hline, rfl⟩ | rfl
  · decide
  · have hsplit : gutter ++ line = Text.ofString " *" ++ CodePoint.ofChar ' ' :: line := rfl
    rw [hsplit, isInfix_append_cons (by decide), not_or]
    exact ⟨by decide, h.markFree line hline⟩
  · decide

/-- The lines of the block are those that were written, between two empty ones. -/
theorem WellFormed.contentLines_body (h : w.WellFormed) :
    contentLines w.body = [] :: (w.lines ++ [[]]) := by
  apply contentLines_join
  intro line hline
  obtain ⟨hne, htrimmed⟩ := h.trimmed line hline
  exact ⟨hne, htrimmed, h.oneLine line hline⟩

/-- The lines write the comment. -/
theorem WellFormed.ofLines_lines (h : w.WellFormed) :
    ofLines ([] :: (w.lines ++ [[]])) = w.comment := by
  obtain ⟨hcontinue, htags⟩ := TagLayout.tagsOf_lines h.tags
  have hempty : openTag? [] = none := rfl
  rw [ofLines, continuation, tagsOf, hempty]
  dsimp only
  rw [if_pos List.isEmpty_nil, lines, List.append_assoc, continuation_append h.description,
    hcontinue, tagsOf_append h.description, htags, List.append_nil]
  rfl

end Layout

/-- **A written comment is read back as one block: its description, and its tags in order with their
names, types, values and descriptions.** -/
theorem parse_layout {w : Layout} (h : w.WellFormed) : parse w.text = [w.comment] := by
  rw [parse, h.bodies_text, List.map_singleton, parseBody, h.contentLines_body, h.ofLines_lines]

/-- A description with an asterisk, a slash and an at sign at the front of its lines, a type and a
default with brackets of their own, a quoted value, and a tag with nothing but its name. -/
def crowded : Layout where
  description := ["* starred *", "/ slashed", "@ alone"]
  tags :=
    [⟨⟨"param", some "\x7ba: \x7b b: string \x7d\x7d", some (.defaulted "size" "[1, [2]] = x"),
        "in rem"⟩, ["[more", "and more"]⟩,
     ⟨⟨"name", none, some (.quoted '\x27' " \"a\" [b "), "tail"⟩, []⟩,
     ⟨⟨"deprecated", none, none, []⟩, []⟩]

theorem parse_layout_crowded :
    crowded.WellFormed ∧
    crowded.text = Text.ofString ("/**\n * * starred *\n * / slashed\n * @ alone\n" ++
      " * @param \x7b\x7ba: \x7b b: string \x7d\x7d\x7d [size=[1, [2]] = x] in rem\n" ++
      " * [more\n * and more\n * @name ' \"a\" [b ' tail\n * @deprecated\n */") ∧
    parse crowded.text =
      [⟨"* starred * / slashed @ alone",
        [⟨"param", "\x7ba: \x7b b: string \x7d\x7d", "size", "in rem [more and more"⟩,
         ⟨"name", [], " \"a\" [b ", "tail"⟩, ⟨"deprecated", [], [], []⟩]⟩] := by
  have hwell : crowded.WellFormed := by decide +kernel
  refine ⟨hwell, by decide +kernel, ?_⟩
  rw [parse_layout hwell]
  decide +kernel

end Doc

end PluginManifest
