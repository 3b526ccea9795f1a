import PluginManifest.Proofs.DocRelayout

/-! # Texts wrapped over lines

The words behind a tag may be spread over the line of the tag and the lines that follow it.  Joined parts
are each part behind a space (`spaced_join`), and so it does not matter where the lines break between
words.  The value of a tag is the first word of its own line, however: a tag without a word there has the
empty value, and the space before its description stays at the front (`Tag.fullText_eq`). -/

namespace PluginManifest

/-! ### Parts behind spaces -/

namespace Text

theorem join_ne_nil {sep part : Text} (h : part ≠ []) (parts : List Text) :
    join sep (part :: parts) ≠ [] := by
  cases parts with
  | nil => exact h
  | cons next more =>
      rw [join_cons _ _ (List.cons_ne_nil _ _)]
      simp [h]

/-- Joined parts, with a space before the first one too. -/
theorem spaced_join {parts : List Text} (h : ∀ part ∈ parts, part ≠ []) :
    spaced (join " " parts) = parts.flatMap spaced := by
  induction parts with
  | nil => rfl
  | cons part parts ih =>
      obtain ⟨hpart, hparts⟩ := List.forall_mem_cons.mp h
      rw [List.flatMap_cons, ← ih hparts, spaced_of_ne_nil hpart,
        spaced_of_ne_nil (join_ne_nil hpart parts)]
      cases parts with
      | nil =>
          rw [join, join, spaced_nil, List.append_nil]
      | cons next more =>
          have hnext := hparts next List.mem_cons_self
          rw [join_cons _ _ (List.cons_ne_nil _ _), spaced_of_ne_nil (join_ne_nil hnext more),
            List.append_assoc]
          rfl

theorem join_cons_spaced {part : Text} {parts : List Text} (hpart : part ≠ [])
    (h : ∀ p ∈ parts, p ≠ []) : join " " (part :: parts) = part ++ parts.flatMap spaced := by
  have hall := spaced_join (List.forall_mem_cons.mpr ⟨hpart, h⟩)
  rw [spaced_of_ne_nil (join_ne_nil hpart parts), List.flatMap_cons, spaced_of_ne_nil hpart] at hall
  exact (List.cons.inj hall).2

theorem trimmed_join {words : List Text} (h : ∀ w ∈ words, w.IsWord) : (join " " words).Trimmed := by
  induction words with
  | nil => exact trimmed_nil
  | cons w words ih =>
      obtain ⟨hw, hwords⟩ := List.forall_mem_cons.mp h
      rw [join_cons_spaced hw.1 fun x hx => (hwords x hx).1, ← spaced_join fun x hx => (hwords x hx).1]
      exact hw.trimmed.append_spaced hw.1 (ih hwords)

/-- Empty parts have no place in a text of parts behind spaces. -/
theorem flatMap_spaced_filter (parts : List Text) :
    (parts.filter (· ≠ [])).flatMap spaced = parts.flatMap spaced := by
  induction parts with
  | nil => rfl
  | cons part parts ih =>
      by_cases hpart : part = []
      · rw [List.filter_cons_of_neg (by simp [hpart]), ih, hpart]
        rfl
      · rw [List.filter_cons_of_pos (by simpa using hpart), List.flatMap_cons, List.flatMap_cons, ih]

/-- Where the lines break between words does not matter. -/
theorem flatMap_spaced_join {lines : List (List Text)} (h : ∀ w ∈ lines.flatten, w ≠ []) :
    (lines.map (join " ")).flatMap spaced = lines.flatten.flatMap spaced := by
  induction lines with
  | nil => rfl
  | cons line lines ih =>
      rw [List.flatten_cons, List.forall_mem_append] at h
      rw [List.map_cons, List.flatMap_cons, List.flatten_cons, List.flatMap_append, spaced_join h.1,
        ih h.2]

end Text

namespace Doc

open Text

theorem Tag.fullText_eq (tag : Tag) : tag.fullText = tag.value ++ spaced tag.description := by
  unfold Tag.fullText spaced
  cases tag.description with
  | nil => simp
  | cons c description =>
      have hspace : Text.ofString " " = [CodePoint.ofChar ' '] := rfl
      simp [hspace]

/-! ### Tags among lines -/

theorem openTag?_isSome {line : Text} (h : OpensTag line) : ∃ t, openTag? line = some t := by
  match line with
  | [] => exact h.elim
  | [_] => exact h.elim
  | sign :: c :: rest =>
      have hname : (c :: rest).takeWhile (!·.isBlank) ≠ [] := by
        rw [List.takeWhile_cons_of_pos (by simp [h.2])]
        exact List.cons_ne_nil _ _
      rw [openTag?, if_pos (by simp [h.1, hname])]
      exact ⟨_, rfl⟩

/-- The line is that of a tag with the given name. -/
def IsTagLine (name line : Text) : Prop :=
  ∃ rest ∈ line.tails, line = Text.ofString "@" ++ (name ++ rest) ∧ BlankFirst rest

instance (name line : Text) : Decidable (IsTagLine name line) :=
  inferInstanceAs (Decidable (∃ rest ∈ line.tails, _ ∧ _))

theorem isTagLine_of_openTag? {line : Text} {t : OpenTag} (h : openTag? line = some t) :
    IsTagLine t.tag.name line := by
  cases line with
  | nil => cases h
  | cons c rest =>
      rw [openTag?] at h
      split_ifs at h with hopens
      cases h
      obtain ⟨rfl, -⟩ : c = CodePoint.ofChar '@' ∧ _ := by simpa using hopens
      refine ⟨rest.dropWhile (!·.isBlank), ?_, ?_, ?_⟩
      · exact (List.mem_tails _ _).mpr ((List.dropWhile_suffix _).trans (List.suffix_cons _ _))
      · rw [List.takeWhile_append_dropWhile]
        rfl
      · intro d hd
        have := List.head?_dropWhile_not (!·.isBlank) rest
        rw [hd] at this
        simpa using this

/-- A tag is not looked for among the lines before the first one that has its name. -/
theorem find?_tagsOf_append {name : Text} {before : List Text}
    (h : ∀ line ∈ before, ¬ IsTagLine name line) (rest : List Text) :
    Tag.find? (tagsOf (before ++ rest)) name = Tag.find? (tagsOf rest) name := by
  induction before with
  | nil => rfl
  | cons line before ih =>
      obtain ⟨hline, hbefore⟩ := List.forall_mem_cons.mp h
      rw [List.cons_append, tagsOf]
      cases hopen : openTag? line with
      | none => exact ih hbefore
      | some t =>
          have hname : t.tag.name ≠ name := by
            rintro rfl
            exact hline (isTagLine_of_openTag? hopen)
          rw [← ih hbefore]
          exact List.find?_cons_of_neg (by simp [OpenTag.close, hname])

/-- The lines that continue a tag, up to the next tag. -/
theorem continuation_lines {lines after : List Text} (h : ∀ line ∈ lines, line ≠ [] → IsPlain line)
    (hafter : ∀ line ∈ after.head?, OpensTag line) :
    continuation (lines ++ after) = lines.filter (· ≠ []) := by
  induction lines with
  | nil =>
      cases after with
      | nil => rfl
      | cons line after =>
          obtain ⟨t, ht⟩ := openTag?_isSome (hafter line rfl)
          rw [List.nil_append, continuation, ht]
          rfl
  | cons line lines ih =>
      obtain ⟨hline, hlines⟩ := List.forall_mem_cons.mp h
      by_cases hempty : line = []
      · rw [hempty, List.filter_cons_of_neg (by simp), ← ih hlines]
        rfl
      · rw [List.filter_cons_of_pos (by simpa using hempty), List.cons_append, continuation,
          openTag?_eq_none (hline hempty).2.2, ih hlines]
        exact if_neg (by simpa using hempty)

/-! ### Wrapped words -/

/-- A comment with a tag whose words are spread over lines. -/
structure Wrapped where
  /-- What the lines before the tag say, from the one that opens the comment. -/
  before : List Text
  /-- The name of the tag. -/
  name : Text
  /-- The words on the line of the tag. -/
  onLine : List Text
  /-- The words on each of the lines that follow. -/
  more : List (List Text)
  /-- What the lines after them say. -/
  after : List Text

namespace Wrapped

/-- All words in order. -/
def words (w : Wrapped) : List Text := w.onLine ++ w.more.flatten

/-- The line of the tag. -/
def tagLine (w : Wrapped) : Text := "@" ++ (w.name ++ spaced (join " " w.onLine))

/-- What all the lines say; the words on a line are separated by single spaces. -/
def lines (w : Wrapped) : List Text :=
  w.before ++ w.tagLine :: (w.more.map (join " ") ++ w.after)

/-- Lines as they are written: all but the first behind gutters. -/
def behindGutters : List Text → List Text
  | [] => []
  | first :: rest => first :: rest.map (gutter ++ ·)

/-- The text of the comment. -/
def text (w : Wrapped) : Text := framed [] (join "\n" (behindGutters w.lines)) []

/-- The words are words, and the lines around them are lines of a comment that do not belong to the
tag. -/
@[mk_iff]
structure WellFormed (w : Wrapped) : Prop where
  name : w.name.IsWord ∧ ¬ Text.ofString "*/" <:+: w.name
  words : ∀ word ∈ w.words, word.IsWord ∧ ¬ Text.ofString "*/" <:+: word
  nonempty : w.words ≠ []
  /-- No word can be taken for a tag. -/
  noTag : ∀ word ∈ w.words, word.head? ≠ some (CodePoint.ofChar '@')
  /-- The first word can be taken for nothing else than a word. -/
  first : ∀ word ∈ w.words.head?, ∀ c ∈ word.head?, c ∉ Operand.marks
  around : ∀ line ∈ w.before ++ w.after, line.Trimmed ∧ IsBodyLine line
  before : ∀ line ∈ w.before, ¬ IsTagLine w.name line
  after : ∀ line ∈ w.after.head?, OpensTag line

instance (w : Wrapped) : Decidable w.WellFormed := decidable_of_iff' _ (wellFormed_iff w)

variable {w : Wrapped}

theorem WellFormed.isWord_onLine (h : w.WellFormed) : ∀ word ∈ w.onLine, word.IsWord :=
  fun word hword => (h.words word (List.mem_append_left _ hword)).1

/-- The line of the tag in its parts. -/
def tagParts (w : Wrapped) : TagLine :=
  ⟨w.name, none, w.onLine.head?.map .word, join " " w.onLine.tail⟩

theorem WellFormed.tagParts (h : w.WellFormed) : w.tagParts.WellFormed where
  name := h.name.1
  type := nofun
  value := by
    intro v hv
    obtain ⟨word, hword, rfl⟩ := Option.map_eq_some_iff.mp hv
    have hmem : word ∈ w.onLine := List.mem_of_mem_head? hword
    refine ⟨h.isWord_onLine word hmem, h.first word ?_⟩
    rw [Wrapped.words, List.head?_append, hword]
    rfl
  rest := trimmed_join fun word hword => h.isWord_onLine word (List.mem_of_mem_tail hword)
  behind := by
    intro hrest hvalue
    have hnone : w.onLine = [] := by simpa [Wrapped.tagParts] using hvalue
    rw [Wrapped.tagParts, hnone] at hrest
    exact hrest rfl

theorem WellFormed.text_tagParts (h : w.WellFormed) : w.tagParts.text = w.tagLine := by
  have hne : ∀ word ∈ w.onLine, word ≠ [] := fun word hword => (h.isWord_onLine word hword).1
  have harguments : w.tagParts.arguments = join " " w.onLine := by
    show w.tagParts.operands = join " " w.onLine
    unfold TagLine.operands Wrapped.tagParts
    cases hline : w.onLine with
    | nil => rfl
    | cons word more =>
        rw [hline] at hne
        obtain ⟨hword, hmore⟩ := List.forall_mem_cons.mp hne
        rw [join_cons_spaced hword hmore, ← spaced_join hmore]
        rfl
  rw [TagLine.text, harguments, tagLine, List.append_assoc]
  rfl

theorem WellFormed.isWord_more (h : w.WellFormed) : ∀ word ∈ w.more.flatten, word.IsWord :=
  fun word hword => (h.words word (List.mem_append_right _ hword)).1

/-- A line of words is no line of a tag. -/
theorem WellFormed.isPlain_more (h : w.WellFormed) :
    ∀ line ∈ w.more.map (join " "), line ≠ [] → IsPlain line := by
  intro line hline hne
  obtain ⟨group, hgroup, rfl⟩ := List.mem_map.mp hline
  have hmem : ∀ word ∈ group, word ∈ w.more.flatten :=
    fun word hword => List.mem_flatten.mpr ⟨group, hgroup, hword⟩
  refine ⟨hne, trimmed_join fun word hword => h.isWord_more word (hmem word hword), ?_⟩
  cases group with
  | nil => exact fun hopens => hopens.elim
  | cons word rest =>
      have hword := hmem word List.mem_cons_self
      have hsign := h.noTag word (List.mem_append_right _ hword)
      obtain ⟨c, more, rfl⟩ := List.exists_cons_of_ne_nil (h.isWord_more word hword).1
      rw [join_cons_spaced (List.cons_ne_nil _ _)
        fun x hx => (h.isWord_more x (hmem x (List.mem_cons_of_mem _ hx))).1, List.cons_append]
      intro hopens
      refine hsign ?_
      rw [List.head?_cons, Option.some.injEq]
      generalize more ++ rest.flatMap spaced = tail at hopens
      cases tail with
      | nil => exact hopens.elim
      | cons d tail => exact hopens.1

/-- The text behind the first word of the tag's line, in words behind spaces. -/
theorem WellFormed.flatMap_restLines (h : w.WellFormed) :
    w.tagParts.restLines.flatMap spaced = w.onLine.tail.flatMap spaced ∧
      ∀ line ∈ w.tagParts.restLines, line ≠ [] := by
  have htail : ∀ word ∈ w.onLine.tail, word ≠ [] :=
    fun word hword => (h.isWord_onLine word (List.mem_of_mem_tail hword)).1
  have hlines : w.tagParts.restLines =
      if (join " " w.onLine.tail).isEmpty then [] else [join " " w.onLine.tail] := rfl
  rw [hlines, ← spaced_join htail]
  cases join " " w.onLine.tail with
  | nil => exact ⟨rfl, nofun⟩
  | cons c rest => exact ⟨List.append_nil _, by simp⟩

/-- What the full text is made of: the first word of the tag's line, and all other words behind
spaces. -/
theorem WellFormed.fullTextOf?_lines (h : w.WellFormed) :
    Tag.fullTextOf? (tagsOf w.lines) w.name =
      some (w.onLine.headD [] ++ (w.onLine.tail ++ w.more.flatten).flatMap spaced) := by
  have hcontinue : continuation (w.more.map (join " ") ++ w.after) =
      (w.more.map (join " ")).filter (· ≠ []) := continuation_lines h.isPlain_more h.after
  obtain ⟨hrest, hne⟩ := h.flatMap_restLines
  have hlines : ∀ line ∈ w.tagParts.restLines ++ (w.more.map (join " ")).filter (· ≠ []),
      line ≠ [] := by
    rw [List.forall_mem_append]
    exact ⟨hne, fun line hline => by simpa using (List.mem_filter.mp hline).2⟩
  have hdescription :
      spaced (join " " (w.tagParts.restLines ++ (w.more.map (join " ")).filter (· ≠ []))) =
        (w.onLine.tail ++ w.more.flatten).flatMap spaced := by
    rw [spaced_join hlines, List.flatMap_append, hrest, flatMap_spaced_filter,
      flatMap_spaced_join fun word hword => (h.isWord_more word hword).1, List.flatMap_append]
  have hvalue : w.tagParts.valueText = w.onLine.headD [] := by
    unfold TagLine.valueText Wrapped.tagParts
    cases w.onLine with
    | nil => rfl
    | cons word more => rfl
  have hopen := h.tagParts.openTag?_text
  rw [h.text_tagParts] at hopen
  rw [Tag.fullTextOf?, Wrapped.lines, find?_tagsOf_append h.before, tagsOf, hopen, hcontinue, Tag.find?]
  dsimp only
  rw [List.find?_cons_of_pos (by simp [OpenTag.close, Wrapped.tagParts]), Option.map_some,
    Tag.fullText_eq, ← hdescription, ← hvalue]
  rfl

theorem isBodyLine_join {words : List Text}
    (h : ∀ word ∈ words, word.IsWord ∧ ¬ Text.ofString "*/" <:+: word) :
    IsBodyLine (join " " words) := by
  have hspace : Text.ofString " " = [CodePoint.ofChar ' '] := rfl
  rw [hspace]
  constructor
  · -- A line feed is a mark of its own, and words hold no blank.
    rw [← List.singleton_infix_iff]
    refine not_isInfix_join (by decide) (by decide) fun word hword hfeed => ?_
    have hblank := (h word hword).1.2 _ ((List.singleton_infix_iff _ _).mp hfeed)
    exact absurd hblank (by decide)
  · exact not_isInfix_join (by decide) (by decide) fun word hword => (h word hword).2

theorem WellFormed.isBodyLine_tagLine (h : w.WellFormed) : IsBodyLine w.tagLine := by
  have hwords : IsBodyLine (join " " w.onLine) :=
    isBodyLine_join fun word hword => h.words word (List.mem_append_left _ hword)
  have hname : IsBodyLine w.name := isBodyLine_join (List.forall_mem_singleton.mpr h.name)
  have hsign : IsBodyLine (Text.ofString "@" ++ w.name) := by
    refine ⟨fun hfeed => ?_, ?_⟩
    · rcases List.mem_append.mp hfeed with hfeed | hfeed
      · exact absurd hfeed (by decide)
      · exact hname.1 hfeed
    · have hmark : CodePoint.ofChar '@' ∉ Text.ofString "*/" := by decide
      show ¬ Text.ofString "*/" <:+: [] ++ CodePoint.ofChar '@' :: w.name
      rw [isInfix_append_cons hmark, not_or]
      exact ⟨by decide, hname.2⟩
  rw [tagLine, ← List.append_assoc]
  by_cases hempty : join " " w.onLine = []
  · rwa [hempty, spaced_nil, List.append_nil]
  · rw [spaced_of_ne_nil hempty]
    refine ⟨?_, ?_⟩
    · rw [List.mem_append, List.mem_cons, not_or, not_or]
      exact ⟨hsign.1, by decide, hwords.1⟩
    · rw [isInfix_append_cons (not_mem_closeMark isBlank_space), not_or]
      exact ⟨hsign.2, hwords.2⟩

/-- The lines can stand in a comment, and say what they are. -/
theorem WellFormed.mem_lines (h : w.WellFormed) :
    ∀ line ∈ w.lines, line.Trimmed ∧ IsBodyLine line := by
  obtain ⟨hbefore, hafter⟩ := List.forall_mem_append.mp h.around
  rw [lines, List.forall_mem_append, List.forall_mem_cons, List.forall_mem_append]
  refine ⟨hbefore, ⟨?_, h.isBodyLine_tagLine⟩, ?_, hafter⟩
  · rw [← h.text_tagParts]
    exact h.tagParts.trimmed_text.2
  · intro line hline
    obtain ⟨group, hgroup, rfl⟩ := List.mem_map.mp hline
    have hmem : ∀ word ∈ group, word ∈ w.words := fun word hword =>
      List.mem_append_right _ (List.mem_flatten.mpr ⟨group, hgroup, hword⟩)
    exact ⟨trimmed_join fun word hword => (h.words word (hmem word hword)).1,
      isBodyLine_join fun word hword => h.words word (hmem word hword)⟩

theorem contents_behindGutters {lines : List Text} (h : ∀ line ∈ lines, line.Trimmed) :
    contents (behindGutters lines) = lines := by
  cases lines with
  | nil => rfl
  | cons first rest =>
      obtain ⟨hfirst, hrest⟩ := List.forall_mem_cons.mp h
      have hback : ∀ line ∈ rest, trim (dropGutter (gutter ++ line)) = id line := by
        intro line hline
        rw [dropGutter_gutter, trim_eq_self (hrest line hline), id]
      rw [behindGutters, contents, trim_eq_self hfirst, List.map_map]
      exact congrArg (first :: ·) ((List.map_congr_left hback).trans (List.map_id rest))

theorem isBodyLine_gutter {line : Text} (h : IsBodyLine line) : IsBodyLine (gutter ++ line) := by
  have hindent : (Text.ofString " ").IsBlank := by decide
  have hline : IsBodyLine (Text.ofString " " ++ line) :=
    @IsBodyLine.insert_blank [] (Text.ofString " ") line h hindent (by decide)
  exact hline.write_gutter hindent

/-- A wrapped comment is read as one comment, from its lines. -/
theorem WellFormed.parse_text (h : w.WellFormed) : parse w.text = [ofLines w.lines] := by
  have hlines := h.mem_lines
  have hne : behindGutters w.lines ≠ [] := by
    unfold lines
    cases w.before with
    | nil => exact List.cons_ne_nil _ _
    | cons line before => exact List.cons_ne_nil _ _
  have hwritten : ∀ line ∈ behindGutters w.lines, IsBodyLine line := by
    generalize w.lines = lines at hlines
    cases lines with
    | nil => exact nofun
    | cons first rest =>
        obtain ⟨hfirst, hrest⟩ := List.forall_mem_cons.mp hlines
        rw [behindGutters, List.forall_mem_cons]
        refine ⟨hfirst.2, fun line hline => ?_⟩
        obtain ⟨content, hcontent, rfl⟩ := List.mem_map.mp hline
        exact isBodyLine_gutter (hrest content hcontent).2
  have hbody : ¬ Text.ofString "*/" <:+: join "\n" (behindGutters w.lines) := by
    rw [lineFeed_eq]
    exact not_isInfix_join (by decide) (by decide) fun line hline => (hwritten line hline).2
  have hbodies : bodies w.text = [join "\n" (behindGutters w.lines)] :=
    (Blocks.block (by decide) hbody (.none (by decide))).bodies_eq
  rw [parse, hbodies, List.map_singleton, parseBody_join hne fun line hline => (hwritten line hline).1,
    contents_behindGutters fun line hline => (hlines line hline).1]

end Wrapped

open Wrapped in
/-- **The full text of a tag is its words, wherever the lines break between them, exactly if a word stands
on the line of the tag; else a space comes before the words.** -/
theorem fullText_wrapped_iff {w : Wrapped} (h : w.WellFormed) {t : Text} (ht : Relaid w.text t) :
    ∃ comment, parse t = [comment] ∧
      (Tag.fullTextOf? comment.tags w.name = some (join " " w.words) ↔ w.onLine ≠ []) ∧
      (w.onLine = [] →
        Tag.fullTextOf? comment.tags w.name = some (" " ++ join " " w.words)) := by
  have hwords : ∀ word ∈ w.words, word ≠ [] := fun word hword => (h.words word hword).1.1
  have hread : Tag.fullTextOf? (ofLines w.lines).tags w.name =
      some (w.onLine.headD [] ++ (w.onLine.tail ++ w.more.flatten).flatMap spaced) :=
    h.fullTextOf?_lines
  have hbare : w.onLine = [] →
      Tag.fullTextOf? (ofLines w.lines).tags w.name = some (" " ++ join " " w.words) := by
    intro hnone
    have hne : join " " w.words ≠ [] := by
      obtain ⟨word, more, hsplit⟩ := List.exists_cons_of_ne_nil h.nonempty
      rw [hsplit] at hwords ⊢
      exact join_ne_nil (hwords word List.mem_cons_self) more
    have hmore : w.more.flatten = w.words := by rw [Wrapped.words, hnone, List.nil_append]
    rw [hread, hnone, List.headD_nil, List.tail_nil, List.nil_append, List.nil_append, hmore,
      ← spaced_join hwords, spaced_of_ne_nil hne]
    rfl
  refine ⟨ofLines w.lines, by rw [ht.parse_eq, h.parse_text], ⟨?_, ?_⟩, hbare⟩
  · intro hsame hnone
    have hlonger := Option.some.inj ((hbare hnone).symm.trans hsame)
    have hlength := congrArg List.length hlonger
    rw [List.length_append, Nat.add_eq_right] at hlength
    cases hlength
  · intro hsome
    obtain ⟨word, rest, hsplit⟩ := List.exists_cons_of_ne_nil hsome
    have hall : w.words = word :: (rest ++ w.more.flatten) := by
      rw [Wrapped.words, hsplit, List.cons_append]
    rw [hall, List.forall_mem_cons] at hwords
    rw [hread, hsplit, List.headD_cons, List.tail_cons, hall,
      join_cons_spaced hwords.1 hwords.2]

/-- A name that starts on the line of its tag and goes on below. -/
def spread : Wrapped where
  before := [[], "A widget."]
  name := "widgetName"
  onLine := ["Hello"]
  more := [["wide", "World"], [], ["here"]]
  after := ["@since 2"]

theorem fullText_wrapped_iff_spread :
    let closed : Text := Text.ofString
      "/**\n * A widget.\n * @widgetName Hello\n * wide World\n * \n * here\n * @since 2\n */"
    spread.WellFormed ∧ Relaid spread.text closed ∧
    ∃ comment, parse closed = [comment] ∧
      Tag.fullTextOf? comment.tags "widgetName" = some "Hello wide World here" := by
  intro closed
  have hwell : spread.WellFormed := by decide +kernel
  -- The line that closes the comment is an empty one behind the last.
  have hrelaid : Relaid spread.text closed := by
    let before : List Text :=
      [[], " * A widget.", " * @widgetName Hello", " * wide World", " * ", " * here"]
    let body := join "\n" (Wrapped.behindGutters spread.lines)
    have hsplit : splitOn (CodePoint.ofChar '\n') body = before ++ [Text.ofString " * @since 2"] := by
      decide +kernel
    have hempty : IsEmptyLine (Text.ofString " ") := ⟨by decide, .inl (by decide)⟩
    have hlines : Relined (splitOn (CodePoint.ofChar '\n') body)
        (before ++ [Text.ofString " * @since 2", Text.ofString " "]) := by
      rw [hsplit]
      exact .insert (.inl rfl) hempty
    have hclosed : closed = framed [] (join "\n"
        (before ++ [Text.ofString " * @since 2", Text.ofString " "])) [] := by
      decide +kernel
    rw [hclosed]
    exact .rel _ _ (.lines (.first (by decide)) (by decide +kernel) hlines)
  obtain ⟨comment, hparse, hiff, -⟩ := fullText_wrapped_iff hwell hrelaid
  refine ⟨hwell, hrelaid, comment, hparse, ?_⟩
  exact (hiff.mpr (by decide)).trans (by decide)

/-- The words of a name, all of them below the line of the tag. -/
def lowered : Wrapped where
  before := [[]]
  name := "widgetName"
  onLine := []
  more := [["Hello", "World"]]
  after := []

theorem fullText_lowered :
    lowered.WellFormed ∧ lowered.text = Text.ofString "/**\n * @widgetName\n * Hello World*/" ∧
    join " " lowered.words = Text.ofString "Hello World" ∧
    (parse lowered.text).map (fun comment => Tag.fullTextOf? comment.tags "widgetName") =
      [some (Text.ofString " Hello World")] := by
  decide +kernel

end Doc

end PluginManifest
