import PluginManifest.Proofs.DocWriting
import Mathlib.Logic.Relation

/-! # Comments laid out anew

What a comment says does not depend on its layout.  A line counts only by what stands between its
blanks (`trim_dropGutter_congr`), whatever breaks it ends with (`contentLines_eq`), and empty lines
count for nothing (`ofLines_insert_nil`).  `Relayout` lists the changes that are allowed: returns before
all line feeds, blanks at the ends of lines, a gutter where there is none, and further empty lines.  A
changed block is still the same block of the text (`Opens.exists_bodies`), and so the text is read as
before (`Relaid.parse_eq`). -/

namespace PluginManifest

/-! ### Blanks at the ends of a text -/

namespace Text

/-- Only blanks stand in the text. -/
def IsBlank (t : Text) : Prop := ∀ c ∈ t, c.isBlank = true

instance (t : Text) : Decidable (IsBlank t) := inferInstanceAs (Decidable (∀ c ∈ t, _))

variable {s t : Text}

theorem trimStart_blank_append (h : IsBlank s) (t : Text) : trimStart (s ++ t) = trimStart t :=
  List.dropWhile_append_of_pos h

theorem trimEnd_append_blank (h : IsBlank s) (t : Text) : trimEnd (t ++ s) = trimEnd t := by
  have hback : ∀ c ∈ s.reverse, c.isBlank = true := fun c hc => h c (List.mem_reverse.mp hc)
  unfold trimEnd
  rw [List.reverse_append, List.dropWhile_append_of_pos hback]

theorem trimStart_eq_nil_iff : trimStart t = [] ↔ IsBlank t := List.dropWhile_eq_nil_iff

/-- Blanks behind a text stay behind it when the blanks before it are cut off. -/
theorem trimStart_append_of_ne_nil (h : trimStart t ≠ []) (s : Text) :
    trimStart (t ++ s) = trimStart t ++ s := by
  unfold trimStart at h ⊢
  rw [List.dropWhile_append, if_neg (by simpa using h)]

theorem trim_blank_append (h : IsBlank s) (t : Text) : trim (s ++ t) = trim t := by
  unfold trim
  rw [trimStart_blank_append h]

theorem trim_append_blank (h : IsBlank s) (t : Text) : trim (t ++ s) = trim t := by
  unfold trim
  by_cases ht : trimStart t = []
  · have hall : IsBlank (t ++ s) := fun c hc =>
      (List.mem_append.mp hc).elim (trimStart_eq_nil_iff.mp ht c) (h c)
    rw [ht, trimStart_eq_nil_iff.mpr hall]
  · rw [trimStart_append_of_ne_nil ht, trimEnd_append_blank h]

theorem trim_of_isBlank (h : IsBlank t) : trim t = [] := by
  unfold trim
  rw [trimStart_eq_nil_iff.mpr h]
  rfl

/-- A text is what trimming leaves of it, between blanks. -/
theorem exists_eq_append_trim (t : Text) :
    ∃ start stop, IsBlank start ∧ IsBlank stop ∧ t = start ++ (trim t ++ stop) := by
  let start := t.takeWhile CodePoint.isBlank
  let stop := ((trimStart t).reverse.takeWhile CodePoint.isBlank).reverse
  have hstart : start ++ trimStart t = t := List.takeWhile_append_dropWhile
  have hstop : trim t ++ stop = trimStart t := by
    rw [trim, trimEnd, ← List.reverse_append, List.takeWhile_append_dropWhile, List.reverse_reverse]
  refine ⟨start, stop, fun c hc => List.mem_takeWhile_imp hc,
    fun c hc => List.mem_takeWhile_imp (List.mem_reverse.mp hc), ?_⟩
  rw [hstop, hstart]

end Text

namespace Doc

open Text

/-! ### Gutters -/

/-- The line starts with an asterisk that closes no comment. -/
def HasGutter (line : Text) : Prop :=
  ∃ rest, trimStart line = CodePoint.ofChar '*' :: rest ∧ rest.head? ≠ some (CodePoint.ofChar '/')

variable {line s : Text}

theorem dropGutter_of_not_hasGutter (h : ¬ HasGutter line) : dropGutter line = line := by
  unfold dropGutter
  split
  · rename_i star rest htrim
    split_ifs with hstar
    · split
      · exact absurd ⟨[], by rw [htrim, hstar], by simp⟩ h
      · rename_i c more
        have hslash : c = CodePoint.ofChar '/' := by
          by_contra hc
          exact h ⟨c :: more, by rw [htrim, hstar], by simpa using hc⟩
        rw [if_pos hslash]
    · rfl
  · rfl

/-- Behind its gutter a line counts from its first character that is no blank. -/
theorem trim_dropGutter_of_star {rest : Text} (h : trimStart line = CodePoint.ofChar '*' :: rest)
    (hrest : rest.head? ≠ some (CodePoint.ofChar '/')) : trim (dropGutter line) = trim rest := by
  unfold dropGutter
  rw [h]
  dsimp only
  rw [if_pos rfl]
  cases rest with
  | nil => rfl
  | cons c more =>
      have hc : c ≠ CodePoint.ofChar '/' := by simpa using hrest
      dsimp only
      rw [if_neg hc]
      split_ifs with hspace
      · rw [hspace, trim_cons_blank isBlank_space]
      · rfl

theorem trim_dropGutter_blank_append (h : IsBlank s) (line : Text) :
    trim (dropGutter (s ++ line)) = trim (dropGutter line) := by
  have hstart := trimStart_blank_append h line
  by_cases hgutter : HasGutter line
  · obtain ⟨rest, htrim, hrest⟩ := hgutter
    rw [trim_dropGutter_of_star htrim hrest, trim_dropGutter_of_star (hstart.trans htrim) hrest]
  · have hnone : ¬ HasGutter (s ++ line) := by
      unfold HasGutter
      rwa [hstart]
    rw [dropGutter_of_not_hasGutter hgutter, dropGutter_of_not_hasGutter hnone, trim_blank_append h]

theorem trim_dropGutter_append_blank (h : IsBlank s) (line : Text) :
    trim (dropGutter (line ++ s)) = trim (dropGutter line) := by
  have hhead : ∀ rest : Text, (rest ++ s).head? = some (CodePoint.ofChar '/') ↔
      rest.head? = some (CodePoint.ofChar '/') := by
    intro rest
    cases rest with
    | nil =>
        simp only [List.nil_append, List.head?_nil, reduceCtorEq, iff_false]
        intro hs
        exact absurd (h _ (List.mem_of_mem_head? hs)) (by decide)
    | cons c rest => simp
  by_cases hempty : trimStart line = []
  · -- There is nothing but blanks.
    have hline := trimStart_eq_nil_iff.mp hempty
    have hall : IsBlank (line ++ s) := fun c hc => (List.mem_append.mp hc).elim (hline c) (h c)
    have hnone : ¬ HasGutter line := by
      rintro ⟨rest, hrest, -⟩
      rw [hempty] at hrest
      cases hrest
    have hnone' : ¬ HasGutter (line ++ s) := by
      rintro ⟨rest, hrest, -⟩
      rw [trimStart_eq_nil_iff.mpr hall] at hrest
      cases hrest
    rw [dropGutter_of_not_hasGutter hnone, dropGutter_of_not_hasGutter hnone', trim_append_blank h]
  · have hstart := trimStart_append_of_ne_nil hempty s
    by_cases hgutter : HasGutter line
    · obtain ⟨rest, htrim, hrest⟩ := hgutter
      rw [htrim, List.cons_append] at hstart
      rw [trim_dropGutter_of_star htrim hrest,
        trim_dropGutter_of_star hstart (fun hslash => hrest ((hhead rest).mp hslash)),
        trim_append_blank h]
    · have hnone : ¬ HasGutter (line ++ s) := by
        rintro ⟨more, hmore, hslash⟩
        rw [hstart] at hmore
        obtain ⟨c, rest, hrest⟩ := List.exists_cons_of_ne_nil hempty
        rw [hrest, List.cons_append] at hmore
        obtain ⟨rfl, rfl⟩ := List.cons.inj hmore
        exact hgutter ⟨rest, hrest, fun hfirst => hslash ((hhead rest).mpr hfirst)⟩
      rw [dropGutter_of_not_hasGutter hgutter, dropGutter_of_not_hasGutter hnone,
        trim_append_blank h]

/-- What a line says depends on what stands between its blanks. -/
theorem trim_dropGutter_congr {line line' : Text} (h : trim line = trim line') :
    trim (dropGutter line) = trim (dropGutter line') := by
  have hcore : ∀ l : Text, trim (dropGutter l) = trim (dropGutter (trim l)) := by
    intro l
    obtain ⟨start, stop, hstart, hstop, hl⟩ := exists_eq_append_trim l
    conv_lhs => rw [hl]
    rw [trim_dropGutter_blank_append hstart, trim_dropGutter_append_blank hstop]
  rw [hcore line, hcore line', h]

/-! ### Line breaks -/

/-- What the lines of a block say, the first of which has no gutter. -/
def contents : List Text → List Text
  | [] => []
  | first :: rest => trim first :: rest.map fun line => trim (dropGutter line)

theorem contents_congr {lines lines' : List Text}
    (h : List.Forall₂ (fun l l' => trim l = trim l') lines lines') :
    contents lines = contents lines' := by
  cases h with
  | nil => rfl
  | cons hfirst hrest =>
      have hmap : ∀ {rest rest' : List Text},
          List.Forall₂ (fun l l' => trim l = trim l') rest rest' →
          (rest.map fun line => trim (dropGutter line)) =
            rest'.map fun line => trim (dropGutter line) := by
        intro rest rest' hall
        induction hall with
        | nil => rfl
        | cons hline _ ih => rw [List.map_cons, List.map_cons, trim_dropGutter_congr hline, ih]
      rw [contents, contents, hfirst, hmap hrest]

/-- The line, or the line with a carriage return behind it. -/
def MayReturn (line line' : Text) : Prop :=
  line' = line ∨ line' = line ++ [CodePoint.ofChar '\r']

theorem MayReturn.cons {line line' : Text} (h : MayReturn line line') (c : CodePoint) :
    MayReturn (c :: line) (c :: line') := by
  rcases h with rfl | rfl
  · exact .inl rfl
  · exact .inr rfl

theorem MayReturn.trim_eq {line line' : Text} (h : MayReturn line line') :
    trim line = trim line' := by
  have hblank : IsBlank [CodePoint.ofChar '\r'] := by decide
  rcases h with rfl | rfl
  · rfl
  · rw [trim_append_blank hblank]

theorem splitOn_feed (t : Text) :
    splitOn (CodePoint.ofChar '\n') (CodePoint.ofChar '\n' :: t) =
      [] :: splitOn (CodePoint.ofChar '\n') t := by
  rw [splitOn_cons, if_pos rfl]

/-- A character that breaks no line goes to the first line. -/
theorem forall₂_splitOn_cons {c sep : CodePoint} (hc : c ≠ sep) {t u : Text}
    (h : List.Forall₂ MayReturn (splitOn sep t) (splitOn sep u)) :
    List.Forall₂ MayReturn (splitOn sep (c :: t)) (splitOn sep (c :: u)) := by
  rw [splitOn_cons, splitOn_cons, if_neg hc, if_neg hc]
  generalize splitOn sep t = lines at h
  generalize splitOn sep u = lines' at h
  cases h with
  | nil => exact .cons (.inl rfl) .nil
  | cons hfirst hrest => exact .cons (hfirst.cons c) hrest

theorem joinBreaks_feed (t : Text) :
    joinBreaks (CodePoint.ofChar '\n' :: t) = CodePoint.ofChar '\n' :: joinBreaks t :=
  @joinBreaks_append_feed [] ⟨by simp, by simp⟩ t

/-- Joining breaks takes returns away at the ends of lines and nowhere else. -/
theorem forall₂_splitOn_joinBreaks (t : Text) :
    List.Forall₂ MayReturn (splitOn (CodePoint.ofChar '\n') (joinBreaks t))
      (splitOn (CodePoint.ofChar '\n') t) := by
  fun_induction joinBreaks t with
  | case1 => exact .cons (.inl rfl) .nil
  | case2 c => exact List.forall₂_same.mpr fun _ _ => .inl rfl
  | case3 c d rest hbreak ih =>
      obtain ⟨rfl, rfl⟩ : c = CodePoint.ofChar '\r' ∧ d = CodePoint.ofChar '\n' := by
        simpa using hbreak
      rw [joinBreaks_feed, splitOn_feed, splitOn_feed, List.forall₂_cons] at ih
      rw [joinBreaks_feed, splitOn_feed, splitOn_cons, if_neg (by decide), splitOn_feed]
      exact .cons (.inr rfl) ih.2
  | case4 c d rest hbreak ih =>
      by_cases hc : c = CodePoint.ofChar '\n'
      · rw [hc, splitOn_feed, splitOn_feed]
        exact .cons (.inl rfl) ih
      · exact forall₂_splitOn_cons hc ih

/-- The lines of a block can be read off without joining its breaks. -/
theorem contentLines_eq (body : Text) :
    contentLines body = contents (splitOn (CodePoint.ofChar '\n') body) := by
  have hjoined : contentLines body =
      contents (splitOn (CodePoint.ofChar '\n') (joinBreaks body)) := by
    unfold contentLines contents
    rfl
  rw [hjoined]
  exact contents_congr ((forall₂_splitOn_joinBreaks body).imp fun _ _ h => h.trim_eq)

/-- The text with a carriage return before every line feed. -/
def withReturns : Text → Text
  | [] => []
  | c :: rest => if c = '\n' then '\r' :: '\n' :: withReturns rest else c :: withReturns rest

theorem withReturns_feed (t : Text) : withReturns (CodePoint.ofChar '\n' :: t) =
    CodePoint.ofChar '\r' :: CodePoint.ofChar '\n' :: withReturns t := if_pos rfl

theorem withReturns_cons {c : CodePoint} (hc : c ≠ CodePoint.ofChar '\n') (t : Text) :
    withReturns (c :: t) = c :: withReturns t := if_neg hc

theorem withReturns_append (t u : Text) :
    withReturns (t ++ u) = withReturns t ++ withReturns u := by
  induction t with
  | nil => rfl
  | cons c t ih =>
      rw [List.cons_append]
      by_cases hc : c = CodePoint.ofChar '\n'
      · rw [hc, withReturns_feed, withReturns_feed, ih]
        rfl
      · rw [withReturns_cons hc, withReturns_cons hc, ih]
        rfl

theorem forall₂_splitOn_withReturns (t : Text) :
    List.Forall₂ MayReturn (splitOn (CodePoint.ofChar '\n') t)
      (splitOn (CodePoint.ofChar '\n') (withReturns t)) := by
  induction t with
  | nil => exact .cons (.inl rfl) .nil
  | cons c t ih =>
      by_cases hc : c = CodePoint.ofChar '\n'
      · rw [hc, withReturns_feed, splitOn_feed, splitOn_cons, if_neg (by decide), splitOn_feed]
        exact .cons (.inr rfl) ih
      · rw [withReturns_cons hc]
        exact forall₂_splitOn_cons hc ih

theorem parseBody_withReturns (body : Text) : parseBody (withReturns body) = parseBody body := by
  have hlines := (forall₂_splitOn_withReturns body).imp fun _ _ h => h.trim_eq
  rw [parseBody, parseBody, contentLines_eq, contentLines_eq, contents_congr hlines]

theorem isPrefix_of_withReturns {mark : Text} (hmark : ∀ c ∈ mark, c.isBlank = false) {t : Text}
    (h : mark <+: withReturns t) : mark <+: t := by
  induction mark generalizing t with
  | nil => exact List.nil_prefix
  | cons p mark ih =>
      obtain ⟨hp, hmark⟩ := List.forall_mem_cons.mp hmark
      cases t with
      | nil => exact h
      | cons c t =>
          by_cases hc : c = CodePoint.ofChar '\n'
          · rw [hc, withReturns_feed, List.cons_prefix_cons] at h
            rw [h.1] at hp
            exact absurd hp (by decide)
          · rw [withReturns_cons hc, List.cons_prefix_cons] at h
            exact List.cons_prefix_cons.mpr ⟨h.1, ih hmark h.2⟩

/-- Returns before line feeds make no mark. -/
theorem isInfix_of_withReturns {mark : Text} (hmark : mark.IsWord) {t : Text}
    (h : mark <:+: withReturns t) : mark <:+: t := by
  have hnot : ∀ {c : CodePoint}, c.isBlank = true → c ∉ mark := by
    intro c hc hmem
    rw [hmark.2 c hmem] at hc
    cases hc
  induction t with
  | nil => exact h
  | cons c t ih =>
      by_cases hc : c = CodePoint.ofChar '\n'
      · have hbreak : withReturns (c :: t) =
            [CodePoint.ofChar '\r'] ++ CodePoint.ofChar '\n' :: withReturns t := by
          rw [hc, withReturns_feed]
          rfl
        rw [hbreak, isInfix_append_cons (hnot (by decide))] at h
        rcases h with h | h
        · have hreturn : CodePoint.ofChar '\r' ∈ mark := by
            obtain ⟨d, more, rfl⟩ := List.exists_cons_of_ne_nil hmark.1
            have hd := List.mem_singleton.mp (h.subset List.mem_cons_self)
            rw [hd]
            exact List.mem_cons_self
          exact absurd hreturn (hnot (by decide))
        · exact List.infix_cons_iff.mpr (.inr (ih h))
      · rw [withReturns_cons hc, List.infix_cons_iff] at h
        rcases h with h | h
        · rw [← withReturns_cons hc] at h
          exact (isPrefix_of_withReturns hmark.2 h).isInfix
        · exact List.infix_cons_iff.mpr (.inr (ih h))

/-! ### Blocks of a text -/

/-- The text `body` between the marks of a comment, and what stands around the comment. -/
def framed (before body after : Text) : Text :=
  before ++ (Text.ofString "/**" ++ (body ++ (Text.ofString "*/" ++ after)))

/-- How a text is made up of blocks: each opens with the first `/**` behind the one before it, and
closes with the first `*/` behind its opening. -/
inductive Blocks : Text → List Text → Prop
  /-- Nothing opens a block. -/
  | none {t : Text} : ¬ Text.ofString "/**" <:+: t → Blocks t []
  /-- A block is opened and never closed. -/
  | unclosed {before inside : Text} : ¬ Text.ofString "/**" <:+: before →
      ¬ Text.ofString "*/" <:+: inside → Blocks (before ++ (Text.ofString "/**" ++ inside)) []
  /-- A block is followed by others. -/
  | block {before body after : Text} {bodies : List Text} : ¬ Text.ofString "/**" <:+: before →
      ¬ Text.ofString "*/" <:+: body → Blocks after bodies →
      Blocks (framed before body after) (body :: bodies)

/-- No end of the mark is the start of another one. -/
def Unbordered (mark : Text) : Prop :=
  mark ≠ [] ∧ ∀ tail ∈ mark.tails, tail ≠ [] → ¬ tail <+: mark.dropLast

instance (mark : Text) : Decidable (Unbordered mark) := inferInstanceAs (Decidable (_ ∧ _))

theorem unbordered_open : Unbordered (Text.ofString "/**") := by decide

theorem unbordered_close : Unbordered (Text.ofString "*/") := by decide

/-- A text without the mark is split at the mark that follows it. -/
theorem breakOn?_of_unbordered {mark before : Text} (hmark : Unbordered mark)
    (h : ¬ mark <:+: before) (after : Text) :
    breakOn? mark (before ++ (mark ++ after)) = some (before, after) := by
  apply breakOn?_append hmark.1
  intro hhold
  rcases List.infix_append_iff.mp hhold with hbefore | hlast | ⟨start, tail, hsplit, hstart, htail⟩
  · exact h hbefore
  · have hlen := hlast.length_le
    have hpos := List.length_pos_iff.mpr hmark.1
    rw [List.length_dropLast] at hlen
    omega
  · by_cases hempty : tail = []
    · rw [hempty, List.append_nil] at hsplit
      exact h (hsplit ▸ hstart.isInfix)
    · exact hmark.2 tail ((List.mem_tails _ _).mpr ⟨start, hsplit.symm⟩) hempty htail

theorem not_isInfix_of_breakOn? {mark t before after : Text} (hmark : mark ≠ [])
    (h : breakOn? mark t = some (before, after)) : ¬ mark <:+: before := by
  induction t generalizing before with
  | nil =>
      simp only [breakOn?, Option.map_eq_some_iff, Prod.mk.injEq] at h
      obtain ⟨rest, -, rfl, -⟩ := h
      rwa [List.infix_nil]
  | cons c t ih =>
      have hwhole := eq_of_breakOn? h
      rw [breakOn?] at h
      split at h
      · cases h
        rwa [List.infix_nil]
      · rename_i hdrop
        simp only [Option.map_eq_some_iff, Prod.mk.injEq] at h
        obtain ⟨⟨start, rest⟩, hsplit, rfl, rfl⟩ := h
        rw [List.infix_cons_iff, not_or]
        refine ⟨fun hfront => ?_, ih hsplit⟩
        rw [hwhole] at hdrop
        exact dropStart?_eq_none_iff.mp hdrop (hfront.trans (List.prefix_append _ _))

theorem not_isInfix_of_breakOn?_eq_none {mark t : Text} (h : breakOn? mark t = none) :
    ¬ mark <:+: t := by
  induction t with
  | nil =>
      have hdrop : dropStart? mark [] = none := by simpa [breakOn?] using h
      rw [List.infix_nil]
      exact fun hnil => dropStart?_eq_none_iff.mp hdrop (by rw [hnil])
  | cons c t ih =>
      rw [breakOn?] at h
      split at h
      · cases h
      · rename_i hdrop
        rw [List.infix_cons_iff, not_or]
        exact ⟨dropStart?_eq_none_iff.mp hdrop, ih (Option.map_eq_none_iff.mp h)⟩

theorem Blocks.bodies_eq {t : Text} {bs : List Text} (h : Blocks t bs) : bodies t = bs := by
  induction h with
  | none hopen => exact bodies_of_no_open (breakOn?_eq_none hopen)
  | @unclosed before inside hopen hclose =>
      rw [bodies_of_open (breakOn?_of_unbordered unbordered_open hopen inside),
        breakOn?_eq_none hclose]
  | @block before body after bs hopen hclose _ ih =>
      rw [framed, bodies_of_open (breakOn?_of_unbordered unbordered_open hopen _),
        breakOn?_of_unbordered unbordered_close hclose after, ← ih]

theorem length_framed (before body after : Text) :
    (framed before body after).length = before.length + (body.length + after.length + 5) := by
  have hopen : (Text.ofString "/**").length = 3 := rfl
  have hclose : (Text.ofString "*/").length = 2 := rfl
  unfold framed
  simp only [List.length_append, hopen, hclose]
  omega

/-- Every text is made up of the blocks that are read from it. -/
theorem blocks_bodies (t : Text) : Blocks t (bodies t) := by
  suffices h : ∀ n (t : Text), t.length ≤ n → ∃ bs, Blocks t bs by
    obtain ⟨bs, hbs⟩ := h t.length t (Nat.le_refl _)
    rwa [hbs.bodies_eq]
  intro n
  induction n with
  | zero =>
      intro t ht
      rw [List.length_eq_zero_iff.mp (Nat.le_zero.mp ht)]
      exact ⟨[], .none (by decide)⟩
  | succ n ih =>
      intro t ht
      cases hopen : breakOn? "/**" t with
      | none => exact ⟨[], .none (not_isInfix_of_breakOn?_eq_none hopen)⟩
      | some parts =>
          obtain ⟨before, inside⟩ := parts
          have hbefore := not_isInfix_of_breakOn? unbordered_open.1 hopen
          have hwhole := eq_of_breakOn? hopen
          cases hclose : breakOn? "*/" inside with
          | none =>
              rw [hwhole]
              exact ⟨[], .unclosed hbefore (not_isInfix_of_breakOn?_eq_none hclose)⟩
          | some rest =>
              obtain ⟨body, after⟩ := rest
              have hbody := not_isInfix_of_breakOn? unbordered_close.1 hclose
              have hframed : t = framed before body after := by
                rw [hwhole, eq_of_breakOn? hclose]
                rfl
              rw [hframed, length_framed] at ht
              obtain ⟨bs, hbs⟩ := ih after (by omega)
              rw [hframed]
              exact ⟨body :: bs, .block hbefore hbody hbs⟩

theorem withReturns_framed (before body after : Text) : withReturns (framed before body after) =
    framed (withReturns before) (withReturns body) (withReturns after) := by
  simp only [framed, withReturns_append]
  rfl

theorem Blocks.withReturns {t : Text} {bs : List Text} (h : Blocks t bs) :
    Blocks (withReturns t) (bs.map withReturns) := by
  have hopen : (Text.ofString "/**").IsWord := by decide
  have hclose : (Text.ofString "*/").IsWord := by decide
  induction h with
  | none hnone => exact .none fun h => hnone (isInfix_of_withReturns hopen h)
  | unclosed hbefore hinside =>
      rw [withReturns_append, withReturns_append]
      exact .unclosed (fun h => hbefore (isInfix_of_withReturns hopen h))
        fun h => hinside (isInfix_of_withReturns hclose h)
  | block hbefore hbody _ ih =>
      rw [withReturns_framed]
      exact .block (fun h => hbefore (isInfix_of_withReturns hopen h))
        (fun h => hbody (isInfix_of_withReturns hclose h)) ih

/-- What is opened behind the text is a block: all blocks before it are closed. -/
inductive Opens : Text → Prop
  /-- There is no block before it. -/
  | first {t : Text} : ¬ Text.ofString "/**" <:+: t → Opens t
  /-- There is one more block before it. -/
  | next {before body after : Text} : ¬ Text.ofString "/**" <:+: before →
      ¬ Text.ofString "*/" <:+: body → Opens after → Opens (framed before body after)

theorem framed_framed (before body between inner after : Text) :
    framed (framed before body between) inner after =
      framed before body (framed between inner after) := by
  simp only [framed, List.append_assoc]

/-- The blocks before and after a block do not depend on its body. -/
theorem Opens.exists_bodies {before : Text} (h : Opens before) :
    ∃ earlier, ∀ body after, ¬ Text.ofString "*/" <:+: body →
      bodies (framed before body after) = earlier ++ body :: bodies after := by
  induction h with
  | first hnone =>
      refine ⟨[], fun body after hbody => ?_⟩
      exact (Blocks.block hnone hbody (blocks_bodies after)).bodies_eq
  | @next outside inner between hnone hinner _ ih =>
      obtain ⟨earlier, hearlier⟩ := ih
      refine ⟨inner :: earlier, fun body after hbody => ?_⟩
      rw [framed_framed, List.cons_append, ← hearlier body after hbody]
      exact (Blocks.block hnone hinner (blocks_bodies _)).bodies_eq

/-- The bodies of a text are what stands between marks that open and close a block. -/
theorem mem_bodies_iff {t body : Text} : body ∈ bodies t ↔
    ∃ before after, t = framed before body after ∧ Opens before ∧ ¬ Text.ofString "*/" <:+: body := by
  constructor
  · have hblocks := blocks_bodies t
    generalize bodies t = bs at hblocks
    intro hmem
    induction hblocks with
    | none _ => cases hmem
    | unclosed _ _ => cases hmem
    | @block outside inner later bs hnone hinner _ ih =>
        rcases List.mem_cons.mp hmem with rfl | hmem
        · exact ⟨outside, later, rfl, .first hnone, hinner⟩
        · obtain ⟨before, after, rfl, hopens, hbody⟩ := ih hmem
          exact ⟨_, after, (framed_framed ..).symm, .next hnone hinner hopens, hbody⟩
  · rintro ⟨before, after, rfl, hopens, hbody⟩
    obtain ⟨earlier, hearlier⟩ := hopens.exists_bodies
    rw [hearlier body after hbody]
    simp

/-! ### Changes of the layout -/

/-- The text adds nothing but spaces and tabs. -/
def IsPadding (t : Text) : Prop := ∀ c ∈ t, c = CodePoint.ofChar ' ' ∨ c = CodePoint.ofChar '\t'

instance (t : Text) : Decidable (IsPadding t) := inferInstanceAs (Decidable (∀ c ∈ t, _))

/-- What may stand before the line feed that ends a line. -/
def IsReturn (t : Text) : Prop := t = [] ∨ t = [CodePoint.ofChar '\r']

/-- The line is blank or holds only a gutter. -/
def IsEmptyLine (line : Text) : Prop :=
  CodePoint.ofChar '\n' ∉ line ∧
    (line.IsBlank ∨ ∃ start stop : Text, start.IsBlank ∧ stop.IsBlank ∧
      line = start ++ CodePoint.ofChar '*' :: stop)

/-- A change to the lines of a block that is no change to what it says. -/
inductive Relined : List Text → List Text → Prop
  /-- Spaces and tabs are added at the start and at the end of a line. -/
  | pad {before after : List Text} {line ret start stop : Text} : IsReturn ret → IsPadding start →
      IsPadding stop → Relined (before ++ (line ++ ret) :: after)
        (before ++ (start ++ (line ++ (stop ++ ret))) :: after)
  /-- A gutter is written before the content of a line that has none and is not the first. -/
  | gutter {before after : List Text} {indent content : Text} : before ≠ [] → indent.IsBlank →
      ¬ HasGutter content → Relined (before ++ (indent ++ content) :: after)
        (before ++ (indent ++ (Text.ofString "* " ++ content)) :: after)
  /-- An empty line is inserted behind a line. -/
  | insert {before after : List Text} {line ret empty : Text} : IsReturn ret → IsEmptyLine empty →
      Relined (before ++ line :: after) (before ++ (line ++ ret) :: empty :: after)

/-- A change to a text that is no change to what its comments say. -/
inductive Relayout : Text → Text → Prop
  /-- Every line feed gets a carriage return before it. -/
  | breaks (t : Text) : Relayout t (withReturns t)
  /-- The lines of a block are laid out anew. -/
  | lines {before body after : Text} {lines : List Text} : Opens before →
      ¬ Text.ofString "*/" <:+: body → Relined (splitOn (CodePoint.ofChar '\n') body) lines →
      Relayout (framed before body after) (framed before (join "\n" lines) after)

theorem IsPadding.isBlank {t : Text} (h : IsPadding t) : t.IsBlank := by
  intro c hc
  rcases h c hc with rfl | rfl
  · decide
  · decide

theorem IsReturn.isBlank {t : Text} (h : IsReturn t) : t.IsBlank := by
  rcases h with rfl | rfl
  · decide
  · decide

theorem contents_append {before : List Text} (h : before ≠ []) (after : List Text) :
    contents (before ++ after) =
      contents before ++ after.map fun line => trim (dropGutter line) := by
  obtain ⟨first, rest, rfl⟩ := List.exists_cons_of_ne_nil h
  rw [List.cons_append, contents, contents, List.map_append, List.cons_append]

/-- A gutter says nothing. -/
theorem trim_dropGutter_star {start rest : Text} (h : start.IsBlank)
    (hrest : rest.head? ≠ some (CodePoint.ofChar '/')) :
    trim (dropGutter (start ++ CodePoint.ofChar '*' :: rest)) = trim rest := by
  rw [trim_dropGutter_blank_append h]
  exact trim_dropGutter_of_star (List.dropWhile_cons_of_neg (by decide)) hrest

theorem IsEmptyLine.trim_dropGutter {line : Text} (h : IsEmptyLine line) :
    trim (dropGutter line) = [] := by
  rcases h.2 with hblank | ⟨start, stop, hstart, hstop, rfl⟩
  · have := trim_dropGutter_blank_append hblank []
    rwa [List.append_nil] at this
  · rw [trim_dropGutter_star hstart, trim_of_isBlank hstop]
    intro hslash
    exact absurd (hstop _ (List.mem_of_mem_head? hslash)) (by decide)

theorem continuation_insert_nil (before after : List Text) :
    continuation (before ++ [] :: after) = continuation (before ++ after) := by
  induction before with
  | nil => rfl
  | cons line before ih => rw [List.cons_append, List.cons_append, continuation, continuation, ih]

theorem tagsOf_insert_nil (before after : List Text) :
    tagsOf (before ++ [] :: after) = tagsOf (before ++ after) := by
  induction before with
  | nil => rfl
  | cons line before ih =>
      rw [List.cons_append, List.cons_append, tagsOf, tagsOf, ih, continuation_insert_nil]

/-- Empty lines count for nothing. -/
theorem ofLines_insert_nil (before after : List Text) :
    ofLines (before ++ [] :: after) = ofLines (before ++ after) := by
  rw [ofLines, ofLines, continuation_insert_nil, tagsOf_insert_nil]

theorem contents_replace {before after : List Text} {line line' : Text} (h : trim line = trim line') :
    contents (before ++ line :: after) = contents (before ++ line' :: after) := by
  have hsame : ∀ lines : List Text, List.Forall₂ (fun l l' => trim l = trim l') lines lines :=
    fun lines => List.forall₂_same.mpr fun _ _ => rfl
  exact contents_congr (List.rel_append (hsame before) (.cons h (hsame after)))

/-- Laying out the lines anew does not change what they say. -/
theorem Relined.ofLines_contents {lines lines' : List Text} (h : Relined lines lines') :
    ofLines (contents lines') = ofLines (contents lines) := by
  cases h with
  | @pad before after line ret start stop hret hstart hstop =>
      have htrim : trim (start ++ (line ++ (stop ++ ret))) = trim (line ++ ret) := by
        rw [trim_blank_append hstart.isBlank, ← List.append_assoc, trim_append_blank hret.isBlank,
          trim_append_blank hstop.isBlank, trim_append_blank hret.isBlank]
      rw [contents_replace htrim]
  | @gutter before after indent content hbefore hindent hnone =>
      have hbare : trim (dropGutter (indent ++ content)) = trim content := by
        rw [trim_dropGutter_blank_append hindent, dropGutter_of_not_hasGutter hnone]
      have hwritten : trim (dropGutter (indent ++ (Text.ofString "* " ++ content))) =
          trim content := by
        have hspace : (CodePoint.ofChar ' ' :: content).head? ≠ some (CodePoint.ofChar '/') := by
          rw [List.head?_cons]
          decide
        have hstar := trim_dropGutter_star hindent hspace
        rwa [trim_cons_blank isBlank_space] at hstar
      rw [contents_append hbefore, contents_append hbefore, List.map_cons, List.map_cons, hwritten,
        hbare]
  | @insert before after line ret empty hret hempty =>
      have hline : trim (line ++ ret) = trim line := trim_append_blank hret.isBlank line
      have hne : before ++ [line] ≠ [] := by simp
      rw [contents_replace hline, List.append_cons before line, List.append_cons before line after,
        contents_append hne, contents_append hne, List.map_cons, hempty.trim_dropGutter,
        ofLines_insert_nil]

/-! ### Changed blocks -/

theorem isInfix_join_of_mem {mark sep line : Text} {lines : List Text} (hline : line ∈ lines)
    (h : mark <:+: line) : mark <:+: join sep lines := by
  induction lines with
  | nil => cases hline
  | cons first rest ih =>
      by_cases hlast : rest = []
      · rw [hlast, List.mem_singleton] at hline
        rw [hlast, ← hline]
        exact h
      · rw [join_cons _ _ hlast, List.append_assoc]
        rcases List.mem_cons.mp hline with rfl | hline
        · exact h.trans (List.prefix_append _ _).isInfix
        · exact (ih hline).trans ((List.suffix_append _ _).trans (List.suffix_append _ _)).isInfix

/-- Characters that are not in the mark make no mark where they are put. -/
theorem isInfix_of_inserted {mark s : Text} (hs : ∀ c ∈ s, c ∉ mark) {before after : Text}
    (h : mark <:+: before ++ (s ++ after)) : mark <:+: before ++ after := by
  induction s generalizing before with
  | nil => exact h
  | cons c s ih =>
      obtain ⟨hc, hs⟩ := List.forall_mem_cons.mp hs
      rw [List.cons_append, isInfix_append_cons hc] at h
      rcases h with h | h
      · exact h.trans (List.prefix_append _ _).isInfix
      · have hafter : mark <:+: [] ++ (s ++ after) := h
        exact (ih hs hafter).trans (List.suffix_append _ _).isInfix

theorem not_mem_closeMark {c : CodePoint} (h : c.isBlank = true) : c ∉ Text.ofString "*/" := by
  intro hmem
  have hword : (Text.ofString "*/").IsWord := by decide
  rw [hword.2 c hmem] at h
  cases h

theorem not_closeMark_of_slash_not_mem {t : Text} (h : CodePoint.ofChar '/' ∉ t) :
    ¬ Text.ofString "*/" <:+: t := fun hhold => h (hhold.subset (by decide))

/-- What a line of a block can be: it holds no line feed and does not close the block. -/
def IsBodyLine (line : Text) : Prop :=
  CodePoint.ofChar '\n' ∉ line ∧ ¬ Text.ofString "*/" <:+: line

instance (line : Text) : Decidable (IsBodyLine line) := inferInstanceAs (Decidable (_ ∧ _))

theorem isBodyLine_of_mem {lines : List Text} {line : Text}
    (h : ¬ Text.ofString "*/" <:+: join "\n" lines) (hfeed : ∀ l ∈ lines, CodePoint.ofChar '\n' ∉ l)
    (hline : line ∈ lines) : IsBodyLine line :=
  ⟨hfeed line hline, fun hmark => h (isInfix_join_of_mem hline hmark)⟩

/-- A line stays a line when blanks are put into it. -/
theorem IsBodyLine.insert_blank {before s after : Text} (h : IsBodyLine (before ++ after))
    (hs : s.IsBlank) (hfeed : CodePoint.ofChar '\n' ∉ s) : IsBodyLine (before ++ (s ++ after)) := by
  obtain ⟨hline, hmark⟩ := h
  rw [List.mem_append, not_or] at hline
  refine ⟨by simp [hline, hfeed], fun hhold => hmark ?_⟩
  exact isInfix_of_inserted (fun c hc => not_mem_closeMark (hs c hc)) hhold

theorem IsPadding.feed_not_mem {t : Text} (h : IsPadding t) : CodePoint.ofChar '\n' ∉ t := by
  intro hmem
  exact absurd (h _ hmem) (by decide)

theorem IsReturn.feed_not_mem {t : Text} (h : IsReturn t) : CodePoint.ofChar '\n' ∉ t := by
  rcases h with rfl | rfl
  · decide
  · decide

theorem IsEmptyLine.isBodyLine {line : Text} (h : IsEmptyLine line) : IsBodyLine line := by
  refine ⟨h.1, not_closeMark_of_slash_not_mem ?_⟩
  have hslash : ∀ {t : Text}, t.IsBlank → CodePoint.ofChar '/' ∉ t := by
    intro t ht hmem
    exact absurd (ht _ hmem) (by decide)
  rcases h.2 with hblank | ⟨start, stop, hstart, hstop, rfl⟩
  · exact hslash hblank
  · rw [List.mem_append, List.mem_cons, not_or, not_or]
    exact ⟨hslash hstart, by decide, hslash hstop⟩

theorem IsBodyLine.write_gutter {indent content : Text} (h : IsBodyLine (indent ++ content))
    (hindent : indent.IsBlank) : IsBodyLine (indent ++ (Text.ofString "* " ++ content)) := by
  obtain ⟨hline, hmark⟩ := h
  rw [List.mem_append, not_or] at hline
  have hstar : indent ++ (Text.ofString "* " ++ content) =
      (indent ++ Text.ofString "*") ++ CodePoint.ofChar ' ' :: content := by
    rw [List.append_assoc]
    rfl
  have hslash : CodePoint.ofChar '/' ∉ indent ++ Text.ofString "*" := by
    rw [List.mem_append, not_or]
    exact ⟨fun hmem => absurd (hindent _ hmem) (by decide), by decide⟩
  constructor
  · rw [List.mem_append, List.mem_append, not_or, not_or]
    exact ⟨hline.1, by decide, hline.2⟩
  · rw [hstar, isInfix_append_cons (not_mem_closeMark isBlank_space), not_or]
    exact ⟨not_closeMark_of_slash_not_mem hslash,
      fun hhold => hmark (hhold.trans (List.suffix_append _ _).isInfix)⟩

/-- Lines that are laid out anew can stand in a block again. -/
theorem Relined.isBodyLine {lines lines' : List Text} (h : Relined lines lines')
    (hlines : ∀ line ∈ lines, IsBodyLine line) : ∀ line ∈ lines', IsBodyLine line := by
  cases h with
  | @pad before after line ret start stop hret hstart hstop =>
      rw [List.forall_mem_append, List.forall_mem_cons] at hlines ⊢
      obtain ⟨hbefore, hline, hafter⟩ := hlines
      have hstopped : IsBodyLine ([] ++ (line ++ (stop ++ ret))) :=
        hline.insert_blank hstop.isBlank hstop.feed_not_mem
      exact ⟨hbefore, hstopped.insert_blank hstart.isBlank hstart.feed_not_mem, hafter⟩
  | @gutter before after indent content hbefore hindent hnone =>
      rw [List.forall_mem_append, List.forall_mem_cons] at hlines ⊢
      obtain ⟨hbefore, hline, hafter⟩ := hlines
      exact ⟨hbefore, hline.write_gutter hindent, hafter⟩
  | @insert before after line ret empty hret hempty =>
      rw [List.forall_mem_append, List.forall_mem_cons] at hlines ⊢
      rw [List.forall_mem_cons]
      obtain ⟨hbefore, hline, hafter⟩ := hlines
      rw [← List.append_nil line] at hline
      have hreturned := hline.insert_blank hret.isBlank hret.feed_not_mem
      rw [List.append_nil] at hreturned
      exact ⟨hbefore, hreturned, hempty.isBodyLine, hafter⟩

theorem Relined.ne_nil {lines lines' : List Text} (h : Relined lines lines') : lines' ≠ [] := by
  cases h with
  | pad _ _ _ => simp
  | gutter _ _ _ => simp
  | insert _ _ => simp

theorem join_splitOn_feed (body : Text) :
    join "\n" (splitOn (CodePoint.ofChar '\n') body) = body := by
  rw [splitOn_eq, join_eq, lineFeed_eq, List.intercalate_splitOn]

/-- The lines of a block that is made up of lines. -/
theorem parseBody_join {lines : List Text} (hne : lines ≠ [])
    (h : ∀ line ∈ lines, CodePoint.ofChar '\n' ∉ line) :
    parseBody (join "\n" lines) = ofLines (contents lines) := by
  rw [parseBody, contentLines_eq, lineFeed_eq, splitOn_join h hne]

/-- A block that is laid out anew is still one block, and says the same. -/
theorem Relined.parseBody_join {body : Text} {lines : List Text}
    (hbody : ¬ Text.ofString "*/" <:+: body)
    (h : Relined (splitOn (CodePoint.ofChar '\n') body) lines) :
    ¬ Text.ofString "*/" <:+: join "\n" lines ∧ parseBody (join "\n" lines) = parseBody body := by
  have hold : ∀ line ∈ splitOn (CodePoint.ofChar '\n') body, IsBodyLine line := by
    intro line hline
    refine isBodyLine_of_mem ?_ (fun l hl => not_mem_of_mem_splitOn hl) hline
    rwa [join_splitOn_feed]
  have hnew := h.isBodyLine hold
  constructor
  · rw [lineFeed_eq]
    exact not_isInfix_join (by decide) (by decide) fun line hline => (hnew line hline).2
  · rw [Doc.parseBody_join h.ne_nil fun line hline => (hnew line hline).1, h.ofLines_contents,
      parseBody, contentLines_eq]

/-- One change of the layout is no change to what is read. -/
theorem Relayout.parse_eq {t u : Text} (h : Relayout t u) : parse u = parse t := by
  cases h with
  | breaks =>
      rw [parse, parse, (blocks_bodies t).withReturns.bodies_eq, List.map_map]
      exact List.map_congr_left fun body _ => parseBody_withReturns body
  | @lines before body after lines hopens hbody hlines =>
      obtain ⟨hmark, hsame⟩ := hlines.parseBody_join hbody
      obtain ⟨earlier, hearlier⟩ := hopens.exists_bodies
      rw [parse, parse, hearlier _ _ hmark, hearlier _ _ hbody, List.map_append, List.map_append,
        List.map_cons, List.map_cons, hsame]

/-- One text is the other laid out anew, by any number of changes made or taken back. -/
def Relaid : Text → Text → Prop := Relation.EqvGen Relayout

theorem Relaid.parse_eq {t u : Text} (h : Relaid t u) : parse u = parse t := by
  induction h with
  | rel _ _ hstep => exact hstep.parse_eq
  | refl _ => rfl
  | symm _ _ _ ih => exact ih.symm
  | trans _ _ _ _ _ ih ih' => exact ih'.trans ih

/-- **Comments that differ only in their layout are read alike.**  The bodies whose lines may be laid
out anew are exactly those of the blocks that are read. -/
theorem parse_of_relaid {t u : Text} (h : Relaid t u) :
    (∀ body, body ∈ bodies t ↔ ∃ before after, t = framed before body after ∧ Opens before ∧
      ¬ Text.ofString "*/" <:+: body) ∧ parse u = parse t :=
  ⟨fun _ => mem_bodies_iff, h.parse_eq⟩

/-- Two comments, the second on lines without gutters. -/
def bare : Text := Text.ofString "/** one */ /**lead\n@name a b\nmore\n*/"

/-- The same comments with returns, a gutter, blanks at the ends of a line and an empty line. -/
def adorned : Text :=
  Text.ofString "/** one */ /** lead\t\r\n@name a b\r\n* more\r\n *\r\n*/"

theorem parse_of_relaid_adorned :
    Relaid bare adorned ∧ parse adorned = parse bare ∧
    parse bare = [⟨"one", []⟩, ⟨"lead", [⟨"name", [], "a", "b more"⟩]⟩] := by
  let first : Text := Text.ofString "/** one */ "
  have hopens : Opens first := by
    have hsplit : first = framed [] (Text.ofString " one ") (Text.ofString " ") := by decide
    rw [hsplit]
    exact .next (by decide) (by decide) (.first (by decide))
  have hstep : ∀ (body : Text) {lines lines' : List Text}, ¬ Text.ofString "*/" <:+: body →
      splitOn (CodePoint.ofChar '\n') body = lines → Relined lines lines' →
      Relaid (framed first body []) (framed first (join "\n" lines') []) := by
    intro body lines lines' hbody hlines h
    rw [← hlines] at h
    exact .rel _ _ (.lines hopens hbody h)
  have hplain : ¬ HasGutter (Text.ofString "more\r") := by
    rintro ⟨rest, hrest, -⟩
    have hhead : (trimStart (Text.ofString "more\r")).head? = some (CodePoint.ofChar '*') := by
      rw [hrest]
      rfl
    exact absurd hhead (by decide)
  have hempty : IsEmptyLine (Text.ofString " *\r") :=
    ⟨by decide, .inr ⟨" ", "\r", by decide, by decide, by decide⟩⟩
  have hbreaks := Relation.EqvGen.rel _ _ (Relayout.breaks bare)
  have hpad := hstep "lead\r\n@name a b\r\nmore\r\n" (by decide) (by decide)
    (@Relined.pad [] ["@name a b\r", "more\r", []] "lead" "\r" " " "\t" (.inr rfl) (by decide)
      (by decide))
  have hgutter := hstep " lead\t\r\n@name a b\r\nmore\r\n" (by decide) (by decide)
    (@Relined.gutter [" lead\t\r", "@name a b\r"] [[]] [] "more\r" (by simp) (by decide) hplain)
  have hinsert := hstep " lead\t\r\n@name a b\r\n* more\r\n" (by decide) (by decide)
    (@Relined.insert [" lead\t\r", "@name a b\r"] [[]] "* more\r" [] " *\r" (.inl rfl) hempty)
  have hrelaid : Relaid bare adorned :=
    hbreaks.trans _ _ _ (hpad.trans _ _ _ (hgutter.trans _ _ _ hinsert))
  exact ⟨hrelaid, (parse_of_relaid hrelaid).2, by decide +kernel⟩

end Doc

end PluginManifest
