import PluginManifest.Proofs.Trivia
import PluginManifest.Source.Index
import Mathlib.Data.List.Forall2
import Mathlib.Data.List.Nodup

/-! # Which comments are attached twice

The outline of a file lists one entry for each comment of each declaration.  `File.collected` are
the ranges of these comments (`forall₂_collected`).  A comment can be collected more than once in
exactly three ways, and `collected_nodup_iff` says so for every file, whatever its tree:

* a declaration that takes trailing comments stands at the start of the file, where the trailing
  comments are leading ones too;
* two declarations follow the same token, so that their comments are sought in the same gap;
* the comments of a declaration are sought beyond a token, in the gap of another declaration.

The third way is closed where every comment stands before its declaration
(`onceAcrossGaps_of_precede`). -/

namespace PluginManifest.Source

open SyntaxTree Trivia

namespace File

variable (file : File)

/-- The content of the comment at a range, unless it is not closed. -/
def commentAt? (r : CommentRange) : Option Doc.Comment :=
  (Doc.parse (Utf8.decodeLossy (slice file.text r.pos r.stop))).head?

/-- The ranges of the comments that the outline collects from a declaration. -/
def collectedOn (d : Focus × Kind) : List CommentRange :=
  (file.docRanges d.1 d.2).filter fun r => (file.commentAt? r).isSome

/-- The ranges of the comments that the outline collects, in its order. -/
def collected : List CommentRange := file.declarations.flatMap file.collectedOn

/-- Where the gap before a declaration starts: at the end of the token before it. -/
def gapStart (d : Focus × Kind) : Nat := file.fullStart d.1.declaration.node.start

/-- The documentation in a gap, either its trailing or its leading comments. -/
def docsIn (start : Nat) (trailing : Bool) : List CommentRange :=
  (comments file.text start trailing).filter fun r =>
    r.isDoc file.text && (file.commentAt? r).isSome

/-! ### When a comment is collected once -/

/-- No declaration at the start of the file takes a trailing comment. -/
def OnceAtStart : Prop :=
  ∀ d ∈ file.declarations, d.2.takesTrailingComments = true → file.gapStart d = 0 →
    file.docsIn 0 true = []

/-- Two declarations behind one token have no comment: neither a leading one nor, when both take
them, a trailing one. -/
def OnceInGap : Prop :=
  file.declarations.Pairwise fun d e => file.gapStart d = file.gapStart e →
    file.docsIn (file.gapStart d) false = [] ∧
      (d.2.takesTrailingComments = true → e.2.takesTrailingComments = true →
        file.docsIn (file.gapStart d) true = [])

/-- Two declarations behind different tokens have no comment in common. -/
def OnceAcrossGaps : Prop :=
  file.declarations.Pairwise fun d e => file.gapStart d ≠ file.gapStart e →
    List.Disjoint (file.collectedOn d) (file.collectedOn e)

/-- Every comment starts before the declaration, or the wrapper of the declaration, that it is
collected for. -/
def CommentsPrecede : Prop :=
  ∀ d ∈ file.declarations, ∀ r ∈ file.collectedOn d, r.pos < d.1.declaration.node.start

/-! ### Comments of one declaration -/

theorem collectedOn_eq (d : Focus × Kind) :
    file.collectedOn d =
      (if d.2.takesTrailingComments then file.docsIn (file.gapStart d) true else []) ++
        file.docsIn (file.gapStart d) false := by
  unfold collectedOn docRanges docsIn gapStart
  simp only [List.filter_append, List.filter_filter, Bool.and_comm]
  split_ifs
  · rfl
  · rfl

theorem docsIn_nodup (start : Nat) (trailing : Bool) : (file.docsIn start trailing).Nodup :=
  (comments_nodup _ _ _).filter _

theorem docsIn_disjoint {start : Nat} (h : start ≠ 0) :
    List.Disjoint (file.docsIn start true) (file.docsIn start false) := by
  intro r ht hl
  exact comments_disjoint file.text h (List.mem_of_mem_filter ht) (List.mem_of_mem_filter hl)

theorem docsIn_zero_subset : file.docsIn 0 true ⊆ file.docsIn 0 false := by
  intro r hr
  obtain ⟨hm, hp⟩ := List.mem_filter.mp hr
  exact List.mem_filter.mpr ⟨(comments_zero_isPrefix file.text).subset hm, hp⟩

/-- A declaration collects a comment twice only at the start of the file. -/
theorem collectedOn_nodup_iff (d : Focus × Kind) :
    (file.collectedOn d).Nodup ↔
      (d.2.takesTrailingComments = true → file.gapStart d = 0 → file.docsIn 0 true = []) := by
  rw [collectedOn_eq]
  by_cases ht : d.2.takesTrailingComments = true
  · rw [if_pos ht, List.nodup_append']
    constructor
    · rintro ⟨-, -, hd⟩ - h0
      rw [h0] at hd
      rw [List.eq_nil_iff_forall_not_mem]
      intro r hr
      exact hd hr (file.docsIn_zero_subset hr)
    · intro h
      refine ⟨file.docsIn_nodup _ _, file.docsIn_nodup _ _, ?_⟩
      by_cases h0 : file.gapStart d = 0
      · rw [h0, h ht h0]
        exact List.disjoint_nil_left _
      · exact file.docsIn_disjoint h0
  · rw [if_neg ht, List.nil_append]
    exact ⟨fun _ h => absurd h ht, fun _ => file.docsIn_nodup _ _⟩

/-! ### Comments of two declarations -/

/-- Two declarations behind one token have exactly the comments of their gap in common. -/
theorem collectedOn_disjoint_iff {d e : Focus × Kind} (h : file.gapStart d = file.gapStart e) :
    List.Disjoint (file.collectedOn d) (file.collectedOn e) ↔
      file.docsIn (file.gapStart d) false = [] ∧
        (d.2.takesTrailingComments = true → e.2.takesTrailingComments = true →
          file.docsIn (file.gapStart d) true = []) := by
  rw [collectedOn_eq, collectedOn_eq, ← h]
  constructor
  · intro hd
    refine ⟨?_, ?_⟩
    · rw [List.eq_nil_iff_forall_not_mem]
      intro r hr
      exact hd (List.mem_append_right _ hr) (List.mem_append_right _ hr)
    · intro ht ht'
      rw [if_pos ht, if_pos ht'] at hd
      rw [List.eq_nil_iff_forall_not_mem]
      intro r hr
      exact hd (List.mem_append_left _ hr) (List.mem_append_left _ hr)
  · rintro ⟨hl, ht⟩
    rw [hl, List.append_nil, List.append_nil]
    split_ifs with h1 h2
    · rw [ht h1 h2]
      exact List.disjoint_nil_left _
    · exact List.disjoint_nil_right _
    · exact List.disjoint_nil_left _
    · exact List.disjoint_nil_left _

theorem gapStart_le_of_mem {d : Focus × Kind} {r : CommentRange} (h : r ∈ file.collectedOn d) :
    file.gapStart d ≤ r.pos := by
  rw [collectedOn_eq, List.mem_append] at h
  rcases h with h | h
  · split_ifs at h
    · exact (comments_bounds _ _ _ r (List.mem_of_mem_filter h)).1
    · cases h
  · exact (comments_bounds _ _ _ r (List.mem_of_mem_filter h)).1

/-! ### The token before a declaration -/

theorem foldl_max_spec (ends : List Nat) (start : Nat) :
    (ends.foldl max start = start ∨ ends.foldl max start ∈ ends) ∧ start ≤ ends.foldl max start ∧
      ∀ e ∈ ends, e ≤ ends.foldl max start := by
  induction ends generalizing start with
  | nil => simp
  | cons a ends ih =>
      obtain ⟨h1, h2, h3⟩ := ih (max start a)
      rw [List.foldl_cons]
      refine ⟨?_, by omega, ?_⟩
      · rcases h1 with h | h
        · rw [h]
          rcases Nat.le_total start a with hle | hle
          · right; rw [Nat.max_eq_right hle]; exact List.mem_cons_self
          · left; exact Nat.max_eq_left hle
        · right; exact List.mem_cons_of_mem _ h
      · intro e he
        rcases List.mem_cons.mp he with rfl | he
        · omega
        · exact h3 e he

/-- A gap starts at the start of the file or at the end of a token. -/
theorem fullStart_mem (offset : Nat) (h : file.fullStart offset ≠ 0) :
    file.fullStart offset ∈ file.tokenEnds := by
  rcases (foldl_max_spec (file.tokenEnds.filter (· ≤ offset)) 0).1 with h0 | hm
  · exact absurd h0 h
  · exact List.mem_of_mem_filter hm

/-- No token ends between the start of a gap and its offset. -/
theorem le_fullStart {offset e : Nat} (he : e ∈ file.tokenEnds) (hle : e ≤ offset) :
    e ≤ file.fullStart offset :=
  (foldl_max_spec (file.tokenEnds.filter (· ≤ offset)) 0).2.2 e
    (List.mem_filter.mpr ⟨he, by simpa using hle⟩)

/-- A comment before a declaration does not stand in a gap that starts later. -/
theorem gapStart_le_of_precedes {d e : Focus × Kind} {r : CommentRange}
    (hd : r.pos < d.1.declaration.node.start) (he : r ∈ file.collectedOn e) :
    file.gapStart e ≤ file.gapStart d := by
  have hle := file.gapStart_le_of_mem he
  by_cases h0 : file.gapStart e = 0
  · omega
  · exact file.le_fullStart (file.fullStart_mem _ h0) (by omega)

/-- Comments that stand before their declarations are not found beyond a token. -/
theorem onceAcrossGaps_of_precede (h : file.CommentsPrecede) : file.OnceAcrossGaps := by
  apply List.pairwise_of_forall_mem_list
  intro d hd e he hne r hrd hre
  have h1 := file.gapStart_le_of_precedes (h d hd r hrd) hre
  have h2 := file.gapStart_le_of_precedes (h e he r hre) hrd
  exact hne (Nat.le_antisymm h2 h1)

/-! ### The outline -/

theorem forall₂_filter_filterMap {α β : Type} (f : α → Option β) (items : List α) :
    List.Forall₂ (fun a b => a ∈ items ∧ f a = some b) (items.filter fun a => (f a).isSome)
      (items.filterMap f) := by
  induction items with
  | nil => exact .nil
  | cons a rest ih =>
      have hrest := ih.imp fun b c h => And.intro (List.mem_cons_of_mem a h.1) h.2
      cases ha : f a with
      | none =>
          rw [List.filter_cons_of_neg (by simp [ha]), List.filterMap_cons_none ha]
          exact hrest
      | some b =>
          rw [List.filter_cons_of_pos (by simp [ha]), List.filterMap_cons_some ha]
          exact .cons ⟨List.mem_cons_self, ha⟩ hrest

theorem commentsOn_eq (d : Focus × Kind) :
    Outline.commentsOn file d.1 d.2 = (file.docRanges d.1 d.2).filterMap fun r =>
      (file.commentAt? r).map fun comment => ⟨d.1, d.2, comment⟩ := by
  refine List.filterMap_congr ?_
  intro r _
  unfold commentAt?
  cases Doc.parse (Utf8.decodeLossy (slice file.text r.pos r.stop)) with
  | nil => rfl
  | cons comment more => rfl

theorem forall₂_commentsOn (d : Focus × Kind) :
    List.Forall₂ (fun r (doc : Documented) => file.commentAt? r = some doc.comment ∧
      r ∈ file.collectedOn (doc.focus, doc.kind))
      (file.collectedOn d) (Outline.commentsOn file d.1 d.2) := by
  rw [commentsOn_eq]
  have hall := forall₂_filter_filterMap
    (fun r => (file.commentAt? r).map fun comment => (⟨d.1, d.2, comment⟩ : Documented))
    (file.docRanges d.1 d.2)
  simp only [Option.isSome_map] at hall
  refine hall.imp ?_
  rintro r doc ⟨hr, hdoc⟩
  obtain ⟨comment, hc, rfl⟩ := Option.map_eq_some_iff.mp hdoc
  exact ⟨hc, List.mem_filter.mpr ⟨hr, by simp [hc]⟩⟩

/-- The collected ranges are those of the comments in the outline, one for each entry. -/
theorem forall₂_collected :
    List.Forall₂ (fun r (doc : Documented) => file.commentAt? r = some doc.comment ∧
      r ∈ file.collectedOn (doc.focus, doc.kind))
      file.collected (Outline.ofFile file).documented := by
  show List.Forall₂ _ (file.declarations.flatMap file.collectedOn)
    (file.declarations.flatMap fun d => Outline.commentsOn file d.1 d.2)
  induction file.declarations with
  | nil => exact .nil
  | cons d rest ih =>
      rw [List.flatMap_cons, List.flatMap_cons]
      exact List.rel_append (file.forall₂_commentsOn d) ih

/-- **When no comment is collected twice.**  The ranges of the comments in an outline are pairwise
distinct exactly when no declaration at the start of the file takes a trailing comment, no two
declarations share a gap with a comment for both, and no two declarations share a comment across
gaps; the last cannot fail where comments precede their declarations. -/
theorem collected_nodup_iff :
    List.Forall₂ (fun r (doc : Documented) => file.commentAt? r = some doc.comment ∧
      r ∈ file.collectedOn (doc.focus, doc.kind))
      file.collected (Outline.ofFile file).documented ∧
    (file.collected.Nodup ↔ file.OnceAtStart ∧ file.OnceInGap ∧ file.OnceAcrossGaps) ∧
    (file.CommentsPrecede → (file.collected.Nodup ↔ file.OnceAtStart ∧ file.OnceInGap)) := by
  have hiff : file.collected.Nodup ↔ file.OnceAtStart ∧ file.OnceInGap ∧ file.OnceAcrossGaps := by
    unfold collected OnceAtStart OnceInGap OnceAcrossGaps
    rw [List.nodup_flatMap, ← List.pairwise_and_iff]
    refine and_congr ?_ ?_
    · exact forall₂_congr fun d _ => file.collectedOn_nodup_iff d
    · refine List.Pairwise.iff ?_
      intro d e
      by_cases h : file.gapStart d = file.gapStart e
      · simp only [Function.onFun, file.collectedOn_disjoint_iff h, h, ne_eq, not_true_eq_false,
          false_implies, true_implies, and_true]
      · simp only [Function.onFun, h, ne_eq, not_false_eq_true, false_implies, true_implies,
          true_and]
  refine ⟨file.forall₂_collected, hiff, ?_⟩
  intro h
  rw [hiff]
  have hacross := file.onceAcrossGaps_of_precede h
  exact ⟨fun ⟨h1, h2, _⟩ => ⟨h1, h2⟩, fun ⟨h1, h2⟩ => ⟨h1, h2, hacross⟩⟩

end File

/-- A comment before an arrow function at the start of a file is collected twice, and so is one
that both an import clause and its only part start behind. -/
theorem collected_twice :
    ¬ (Index.read TypeScript.parse "a.ts"
        (TypeScript.bytesOf "/** doc */ () => 1;")).collected.Nodup ∧
      ¬ (Index.read TypeScript.parse "a.ts"
        (TypeScript.bytesOf "import\n/** doc */ * as n from 'x';")).collected.Nodup := by
  decide +kernel

end PluginManifest.Source
