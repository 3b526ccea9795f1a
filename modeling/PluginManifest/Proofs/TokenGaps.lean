import PluginManifest.Proofs.Attachment
import PluginManifest.Proofs.Faults
import Mathlib.Order.Bounds.Basic

/-! # The gap before a declaration

The comments of a declaration are sought behind the last token before it.  The tokens of a tree are
its leaves, named or not, other than comments and empty ones (`mem_tokenEnds_iff`).  `fullStart` is the
end of the last of them that ends at or before an offset (`isGreatest_fullStart`), and the scan for
comments only moves forward from there; so no token ends between a comment and the declaration that it
documents (`comments_behind_last_token`). -/

namespace PluginManifest

open SyntaxTree Trivia

namespace SyntaxTree

variable {root : Node}

/-! ### Leaves -/

mutual

/-- The leaves below a node of the tree are nodes of the tree without children. -/
theorem Focus.In.of_mem_leaves : ∀ (node : Node) {ancestors : List Node},
    Focus.In root ⟨node, ancestors⟩ →
      ∀ n ∈ node.leaves, n.children = [] ∧ ∃ above, Focus.In root ⟨n, above⟩
  | ⟨type, named, start, stop, field, []⟩, ancestors, h => by
      intro n hn
      rw [Node.leaves, List.mem_singleton] at hn
      subst hn
      exact ⟨rfl, ancestors, h⟩
  | ⟨type, named, start, stop, field, child :: rest⟩, ancestors, h => by
      intro n hn
      rw [Node.leaves, List.mem_append] at hn
      rcases hn with hn | hn
      · exact Focus.In.of_mem_leaves child (h.down List.mem_cons_self) n hn
      · exact Focus.In.of_mem_leavesOf rest h (List.subset_cons_self child rest) n hn

theorem Focus.In.of_mem_leavesOf : ∀ (children : List Node) {parent : Node} {ancestors : List Node},
    Focus.In root ⟨parent, ancestors⟩ → children ⊆ parent.children →
      ∀ n ∈ Node.leavesOf children, n.children = [] ∧ ∃ above, Focus.In root ⟨n, above⟩
  | [], _, _, _, _ => fun n hn => absurd hn List.not_mem_nil
  | child :: rest, parent, ancestors, h, hsub => by
      obtain ⟨hchild, hrest⟩ := List.cons_subset.mp hsub
      intro n hn
      rw [Node.leavesOf, List.mem_append] at hn
      rcases hn with hn | hn
      · exact Focus.In.of_mem_leaves child (h.down hchild) n hn
      · exact Focus.In.of_mem_leavesOf rest h hrest n hn

end

theorem Node.leaves_of_children_nil {n : Node} (h : n.children = []) : n.leaves = [n] := by
  obtain ⟨type, named, start, stop, field, children⟩ := n
  dsimp only at h
  subst h
  rfl

theorem Node.leaves_subset_leavesOf {child : Node} {children : List Node} (h : child ∈ children) :
    child.leaves ⊆ Node.leavesOf children := by
  induction children with
  | nil => cases h
  | cons first rest ih =>
      intro n hn
      rw [Node.leavesOf, List.mem_append]
      rcases List.mem_cons.mp h with rfl | h
      · exact .inl hn
      · exact .inr (ih h hn)

/-- The leaves of a child are leaves of its parent. -/
theorem Node.leaves_subset {n child : Node} (h : child ∈ n.children) : child.leaves ⊆ n.leaves := by
  obtain ⟨type, named, start, stop, field, children⟩ := n
  cases children with
  | nil => cases h
  | cons first rest => exact Node.leaves_subset_leavesOf h

theorem Focus.In.leaves_subset {f : Focus} (h : f.In root) : f.node.leaves ⊆ root.leaves := by
  induction h with
  | root => exact List.Subset.refl _
  | down _ hchild ih => exact List.Subset.trans (Node.leaves_subset hchild) ih

theorem mem_leaves_iff {n : Node} :
    n ∈ root.leaves ↔ n.children = [] ∧ ∃ above, Focus.In root ⟨n, above⟩ := by
  constructor
  · exact Focus.In.of_mem_leaves root .root n
  · rintro ⟨hleaf, above, hin⟩
    apply hin.leaves_subset
    rw [Node.leaves_of_children_nil hleaf]
    exact List.mem_singleton_self n

/-- A token of a tree: a leaf that is neither a comment nor empty. -/
structure IsToken (root n : Node) : Prop where
  within : ∃ above, Focus.In root ⟨n, above⟩
  leaf : n.children = []
  notComment : n.type ≠ "comment"
  nonempty : n.start < n.stop

end SyntaxTree

namespace Source.File

variable (file : File)

/-! ### The last token before an offset -/

theorem mem_tokenEnds_iff {e : Nat} :
    e ∈ file.tokenEnds ↔ ∃ n, IsToken file.root n ∧ n.stop = e := by
  unfold tokenEnds
  rw [List.mem_map]
  refine exists_congr fun n => and_congr_left fun _ => ?_
  rw [List.mem_filter, mem_leaves_iff]
  constructor
  · rintro ⟨⟨hleaf, hin⟩, htoken⟩
    have hparts : n.type ≠ "comment" ∧ n.start < n.stop := by
      simpa [Node.isComment] using htoken
    exact ⟨hin, hleaf, hparts.1, hparts.2⟩
  · rintro ⟨hin, hleaf, hcomment, hlt⟩
    exact ⟨⟨hleaf, hin⟩, by simp [Node.isComment, hcomment, hlt]⟩

theorem fullStart_le (offset : Nat) : file.fullStart offset ≤ offset := by
  rcases (foldl_max_spec (file.tokenEnds.filter (· ≤ offset)) 0).1 with h | h
  · have hzero : file.fullStart offset = 0 := h
    omega
  · exact of_decide_eq_true (List.mem_filter.mp h).2

/-- The ends of the tokens up to an offset. -/
def EndsUpTo (offset : Nat) : Set Nat := {e | e ≤ offset ∧ ∃ n, IsToken file.root n ∧ n.stop = e}

/-- The end of the last token up to an offset, or the start of the file if there is none. -/
theorem isGreatest_fullStart (offset : Nat) :
    IsGreatest (file.EndsUpTo offset) (file.fullStart offset) ∨
      (∀ n, IsToken file.root n → offset < n.stop) ∧ file.fullStart offset = 0 := by
  by_cases h0 : file.fullStart offset = 0
  · right
    refine ⟨fun n hn => ?_, h0⟩
    by_contra hle
    have hend := file.le_fullStart (file.mem_tokenEnds_iff.mpr ⟨n, hn, rfl⟩) (Nat.le_of_not_lt hle)
    have hpos := hn.nonempty
    omega
  · left
    have hend := file.fullStart_mem offset h0
    refine ⟨⟨file.fullStart_le offset, file.mem_tokenEnds_iff.mp hend⟩, ?_⟩
    rintro e ⟨hle, htoken⟩
    exact file.le_fullStart (file.mem_tokenEnds_iff.mpr htoken) hle

theorem fullStart_mono : Monotone file.fullStart := by
  intro a b hab
  by_cases h0 : file.fullStart a = 0
  · omega
  · have hle := file.fullStart_le a
    exact file.le_fullStart (file.fullStart_mem a h0) (by omega)

theorem fullStart_fullStart (offset : Nat) :
    file.fullStart (file.fullStart offset) = file.fullStart offset := by
  apply Nat.le_antisymm
  · exact file.fullStart_le _
  · by_cases h0 : file.fullStart offset = 0
    · omega
    · exact file.le_fullStart (file.fullStart_mem offset h0) le_rfl

/-! ### Comments in the gap -/

/-- Comments are found at or behind the start of the gap before a declaration. -/
theorem fullStart_le_of_mem_docRanges {f : Focus} {kind : Kind} {r : CommentRange}
    (h : r ∈ file.docRanges f kind) : file.fullStart f.declaration.node.start ≤ r.pos := by
  have hr := (List.mem_filter.mp h).1
  rw [List.mem_append] at hr
  rcases hr with hr | hr
  · split_ifs at hr
    · exact (comments_bounds _ _ _ r hr).1
    · cases hr
  · exact (comments_bounds _ _ _ r hr).1

/-- **No token stands between a comment and its declaration.**  The gap before an offset starts
at the end of the last token up to there, or at the start of the file; later offsets have no earlier
gaps, and the start of a gap starts its own gap.  A comment of a declaration lies in the gap before the
declaration or its wrapper, and no token ends behind the start of the comment and up to the declaration. -/
theorem comments_behind_last_token :
    (∀ offset, IsGreatest (file.EndsUpTo offset) (file.fullStart offset) ∨
      (∀ n, IsToken file.root n → offset < n.stop) ∧ file.fullStart offset = 0) ∧
    Monotone file.fullStart ∧
    (∀ offset, file.fullStart (file.fullStart offset) = file.fullStart offset) ∧
    ∀ (f : Focus) (kind : Kind), ∀ r ∈ file.docRanges f kind,
      file.fullStart f.declaration.node.start ≤ r.pos ∧
      ∀ n, IsToken file.root n → ¬ (r.pos < n.stop ∧ n.stop ≤ f.declaration.node.start) := by
  refine ⟨file.isGreatest_fullStart, file.fullStart_mono, file.fullStart_fullStart, ?_⟩
  intro f kind r hr
  have hgap := file.fullStart_le_of_mem_docRanges hr
  refine ⟨hgap, ?_⟩
  rintro n hn ⟨hbehind, hbefore⟩
  have hend := file.le_fullStart (file.mem_tokenEnds_iff.mpr ⟨n, hn, rfl⟩) hbefore
  omega

/-- A comment behind a token on its line, and one on the line before an exported function. -/
def betweenTokens : File := Index.read TypeScript.parse "a.ts" (TypeScript.bytesOf
  "a; /** of a */\n/** of f */ export function f() \x7b\x7d")

theorem comments_behind_last_token_betweenTokens :
    ∃ f kind r, (f, kind) ∈ betweenTokens.declarations ∧ r ∈ betweenTokens.docRanges f kind ∧
      f.declaration.node.start = 27 ∧ 2 ≤ r.pos ∧
      ∀ n, IsToken betweenTokens.root n → ¬ (r.pos < n.stop ∧ n.stop ≤ 27) := by
  have hfacts : betweenTokens.declarations.map (fun d =>
      (d.1.declaration.node.start, betweenTokens.fullStart d.1.declaration.node.start,
        betweenTokens.docRanges d.1 d.2)) = [(27, 2, [⟨15, 26, true⟩])] := by
    decide +kernel
  obtain ⟨⟨f, kind⟩, hdeclared, heq⟩ := List.map_eq_singleton_iff.mp hfacts
  obtain ⟨hstart, hrest⟩ := Prod.mk.inj heq
  obtain ⟨hgap, hranges⟩ := Prod.mk.inj hrest
  have hmem : (⟨15, 26, true⟩ : CommentRange) ∈ betweenTokens.docRanges f kind := by
    rw [hranges]
    exact List.mem_singleton_self _
  obtain ⟨hle, htokens⟩ := betweenTokens.comments_behind_last_token.2.2.2 f kind _ hmem
  rw [hgap] at hle
  rw [hstart] at htokens
  exact ⟨f, kind, _, by rw [hdeclared]; exact List.mem_singleton_self _, hmem, hstart, hle, htokens⟩

end Source.File

end PluginManifest
