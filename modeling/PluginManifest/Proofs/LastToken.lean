import PluginManifest.Proofs.TokenGaps
import Mathlib.Data.List.Sort

/-! # The last token by a search

The ends of the tokens can be collected from a stack of nodes and searched in their order.  The stack
gives the ends of `tokenEnds` from the last one to the first (`collects_iff`).  The search halves a range
of places between the ends up to an offset and the ends behind it (`Divides`, kept by each half), so what
stands before the place that it finds is the last end up to the offset: `fullStart`
(`fullStart_eq_lastUpTo`). -/

namespace PluginManifest

open SyntaxTree

namespace SyntaxTree

/-! ### Ends from a stack of nodes -/

/-- The end of a node that is neither a comment nor empty. -/
def Node.tokenEnd? (n : Node) : Option Nat :=
  if !n.isComment && n.start < n.stop then some n.stop else none

/-- What is collected from a stack of nodes: the last node is taken off, and its children are put on;
if it has none, its end is recorded. -/
inductive Collects : List Node → List Nat → Prop
  | done : Collects [] []
  | inner {stack : List Node} {n : Node} {ends : List Nat} : n.children ≠ [] →
      Collects (stack ++ n.children) ends → Collects (stack ++ [n]) ends
  | leaf {stack : List Node} {n : Node} {ends : List Nat} : n.children = [] →
      Collects stack ends → Collects (stack ++ [n]) (n.tokenEnd?.toList ++ ends)

theorem Collects.unique {stack : List Node} {ends ends' : List Nat} (h : Collects stack ends)
    (h' : Collects stack ends') : ends = ends' := by
  induction h generalizing ends' with
  | done =>
      generalize hs : ([] : List Node) = stack at h'
      cases h' with
      | done => rfl
      | inner => simp at hs
      | leaf => simp at hs
  | @inner stack n ends hinner _ ih =>
      generalize hs : stack ++ [n] = stack' at h'
      cases h' with
      | done => simp at hs
      | inner _ h' =>
          obtain ⟨rfl, heq⟩ := List.append_inj' hs rfl
          cases heq
          exact ih h'
      | leaf hleaf =>
          cases (List.append_inj' hs rfl).2
          exact absurd hleaf hinner
  | @leaf stack n ends hleaf _ ih =>
      generalize hs : stack ++ [n] = stack' at h'
      cases h' with
      | done => simp at hs
      | inner hinner =>
          cases (List.append_inj' hs rfl).2
          exact absurd hleaf hinner
      | leaf _ h' =>
          obtain ⟨rfl, heq⟩ := List.append_inj' hs rfl
          cases heq
          rw [ih h']

mutual

/-- The last node of a stack gives the ends of its leaves, from the last one to the first, before the
rest of the stack gives any. -/
theorem Collects.node : ∀ (n : Node) {stack : List Node} {ends : List Nat}, Collects stack ends →
    Collects (stack ++ [n]) ((n.leaves.filterMap Node.tokenEnd?).reverse ++ ends)
  | ⟨type, named, start, stop, field, []⟩, stack, ends, h => by
      have hleaf := Collects.leaf (n := ⟨type, named, start, stop, field, []⟩) rfl h
      rw [Node.leaves]
      cases hend : Node.tokenEnd? ⟨type, named, start, stop, field, []⟩ with
      | none =>
          rw [hend] at hleaf
          rw [List.filterMap_cons_none hend]
          exact hleaf
      | some e =>
          rw [hend] at hleaf
          rw [List.filterMap_cons_some hend]
          exact hleaf
  | ⟨_, _, _, _, _, child :: rest⟩, _, _, h =>
      .inner (List.cons_ne_nil child rest) (Collects.nodes (child :: rest) h)

theorem Collects.nodes : ∀ (children : List Node) {stack : List Node} {ends : List Nat},
    Collects stack ends →
      Collects (stack ++ children) (((Node.leavesOf children).filterMap Node.tokenEnd?).reverse ++ ends)
  | [], stack, _, h => by
      rw [List.append_nil]
      exact h
  | child :: rest, stack, ends, h => by
      have hrest := Collects.nodes rest (Collects.node child h)
      rw [Node.leavesOf, List.filterMap_append, List.reverse_append, List.append_assoc,
        List.append_cons]
      exact hrest

end

end SyntaxTree

/-! ### The search -/

/-- The place in an ordered list behind the items up to `x`, sought between `lo` and `hi` by halves. -/
def bisectRight (items : List Nat) (x lo hi : Nat) (h : hi ≤ items.length) : Nat :=
  if hlt : lo < hi then
    let mid := (lo + hi) / 2
    have hmid : mid < items.length := by omega
    if x < items[mid] then bisectRight items x lo mid (Nat.le_of_lt hmid)
    else bisectRight items x (mid + 1) hi h
  else lo
termination_by hi - lo

/-- The last item up to `x` of an ordered list, or zero if there is none. -/
def lastUpTo (items : List Nat) (x : Nat) : Nat :=
  match bisectRight items x 0 items.length (Nat.le_refl _) with
  | 0 => 0
  | i + 1 => items.getD i 0

/-- No item before `lo` is greater than `x`, and every item from `hi` on is. -/
structure Divides (items : List Nat) (x lo hi : Nat) : Prop where
  le : lo ≤ hi
  within : hi ≤ items.length
  before : ∀ i (h : i < items.length), i < lo → items[i] ≤ x
  behind : ∀ i (h : i < items.length), hi ≤ i → x < items[i]

section search

variable {items : List Nat} {x lo hi mid : Nat} (hsorted : items.Pairwise (· ≤ ·))
include hsorted

theorem getElem_le {i j : Nat} (hij : i ≤ j) (hj : j < items.length) : items[i] ≤ items[j] := by
  rcases Nat.lt_or_eq_of_le hij with hlt | rfl
  · exact List.pairwise_iff_getElem.mp hsorted i j _ hj hlt
  · exact Nat.le_refl _

theorem Divides.lower (h : Divides items x lo hi) (hlo : lo ≤ mid) (hmid : mid < items.length)
    (hx : x < items[mid]) : Divides items x lo mid where
  le := hlo
  within := Nat.le_of_lt hmid
  before := h.before
  behind := fun _ hi hle => Nat.lt_of_lt_of_le hx (getElem_le hsorted hle hi)

theorem Divides.upper (h : Divides items x lo hi) (hhi : mid < hi) (hmid : mid < items.length)
    (hx : ¬ x < items[mid]) : Divides items x (mid + 1) hi where
  le := hhi
  within := h.within
  before := fun _ _ hlt =>
    Nat.le_trans (getElem_le hsorted (Nat.le_of_lt_succ hlt) hmid) (Nat.le_of_not_lt hx)
  behind := h.behind

/-- The search ends at a place that divides the list. -/
theorem divides_bisectRight {h : hi ≤ items.length} (hdivides : Divides items x lo hi) :
    Divides items x (bisectRight items x lo hi h) (bisectRight items x lo hi h) := by
  fun_induction bisectRight items x lo hi h with
  | case1 lo hi h hlt mid hmid hx ih => exact ih (hdivides.lower hsorted (by omega) hmid hx)
  | case2 lo hi h hlt mid hmid hx ih => exact ih (hdivides.upper hsorted (by omega) hmid hx)
  | case3 lo hi h hlt =>
      obtain rfl : lo = hi := by
        have hle := hdivides.le
        omega
      exact hdivides

theorem lastUpTo_spec :
    (lastUpTo items x = 0 ∨ lastUpTo items x ∈ items ∧ lastUpTo items x ≤ x) ∧
      ∀ e ∈ items, e ≤ x → e ≤ lastUpTo items x := by
  have hdivides := divides_bisectRight (x := x) (h := Nat.le_refl _) hsorted
    ⟨Nat.zero_le _, Nat.le_refl _, fun _ _ h => absurd h (Nat.not_lt_zero _), fun _ h hle => by omega⟩
  unfold lastUpTo
  cases hplace : bisectRight items x 0 items.length (Nat.le_refl _) with
  | zero =>
      rw [hplace] at hdivides
      refine ⟨.inl rfl, fun e he hle => ?_⟩
      obtain ⟨i, hi, rfl⟩ := List.mem_iff_getElem.mp he
      exact absurd hle (Nat.not_le_of_lt (hdivides.behind i hi (Nat.zero_le i)))
  | succ k =>
      rw [hplace] at hdivides
      have hk : k < items.length := hdivides.within
      have hlast : items.getD k 0 = items[k] := List.getElem_eq_getD 0 |>.symm
      dsimp only
      rw [hlast]
      refine ⟨.inr ⟨List.getElem_mem hk, hdivides.before k hk (Nat.lt_succ_self k)⟩, fun e he hle => ?_⟩
      obtain ⟨i, hi, rfl⟩ := List.mem_iff_getElem.mp he
      have hik : i ≤ k := by
        by_contra hlt
        exact absurd hle (Nat.not_le_of_lt (hdivides.behind i hi (by omega)))
      exact getElem_le hsorted hik hk

end search

namespace Source.File

variable (file : File)

theorem tokenEnds_eq_filterMap : file.tokenEnds = file.root.leaves.filterMap Node.tokenEnd? := by
  unfold tokenEnds
  rw [← List.filterMap_eq_filter, List.map_filterMap]
  refine List.filterMap_congr fun n _ => ?_
  unfold Node.tokenEnd?
  by_cases h : !n.isComment && n.start < n.stop
  · simp [Option.guard, h]
  · simp [Option.guard, h]

/-- The stack gives the ends of the tokens, the last one first. -/
theorem collects_iff {ends : List Nat} : Collects [file.root] ends ↔ ends = file.tokenEnds.reverse := by
  have hroot : Collects [file.root] file.tokenEnds.reverse := by
    have hnode := Collects.node file.root .done
    rw [List.append_nil] at hnode
    rw [tokenEnds_eq_filterMap]
    exact hnode
  constructor
  · intro h
    exact h.unique hroot
  · rintro rfl
    exact hroot

/-- The gap before an offset starts where the search among the ordered ends finds the last one. -/
theorem fullStart_eq_lastUpTo {ends : List Nat} (h : Collects [file.root] ends) (offset : Nat) :
    file.fullStart offset = lastUpTo (ends.mergeSort (· ≤ ·)) offset := by
  have hsorted : (ends.mergeSort (· ≤ ·)).Pairwise (· ≤ ·) :=
    List.pairwise_mergeSort' (· ≤ ·) ends
  have hmem : ∀ e, e ∈ ends.mergeSort (· ≤ ·) ↔ e ∈ file.tokenEnds := by
    intro e
    rw [(List.mergeSort_perm ends _).mem_iff, file.collects_iff.mp h, List.mem_reverse]
  obtain ⟨hlast, hgreatest⟩ := lastUpTo_spec hsorted (x := offset)
  apply Nat.le_antisymm
  · by_cases h0 : file.fullStart offset = 0
    · omega
    · exact hgreatest _ ((hmem _).mpr (file.fullStart_mem offset h0)) (file.fullStart_le offset)
  · rcases hlast with hzero | ⟨hend, hle⟩
    · omega
    · exact file.le_fullStart ((hmem _).mp hend) hle

end Source.File

end PluginManifest
