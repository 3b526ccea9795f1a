import PluginManifest.TypeScript.Parser
import Mathlib.Data.List.Chain
import Mathlib.Data.List.Nodup
import Mathlib.Logic.Relation

/-! # Wrappers and what they own

A node of a tree is told by the way to it, child by child from the root: its `Place`.  Where siblings
differ in their keys, comparing keys is comparing places, so a node climbs to its parent exactly when
the parent is a wrapper and the node is the first child that it can own (`isOwnedBy_iff`).  A climb
thus follows the longest chain of owners (`exists_longest_chain`).  A wrapper owns one child at most
(`Place.OwnedBy.unique`), and so two climbs that meet are parts of one climb
(`declaration_tops_longest_chain`). -/

namespace PluginManifest.SyntaxTree

/-! ### Places -/

/-- The node that is reached from a node through the children at the given places. -/
def Focus.descend? (f : Focus) : List Nat → Option Focus
  | [] => some f
  | i :: path => f.node.children[i]?.bind fun child => (f.down child).descend? path

theorem Focus.descend?_append (f : Focus) (path more : List Nat) :
    f.descend? (path ++ more) = (f.descend? path).bind fun g => g.descend? more := by
  induction path generalizing f with
  | nil => rfl
  | cons i path ih =>
      rw [List.cons_append, descend?, descend?]
      cases f.node.children[i]? with
      | none => rfl
      | some child => exact ih (f.down child)

/-- A node of a tree and the way to it. -/
structure Place (root : Node) where
  /-- The places of the children on the way from the root. -/
  path : List Nat
  /-- The node with its ancestors. -/
  focus : Focus
  /-- The way leads to the node. -/
  reached : (Focus.root root).descend? path = some focus

namespace Place

variable {root : Node} {a b n w : Place root} {i : Nat}

/-- The way tells the node. -/
theorem ext (h : a.path = b.path) : a = b := by
  obtain ⟨path, focus, hreached⟩ := a
  obtain ⟨path', focus', hreached'⟩ := b
  dsimp only at h
  subst h
  cases hreached.symm.trans hreached'
  rfl

/-- A node is the child of another one at the place `i`. -/
def IsChild (n w : Place root) (i : Nat) : Prop := n.path = w.path ++ [i]

/-- A node stands below another one. -/
def IsBelow (n w : Place root) : Prop := ∃ more, more ≠ [] ∧ n.path = w.path ++ more

theorem IsChild.node_eq (h : n.IsChild w i) :
    w.focus.node.children[i]? = some n.focus.node ∧ n.focus = w.focus.down n.focus.node := by
  have hreached := n.reached
  rw [h, Focus.descend?_append, w.reached, Option.bind_some, Focus.descend?] at hreached
  obtain ⟨child, hchild, hfocus⟩ := Option.bind_eq_some_iff.mp hreached
  have heq : w.focus.down child = n.focus := Option.some.inj hfocus
  rw [← heq]
  exact ⟨hchild, rfl⟩

/-- The ancestors of a child are its parent and the ancestors of the parent. -/
theorem IsChild.ancestors_eq (h : n.IsChild w i) :
    n.focus.ancestors = w.focus.node :: w.focus.ancestors := by
  rw [h.node_eq.2]
  rfl

/-- A node is the root or the child of another one. -/
theorem root_or_child (n : Place root) :
    n.path = [] ∧ n.focus.ancestors = [] ∨ ∃ w i, n.IsChild w i := by
  have hreached := n.reached
  rcases List.eq_nil_or_concat' n.path with hnil | ⟨path, i, hpath⟩
  · rw [hnil] at hreached
    rw [← Option.some.inj hreached]
    exact .inl ⟨hnil, rfl⟩
  · rw [hpath, Focus.descend?_append] at hreached
    obtain ⟨f, hf, -⟩ := Option.bind_eq_some_iff.mp hreached
    exact .inr ⟨⟨path, f, hf⟩, i, hpath⟩

/-- What holds of the root, and of a child when it holds of the parent, holds of all nodes. -/
theorem induction {motive : Place root → Prop}
    (top : ∀ n, n.path = [] → n.focus.ancestors = [] → motive n)
    (child : ∀ n w i, n.IsChild w i → motive w → motive n) (n : Place root) : motive n := by
  induction hlength : n.path.length using Nat.strong_induction_on generalizing n with
  | _ length ih =>
      rcases n.root_or_child with ⟨hpath, hroot⟩ | ⟨w, i, hchild⟩
      · exact top n hpath hroot
      · have hshorter : w.path.length < length := by
          rw [← hlength, hchild, List.length_append, List.length_singleton]
          omega
        exact child n w i hchild (ih _ hshorter w rfl)

theorem IsChild.parent_unique {w' : Place root} {j : Nat} (h : n.IsChild w i)
    (h' : n.IsChild w' j) : w = w' ∧ i = j := by
  obtain ⟨hpath, hlast⟩ := List.append_inj' (h.symm.trans h') rfl
  exact ⟨ext hpath, List.head_eq_of_cons_eq hlast⟩

end Place

/-! ### Siblings with different keys -/

namespace Node

mutual

/-- Everywhere in the tree the children of a node differ in their keys. -/
def siblingsDiffer : Node → Bool
  | ⟨_, _, _, _, _, children⟩ => decide (children.map key).Nodup && siblingsDifferIn children

/-- Everywhere in the trees the children of a node differ in their keys. -/
def siblingsDifferIn : List Node → Bool
  | [] => true
  | child :: rest => child.siblingsDiffer && siblingsDifferIn rest

end

theorem siblingsDifferIn_eq_all (children : List Node) :
    siblingsDifferIn children = children.all siblingsDiffer := by
  induction children with
  | nil => rfl
  | cons child rest ih => rw [siblingsDifferIn, List.all_cons, ih]

theorem siblingsDiffer_iff (n : Node) :
    n.siblingsDiffer = true ↔
      (n.children.map key).Nodup ∧ ∀ child ∈ n.children, child.siblingsDiffer = true := by
  obtain ⟨type, named, start, stop, field, children⟩ := n
  rw [siblingsDiffer, siblingsDifferIn_eq_all, Bool.and_eq_true, decide_eq_true_eq, List.all_eq_true]

/-- A node with the key of the child at a place stands at that place. -/
theorem place_of_key {children : List Node} (h : (children.map key).Nodup) {c d : Node} {i j : Nat}
    (hc : children[i]? = some c) (hd : children[j]? = some d) (hkey : c.key = d.key) : i = j := by
  have hi : (children.map key)[i]? = some c.key := by rw [List.getElem?_map, hc]; rfl
  have hj : (children.map key)[j]? = some d.key := by rw [List.getElem?_map, hd]; rfl
  obtain ⟨hlt, -⟩ := List.getElem?_eq_some_iff.mp hi
  exact (List.getElem?_inj hlt h).mp (by rw [hi, hj, hkey])

end Node

namespace Place

variable {root : Node}

theorem siblingsDiffer_descend? {f g : Focus} {path : List Nat} (h : f.node.siblingsDiffer = true)
    (hg : f.descend? path = some g) : g.node.siblingsDiffer = true := by
  induction path generalizing f with
  | nil =>
      cases hg
      exact h
  | cons i path ih =>
      obtain ⟨child, hchild, hg⟩ := Option.bind_eq_some_iff.mp hg
      exact ih ((Node.siblingsDiffer_iff _).mp h |>.2 child (List.mem_of_getElem? hchild)) hg

theorem nodup_keys (h : root.siblingsDiffer = true) (w : Place root) :
    (w.focus.node.children.map Node.key).Nodup :=
  ((Node.siblingsDiffer_iff _).mp (siblingsDiffer_descend? (f := .root root) h w.reached)).1

/-- Where siblings differ, a node with its ancestors stands at one place only. -/
theorem focus_injective (h : root.siblingsDiffer = true) :
    Function.Injective (Place.focus : Place root → Focus) := by
  intro a
  induction a using Place.induction with
  | top a hpath hroot =>
      intro b hab
      rcases b.root_or_child with ⟨hpath', -⟩ | ⟨w, j, hw⟩
      · exact ext (hpath.trans hpath'.symm)
      · rw [hab, hw.ancestors_eq] at hroot
        cases hroot
  | child a v i hv ih =>
      intro b hab
      have habove := hv.ancestors_eq
      rw [hab] at habove
      rcases b.root_or_child with ⟨-, hroot⟩ | ⟨w, j, hw⟩
      · rw [hroot] at habove
        cases habove
      · obtain ⟨hnode, hancestors⟩ := List.cons.inj (hw.ancestors_eq.symm.trans habove)
        have hfocus : v.focus = w.focus := congrArg₂ Focus.mk hnode.symm hancestors.symm
        obtain rfl : v = w := ih hfocus
        have hplace : i = j :=
          Node.place_of_key (v.nodup_keys h) hv.node_eq.1 hw.node_eq.1 (by rw [hab])
        exact ext (hv.trans (by rw [hplace, hw]))

end Place

/-! ### Owners -/

/-- A child that a wrapper can own: one that stands for a rule and is neither a comment nor a
decorator. -/
def Node.IsSubject (n : Node) : Prop := n.named = true ∧ n.type ≠ "comment" ∧ n.type ≠ "decorator"

instance : DecidablePred Node.IsSubject := fun _ => inferInstanceAs (Decidable (_ ∧ _))

/-- A node is the first child of a wrapper that the wrapper can own. -/
structure Place.OwnedBy {root : Node} (n w : Place root) : Prop where
  wrapper : w.focus.node.type = "export_statement" ∨ w.focus.node.type = "ambient_declaration"
  subject : n.focus.node.IsSubject
  first : ∃ i, n.IsChild w i ∧ ∀ j < i, ∀ c, w.focus.node.children[j]? = some c → ¬ c.IsSubject

namespace Place

variable {root : Node} {a b n w : Place root}

/-- A wrapper owns one child at most. -/
theorem OwnedBy.unique (ha : a.OwnedBy w) (hb : b.OwnedBy w) : a = b := by
  obtain ⟨i, hi, hbefore⟩ := ha.first
  obtain ⟨j, hj, hbefore'⟩ := hb.first
  rcases Nat.lt_trichotomy i j with hlt | rfl | hlt
  · exact absurd ha.subject (hbefore' i hlt _ hi.node_eq.1)
  · exact ext (hi.trans hj.symm)
  · exact absurd hb.subject (hbefore j hlt _ hj.node_eq.1)

/-- The owner of a node is its parent. -/
theorem OwnedBy.parent_eq {v : Place root} {i : Nat} (h : n.OwnedBy v) (hchild : n.IsChild w i) :
    v = w := by
  obtain ⟨j, hchild', -⟩ := h.first
  exact (hchild'.parent_unique hchild).1

/-- No chain goes on from a node without an owner. -/
theorem isPrefix_nil_of_not_ownedBy (h : ∀ v, ¬ n.OwnedBy v) (other : List (Place root))
    (hother : List.IsChain OwnedBy (n :: other)) : other <+: [] := by
  cases hother with
  | singleton => exact List.prefix_rfl
  | cons_cons howned _ => exact absurd howned (h _)

theorem declaration_root (h : n.focus.ancestors = []) : n.focus.declaration = n.focus := by
  rw [Focus.declaration, h, Focus.climb, ← h]

/-- A child climbs on from its parent when the parent owns it, and else it stays. -/
theorem IsChild.declaration_eq {i : Nat} (h : n.IsChild w i) : n.focus.declaration =
    if Focus.isOwnedBy n.focus.node w.focus.node then w.focus.declaration else n.focus := by
  rw [Focus.declaration, h.ancestors_eq, Focus.climb, ← h.ancestors_eq]
  rfl

theorem IsChild.isBelow {i : Nat} (h : n.IsChild w i) : n.IsBelow w := ⟨[i], by simp, h⟩

theorem IsBelow.trans (ha : a.IsBelow b) (hb : b.IsBelow w) : a.IsBelow w := by
  obtain ⟨more, hne, hpath⟩ := ha
  obtain ⟨more', -, hpath'⟩ := hb
  exact ⟨more' ++ more, by simp [hne], by rw [hpath, hpath', List.append_assoc]⟩

/-- Whatever is reached through owners stands above. -/
theorem eq_or_isBelow (h : Relation.ReflTransGen OwnedBy a b) : a = b ∨ a.IsBelow b := by
  induction h with
  | refl => exact .inl rfl
  | tail _ howned ih =>
      obtain ⟨i, hchild, -⟩ := howned.first
      rcases ih with rfl | hbelow
      · exact .inr hchild.isBelow
      · exact .inr (hbelow.trans hchild.isBelow)

/-- Children of one node do not stand below each other. -/
theorem IsChild.not_isBelow {i j : Nat} (ha : a.IsChild w i) (hb : b.IsChild w j) :
    ¬ a.IsBelow b := by
  rintro ⟨more, hne, hpath⟩
  rw [ha, hb] at hpath
  have hlength := congrArg List.length hpath
  have hpos := List.length_pos_iff.mpr hne
  simp only [List.length_append, List.length_singleton] at hlength
  omega

end Place

namespace Focus

theorem owned?_eq (w : Node) : owned? w = w.children.find? fun c => decide c.IsSubject := by
  unfold owned? Node.namedChildren
  rw [List.find?_filter]
  congr 1
  funext c
  rw [Bool.eq_iff_iff, decide_eq_true_iff, decide_eq_true_iff]
  simp [Node.IsSubject, incidentalTypes]

/-- The child at a place has the key of the owned one exactly when it is owned. -/
theorem owned?_key_iff {w c : Node} {i : Nat} (hkeys : (w.children.map Node.key).Nodup)
    (hc : w.children[i]? = some c) : (owned? w).map Node.key = some c.key ↔
      c.IsSubject ∧ ∀ j < i, ∀ d, w.children[j]? = some d → ¬ d.IsSubject := by
  rw [owned?_eq, Option.map_eq_some_iff]
  constructor
  · rintro ⟨d, hfind, hkey⟩
    obtain ⟨hsubject, k, hk, hd, hbefore⟩ := List.find?_eq_some_iff_getElem.mp hfind
    have hdk : w.children[k]? = some d := List.getElem?_eq_some_iff.mpr ⟨hk, hd⟩
    obtain rfl : k = i := Node.place_of_key hkeys hdk hc hkey
    obtain rfl : d = c := Option.some.inj (hdk.symm.trans hc)
    refine ⟨by simpa using hsubject, fun j hj e he => ?_⟩
    obtain ⟨hlt, rfl⟩ := List.getElem?_eq_some_iff.mp he
    simpa using hbefore j hj
  · rintro ⟨hsubject, hbefore⟩
    obtain ⟨hi, rfl⟩ := List.getElem?_eq_some_iff.mp hc
    refine ⟨_, List.find?_eq_some_iff_getElem.mpr ⟨by simpa using hsubject, i, hi, rfl, ?_⟩, rfl⟩
    intro j hj
    have hnot := hbefore j hj _ (List.getElem?_eq_getElem (by omega))
    simpa using hnot

/-- A climb ends where no climb goes on. -/
theorem declaration_climb (above : List Node) : ∀ node : Node,
    (climb node above).declaration = climb node above := by
  induction above with
  | nil => exact fun node => rfl
  | cons parent above ih =>
      intro node
      rw [climb]
      split_ifs with howned
      · exact ih parent
      · rw [declaration, climb, if_neg howned]

end Focus

section owners

variable {root : Node} (h : root.siblingsDiffer = true) {a b n w : Place root}
include h

/-- A climb goes on exactly from a node to its owner. -/
theorem isOwnedBy_iff {i : Nat} (hchild : n.IsChild w i) :
    Focus.isOwnedBy n.focus.node w.focus.node = true ↔ n.OwnedBy w := by
  have hwrapper : Focus.wrapperTypes.contains w.focus.node.type = true ↔
      w.focus.node.type = "export_statement" ∨ w.focus.node.type = "ambient_declaration" := by
    simp [Focus.wrapperTypes]
  rw [Focus.isOwnedBy, Bool.and_eq_true, hwrapper, beq_iff_eq,
    Focus.owned?_key_iff (w.nodup_keys h) hchild.node_eq.1]
  constructor
  · rintro ⟨htype, hsubject, hfirst⟩
    exact ⟨htype, hsubject, i, hchild, hfirst⟩
  · rintro ⟨htype, hsubject, j, hchild', hfirst⟩
    obtain ⟨-, rfl⟩ := hchild.parent_unique hchild'
    exact ⟨htype, hsubject, hfirst⟩

/-- A climb ends at the top of a chain of owners that every other such chain is a part of. -/
theorem exists_longest_chain (n : Place root) :
    ∃ chain, List.IsChain Place.OwnedBy (n :: chain) ∧
      ((n :: chain).getLast (List.cons_ne_nil _ _)).focus = n.focus.declaration ∧
      ∀ other, List.IsChain Place.OwnedBy (n :: other) → other <+: chain := by
  induction n using Place.induction with
  | top n _ hroot =>
      refine ⟨[], .singleton n, (Place.declaration_root hroot).symm, ?_⟩
      apply Place.isPrefix_nil_of_not_ownedBy
      intro v howned
      obtain ⟨i, hchild, -⟩ := howned.first
      rw [hchild.ancestors_eq] at hroot
      cases hroot
  | child n w i hchild ih =>
      by_cases howned : n.OwnedBy w
      · obtain ⟨chain, hchain, htop, hlongest⟩ := ih
        have hclimb : n.focus.declaration = w.focus.declaration := by
          rw [hchild.declaration_eq, if_pos ((isOwnedBy_iff h hchild).mpr howned)]
        refine ⟨w :: chain, .cons_cons howned hchain, htop.trans hclimb.symm, ?_⟩
        intro other hother
        cases hother with
        | singleton => exact List.nil_prefix
        | cons_cons howned' hrest =>
            obtain rfl := howned'.parent_eq hchild
            exact List.cons_prefix_cons.mpr ⟨rfl, hlongest _ hrest⟩
      · have hstay : n.focus.declaration = n.focus := by
          rw [hchild.declaration_eq, if_neg fun hkey => howned ((isOwnedBy_iff h hchild).mp hkey)]
        refine ⟨[], .singleton n, hstay.symm, ?_⟩
        apply Place.isPrefix_nil_of_not_ownedBy
        intro v howned'
        exact howned (howned'.parent_eq hchild ▸ howned')

/-- Two climbs that meet are parts of one climb. -/
theorem owned_of_declaration_eq (hdecl : a.focus.declaration = b.focus.declaration) :
    Relation.ReflTransGen Place.OwnedBy a b ∨ Relation.ReflTransGen Place.OwnedBy b a := by
  obtain ⟨above, habove, htop, -⟩ := exists_longest_chain h a
  obtain ⟨above', habove', htop', -⟩ := exists_longest_chain h b
  have hmeet := Place.focus_injective h (htop.trans (hdecl.trans htop'.symm))
  have ha := List.relationReflTransGen_of_exists_isChain_cons above habove rfl
  have hb := List.relationReflTransGen_of_exists_isChain_cons above' habove' rfl
  rw [← hmeet] at hb
  -- From where they meet, both climbs are followed downwards through the only owned children.
  have hunique : Relator.RightUnique fun v m : Place root => m.OwnedBy v :=
    fun _ _ _ h₁ h₂ => h₁.unique h₂
  rcases Relation.ReflTransGen.total_of_right_unique hunique (Relation.reflTransGen_swap.mpr ha)
    (Relation.reflTransGen_swap.mpr hb) with hab | hba
  · exact .inr (Relation.reflTransGen_swap.mp hab)
  · exact .inl (Relation.reflTransGen_swap.mp hba)

end owners

/-- **A wrapper belongs to one declaration.**  Where siblings differ in their keys, a node is located
at the top of the longest chain of owners above it, and there it stays.  Nodes that are located at one
place stand below each other, so two children of a wrapper are not both located where it is. -/
theorem declaration_tops_longest_chain {root : Node} (h : root.siblingsDiffer = true) :
    (∀ n : Place root, ∃ chain, List.IsChain Place.OwnedBy (n :: chain) ∧
      ((n :: chain).getLast (List.cons_ne_nil _ _)).focus = n.focus.declaration ∧
      ∀ other, List.IsChain Place.OwnedBy (n :: other) → other <+: chain) ∧
    (∀ n : Place root, n.focus.declaration.declaration = n.focus.declaration) ∧
    (∀ a b : Place root, a.focus.declaration = b.focus.declaration →
      a = b ∨ a.IsBelow b ∨ b.IsBelow a) ∧
    ∀ (w a b : Place root) (i j : Nat), a.IsChild w i → b.IsChild w j →
      a.focus.declaration = w.focus.declaration → b.focus.declaration = w.focus.declaration →
      a = b := by
  have hcomparable : ∀ a b : Place root, a.focus.declaration = b.focus.declaration →
      a = b ∨ a.IsBelow b ∨ b.IsBelow a := by
    intro a b hdecl
    rcases owned_of_declaration_eq h hdecl with hab | hba
    · exact (Place.eq_or_isBelow hab).imp_right .inl
    · exact (Place.eq_or_isBelow hba).imp Eq.symm .inr
  refine ⟨exists_longest_chain h, fun n => Focus.declaration_climb _ _, hcomparable, ?_⟩
  intro w a b i j ha hb hdecl hdecl'
  rcases hcomparable a b (hdecl.trans hdecl'.symm) with heq | hbelow | hbelow
  · exact heq
  · exact absurd hbelow (ha.not_isBelow hb)
  · exact absurd hbelow (hb.not_isBelow ha)

/-- A class in two wrappers, the outer one with a decorator and a comment. -/
def wrappedTwice : Node :=
  TypeScript.parse .plain (TypeScript.bytesOf "@d export /* c */ declare class A \x7b\x7d")

theorem declaration_tops_longest_chain_wrappedTwice :
    wrappedTwice.siblingsDiffer = true ∧ ∃ (a w : Place wrappedTwice) (chain : List (Place wrappedTwice)),
      a.focus.node.type = "class_declaration" ∧ w.focus.node.type = "export_statement" ∧
      List.IsChain Place.OwnedBy (a :: chain) ∧
      (a :: chain).getLast (List.cons_ne_nil _ _) = w ∧ w.focus = a.focus.declaration ∧
      a.focus.declaration = w.focus.declaration ∧ (a = w ∨ a.IsBelow w ∨ w.IsBelow a) := by
  have hdiffer : wrappedTwice.siblingsDiffer = true := by decide +kernel
  have hfacts : ((Focus.root wrappedTwice).descend? [0, 3, 1]).map
      (fun f => (f.node.type, f.declaration.node.type)) =
        some ("class_declaration", "export_statement") := by decide +kernel
  obtain ⟨f, hf, hfacts⟩ := Option.map_eq_some_iff.mp hfacts
  obtain ⟨htype, hwrapper⟩ := Prod.mk.inj hfacts
  obtain ⟨htop, hstays, hbelow, -⟩ := declaration_tops_longest_chain hdiffer
  obtain ⟨chain, hchain, hlast, -⟩ := htop ⟨[0, 3, 1], f, hf⟩
  have hdecl := (hstays ⟨[0, 3, 1], f, hf⟩).symm.trans (congrArg Focus.declaration hlast.symm)
  exact ⟨hdiffer, ⟨[0, 3, 1], f, hf⟩, _, chain, htype, by rw [hlast]; exact hwrapper, hchain, rfl,
    hlast, hdecl, hbelow _ _ hdecl⟩

end PluginManifest.SyntaxTree
