import PluginManifest.Proofs.UnionTypes

/-! # The walk through a tree

`walk` lists the named nodes that are reached through named nodes.  `NamedAt` tells the way to such a
node by the places of the children on it, and the walk follows the order of these ways, each of them
once (`lists_walk`); a node comes before the nodes below it because the way to it is shorter.  A walk
that keeps the nodes to visit on a stack visits the same nodes in the same order (`visits_iff`).

What is told of the nodes one by one stands in the order of the walk: `InOrder` says so of any list
whose items have places, and `InOrder.filterMap` and `InOrder.flatMap` pass it on. -/

namespace PluginManifest

/-! ### Items in the order of their places -/

/-- The items stand in the order of their places, one for each place. -/
def InOrder {ι α : Type} [LT ι] (stands : ι → α → Prop) (items : List α) : Prop :=
  ∃ places : List (ι × α), places.map Prod.snd = items ∧
    places.Pairwise (fun p q => p.1 < q.1) ∧ ∀ i a, (i, a) ∈ places ↔ stands i a

/-- A node by the way to it, and one of the items at the node. -/
structure Spot where
  /-- The places of the children on the way to the node. -/
  node : List Nat
  /-- The place of the item at the node. -/
  place : Nat

/-- Items go by their nodes, and at one node by their places. -/
instance : LT Spot := ⟨fun s t => s.node < t.node ∨ s.node = t.node ∧ s.place < t.place⟩

namespace InOrder

variable {ι α β : Type} [LT ι] {stands stands' : ι → α → Prop} {items : List α}

theorem congr (h : InOrder stands items) (hiff : ∀ i a, stands i a ↔ stands' i a) :
    InOrder stands' items := by
  obtain ⟨places, hitems, horder, hmem⟩ := h
  exact ⟨places, hitems, horder, fun i a => (hmem i a).trans (hiff i a)⟩

theorem mem_iff (h : InOrder stands items) {a : α} : a ∈ items ↔ ∃ i, stands i a := by
  obtain ⟨places, rfl, -, hmem⟩ := h
  rw [List.mem_map]
  constructor
  · rintro ⟨⟨i, b⟩, hplace, rfl⟩
    exact ⟨i, (hmem i b).mp hplace⟩
  · rintro ⟨i, hstands⟩
    exact ⟨(i, a), (hmem i a).mpr hstands, rfl⟩

/-- What some of the items give stands in their order. -/
theorem filterMap (h : InOrder stands items) (f : α → Option β) :
    InOrder (fun i b => ∃ a, stands i a ∧ f a = some b) (items.filterMap f) := by
  obtain ⟨places, rfl, horder, hmem⟩ := h
  refine ⟨places.filterMap fun p => (f p.2).map fun b => (p.1, b), ?_, ?_, ?_⟩
  · rw [List.map_filterMap, List.filterMap_map]
    refine List.filterMap_congr fun p _ => ?_
    cases hp : f p.2 with
    | none => simp [hp]
    | some b => simp [hp]
  · rw [List.pairwise_filterMap]
    refine horder.imp fun {p q} hlt b hb c hc => ?_
    obtain ⟨_, -, rfl⟩ := Option.map_eq_some_iff.mp hb
    obtain ⟨_, -, rfl⟩ := Option.map_eq_some_iff.mp hc
    exact hlt
  · intro i b
    rw [List.mem_filterMap]
    constructor
    · rintro ⟨⟨j, a⟩, hplace, heq⟩
      obtain ⟨c, hc, heq⟩ := Option.map_eq_some_iff.mp heq
      cases heq
      exact ⟨a, (hmem j a).mp hplace, hc⟩
    · rintro ⟨a, hstands, hb⟩
      exact ⟨(i, a), (hmem i a).mpr hstands, by rw [hb]; rfl⟩

theorem map (h : InOrder stands items) (f : α → β) :
    InOrder (fun i b => ∃ a, stands i a ∧ f a = b) (items.map f) := by
  have hmap := h.filterMap (some ∘ f)
  rw [List.filterMap_eq_map] at hmap
  exact hmap.congr fun i b => by simp

theorem filter (h : InOrder stands items) (p : α → Bool) :
    InOrder (fun i a => stands i a ∧ p a = true) (items.filter p) := by
  have hfilter := h.filterMap (Option.guard p)
  rw [List.filterMap_eq_filter] at hfilter
  refine hfilter.congr fun i a => ?_
  constructor
  · rintro ⟨b, hstands, hb⟩
    obtain ⟨rfl, hp⟩ := Option.guard_eq_some_iff.mp hb
    exact ⟨hstands, hp⟩
  · rintro ⟨hstands, hp⟩
    exact ⟨a, hstands, Option.guard_eq_some_iff.mpr ⟨rfl, hp⟩⟩

/-- The last of the items in order is the one whose place no other place follows. -/
theorem getLast?_eq_some_iff {stands : List Nat → α → Prop}
    (h : InOrder stands items) {a : α} :
    items.getLast? = some a ↔ ∃ i, stands i a ∧ ∀ j b, stands j b → j < i ∨ j = i := by
  obtain ⟨places, rfl, horder, hmem⟩ := h
  rw [List.getLast?_map, Option.map_eq_some_iff]
  constructor
  · rintro ⟨⟨i, a⟩, hlast, rfl⟩
    obtain ⟨before, rfl⟩ := List.getLast?_eq_some_iff.mp hlast
    refine ⟨i, (hmem i a).mp (by simp), fun j b hb => ?_⟩
    rcases List.mem_append.mp ((hmem j b).mpr hb) with hbefore | hsame
    · exact .inl ((List.pairwise_append.mp horder).2.2 _ hbefore _ List.mem_cons_self)
    · exact .inr (congrArg Prod.fst (List.mem_singleton.mp hsame))
  · rintro ⟨i, ha, hgreatest⟩
    have hat := (hmem i a).mpr ha
    obtain ⟨before, last, rfl⟩ := List.eq_nil_or_concat' places |>.resolve_left (List.ne_nil_of_mem hat)
    refine ⟨last, List.getLast?_concat, ?_⟩
    rcases List.mem_append.mp hat with hbefore | hsame
    · have hlt := (List.pairwise_append.mp horder).2.2 _ hbefore last List.mem_cons_self
      rcases hgreatest last.1 last.2 ((hmem _ _).mp (by simp)) with hgt | heq
      · exact absurd hgt (List.lt_asymm hlt)
      · rw [heq] at hlt
        exact absurd hlt (List.lt_irrefl _)
    · rw [← List.mem_singleton.mp hsame]

/-- The items of a list stand at their places in it. -/
theorem getElem? (items : List α) : InOrder (fun (i : Nat) a => items[i]? = some a) items := by
  refine ⟨items.zipIdx.map fun p => (p.2, p.1), ?_, ?_, ?_⟩
  · rw [List.map_map]
    exact List.zipIdx_map_fst 0 items
  · have hplaces : (items.zipIdx.map Prod.snd).Pairwise (· < ·) := by
      rw [List.zipIdx_map_snd]
      exact List.pairwise_lt_range'
    rw [List.pairwise_map] at hplaces ⊢
    exact hplaces
  · intro i a
    rw [List.mem_map]
    constructor
    · rintro ⟨⟨b, j⟩, hmem, heq⟩
      cases heq
      exact List.mem_zipIdx_iff_getElem?.mp hmem
    · intro hget
      exact ⟨(a, i), List.mem_zipIdx_iff_getElem?.mpr hget, rfl⟩

/-- Nodes in order, and at each node its items in order, give all items in order. -/
theorem flatMap {stands : List Nat → α → Prop} (h : InOrder stands items) {f : α → List β}
    {inner : α → Nat → β → Prop} (hinner : ∀ a ∈ items, InOrder (inner a) (f a)) :
    InOrder (fun (s : Spot) b => ∃ a, stands s.node a ∧ inner a s.place b) (items.flatMap f) := by
  obtain ⟨places, rfl, horder, hmem⟩ := h
  have hall : ∀ p ∈ places, InOrder (inner p.2) (f p.2) :=
    fun p hp => hinner p.2 (List.mem_map_of_mem hp)
  choose! at? hitems hsorted hat using hall
  refine ⟨places.flatMap fun p => (at? p).map fun q => (⟨p.1, q.1⟩, q.2), ?_, ?_, ?_⟩
  · rw [List.map_flatMap, List.flatMap_map]
    refine List.flatMap_congr fun p hp => ?_
    rw [List.map_map]
    exact hitems p hp
  · rw [List.pairwise_flatMap]
    constructor
    · intro p hp
      rw [List.pairwise_map]
      exact (hsorted p hp).imp fun hlt => .inr ⟨rfl, hlt⟩
    · refine horder.imp fun {p q} hlt x hx y hy => ?_
      obtain ⟨_, -, rfl⟩ := List.mem_map.mp hx
      obtain ⟨_, -, rfl⟩ := List.mem_map.mp hy
      exact .inl hlt
  · rintro ⟨path, k⟩ b
    rw [List.mem_flatMap]
    constructor
    · rintro ⟨⟨path', a⟩, hp, hb⟩
      obtain ⟨⟨k', b'⟩, hq, heq⟩ := List.mem_map.mp hb
      cases heq
      exact ⟨a, (hmem path' a).mp hp, (hat _ hp k' b').mp hq⟩
    · rintro ⟨a, hstands, hb⟩
      have hp := (hmem path a).mpr hstands
      exact ⟨(path, a), hp, List.mem_map.mpr ⟨(k, b), (hat _ hp k b).mpr hb, rfl⟩⟩

end InOrder

namespace SyntaxTree.Focus

/-! ### The way to a named node -/

/-- The way from a node to a named node below it, child by child and through named nodes only. -/
inductive NamedAt : Focus → List Nat → Focus → Prop
  /-- The node itself. -/
  | here {f : Focus} : NamedAt f [] f
  /-- Through a named child. -/
  | deeper {f g : Focus} {i : Nat} {path : List Nat} {child : Node} :
      f.node.children[i]? = some child → child.named = true → NamedAt (f.down child) path g →
      NamedAt f (i :: path) g

/-- The way through one of the given children, the first of which has the place `k`. -/
def NamedFrom (f : Focus) (k : Nat) (children : List Node) (path : List Nat) (g : Focus) : Prop :=
  ∃ i rest child, path = (k + i) :: rest ∧ children[i]? = some child ∧ child.named = true ∧
    NamedAt (f.down child) rest g

variable {f g : Focus} {path : List Nat}

theorem namedAt_iff : NamedAt f path g ↔ path = [] ∧ g = f ∨ NamedFrom f 0 f.node.children path g := by
  constructor
  · intro h
    cases h with
    | here => exact .inl ⟨rfl, rfl⟩
    | @deeper _ _ i path child hchild hnamed hrest =>
        exact .inr ⟨i, path, child, by rw [Nat.zero_add], hchild, hnamed, hrest⟩
  · rintro (⟨rfl, rfl⟩ | ⟨i, rest, child, rfl, hchild, hnamed, hrest⟩)
    · exact .here
    · rw [Nat.zero_add]
      exact .deeper hchild hnamed hrest

/-- The way goes through the first child or through another one. -/
theorem namedFrom_cons_iff {k : Nat} {child : Node} {children : List Node} :
    NamedFrom f k (child :: children) path g ↔
      (∃ rest, path = k :: rest ∧ child.named = true ∧ NamedAt (f.down child) rest g) ∨
      NamedFrom f (k + 1) children path g := by
  constructor
  · rintro ⟨i, rest, c, rfl, hchild, hc⟩
    cases i with
    | zero =>
        cases hchild
        exact .inl ⟨rest, rfl, hc⟩
    | succ i => exact .inr ⟨i, rest, c, by rw [Nat.add_assoc, Nat.add_comm 1 i], hchild, hc⟩
  · rintro (⟨rest, rfl, hc⟩ | ⟨i, rest, c, rfl, hchild, hc⟩)
    · exact ⟨0, rest, child, rfl, rfl, hc⟩
    · exact ⟨i + 1, rest, c, by rw [Nat.add_assoc, Nat.add_comm 1 i], hchild, hc⟩

mutual

theorem lists_walkFrom : ∀ (node : Node) (ancestors : List Node),
    Lists (NamedAt ⟨node, ancestors⟩) (walkFrom ancestors node)
  | ⟨type, named, start, stop, field, children⟩, ancestors => by
      have hbelow := lists_walkAll children
        ⟨⟨type, named, start, stop, field, children⟩, ancestors⟩ 0
      refine ((Lists.single _).append hbelow ?_).congr fun _ _ => namedAt_iff.symm
      rintro _ _ _ _ ⟨rfl, -⟩ ⟨i, rest, _, rfl, -⟩
      exact List.nil_lt_cons _ _

theorem lists_walkAll : ∀ (children : List Node) (f : Focus) (k : Nat),
    Lists (NamedFrom f k children) (walkAll (f.node :: f.ancestors) children)
  | [], _, _ => .nil fun _ _ ⟨_, _, _, _, hchild, _⟩ => nomatch hchild
  | child :: rest, f, k => by
      have hrest := lists_walkAll rest f (k + 1)
      have hfirst : Lists (fun path g => child.named = true ∧ NamedAt (f.down child) path g)
          (if child.named then walkFrom (f.node :: f.ancestors) child else []) := by
        by_cases hnamed : child.named = true
        · rw [if_pos hnamed]
          simp only [hnamed, true_and]
          exact lists_walkFrom child (f.node :: f.ancestors)
        · rw [if_neg hnamed]
          exact .nil fun _ _ h => hnamed h.1
      refine ((hfirst.step k).append hrest ?_).congr fun _ _ => namedFrom_cons_iff.symm
      rintro _ _ _ _ ⟨path, rfl, -⟩ ⟨i, path', _, rfl, -⟩
      exact List.cons_lt_cons_iff.mpr (.inl (by omega))

end

/-- The walk lists the named nodes that are reached through named nodes, in the order of the ways to
them and each once. -/
theorem lists_walk (root : Node) : Lists (NamedAt (.root root)) (walk root) := lists_walkFrom root []

/-! ### The walk with a stack -/

/-- What is visited from a stack of nodes: the last node is taken off and visited, and its named children
are put on in reverse order. -/
inductive Visits : List Focus → List Focus → Prop
  | done : Visits [] []
  | visit {stack visited : List Focus} {f : Focus} :
      Visits (stack ++ f.namedChildren.reverse) visited → Visits (stack ++ [f]) (f :: visited)

theorem Visits.unique {stack visited visited' : List Focus} (h : Visits stack visited)
    (h' : Visits stack visited') : visited = visited' := by
  induction h generalizing visited' with
  | done =>
      generalize hs : ([] : List Focus) = stack at h'
      cases h' with
      | done => rfl
      | visit => simp at hs
  | @visit stack visited f _ ih =>
      generalize hs : stack ++ [f] = stack' at h'
      cases h' with
      | done => simp at hs
      | visit h' =>
          obtain ⟨rfl, heq⟩ := List.append_inj' hs rfl
          cases heq
          rw [ih h']

mutual

/-- The last node of a stack is visited with all that is below it before the rest of the stack. -/
theorem Visits.walkFrom : ∀ (node : Node) (ancestors : List Node) {stack visited : List Focus},
    Visits stack visited →
      Visits (stack ++ [⟨node, ancestors⟩]) (Focus.walkFrom ancestors node ++ visited)
  | ⟨type, named, start, stop, field, children⟩, ancestors, _, _, h =>
      .visit (Visits.walkAll children ⟨⟨type, named, start, stop, field, children⟩, ancestors⟩ h)

theorem Visits.walkAll : ∀ (children : List Node) (f : Focus) {stack visited : List Focus},
    Visits stack visited →
      Visits (stack ++ ((children.filter (·.named)).map f.down).reverse)
        (Focus.walkAll (f.node :: f.ancestors) children ++ visited)
  | [], _, stack, _, h => by
      rw [List.filter_nil, List.map_nil, List.reverse_nil, List.append_nil]
      exact h
  | child :: rest, f, stack, visited, h => by
      have hrest := Visits.walkAll rest f h
      unfold Focus.walkAll
      by_cases hnamed : child.named = true
      · have hchild := Visits.walkFrom child (f.node :: f.ancestors) hrest
        rw [List.append_assoc] at hchild
        rw [if_pos hnamed, List.filter_cons_of_pos hnamed, List.map_cons, List.reverse_cons,
          List.append_assoc]
        exact hchild
      · rw [if_neg hnamed, List.filter_cons_of_neg hnamed, List.nil_append]
        exact hrest

end

/-- A walk with a stack ends, and it visits what the walk lists. -/
theorem visits_iff (root : Node) {visited : List Focus} :
    Visits [.root root] visited ↔ visited = walk root := by
  have hwalk : Visits [.root root] (walk root) := by
    have hroot := Visits.walkFrom root [] .done
    rw [List.append_nil] at hroot
    exact hroot
  constructor
  · intro h
    exact h.unique hwalk
  · rintro rfl
    exact hwalk

end SyntaxTree.Focus

end PluginManifest
