import PluginManifest.Proofs.Faults
import Mathlib.Data.List.Lex

/-! # Unions and their alternatives

The alternatives of a union are its leaves: the types that are no unions, reached through unions.
`LeafAt` tells the way to a leaf by the places of the children on it, and the alternatives are listed in
the order of these ways, each once (`lists_unionMembers`).  What a union says about a property depends on
the kinds of its alternatives (`inferType_union_iff`, `isOptional_union_iff`), and the kind of an
alternative on how it is written (`kind_congr`), so neither nesting nor order matter. -/

namespace PluginManifest

namespace SyntaxTree

/-! ### Kinds and spellings -/

/-- How a part of a node is written. -/
structure Part where
  /-- The rule or the token. -/
  type : String
  /-- The part stands for a rule. -/
  named : Bool
  /-- The role of the part. -/
  field : Option String
  /-- The text. -/
  text : Text
deriving DecidableEq

/-- How a node is written, wherever it stands. -/
structure Spelling where
  /-- The rule or the token. -/
  type : String
  /-- The node stands for a rule. -/
  named : Bool
  /-- The text. -/
  text : Text
  /-- The children. -/
  parts : List Part
deriving DecidableEq

/-- A node as a part of its parent. -/
def Node.part (source : Bytes) (n : Node) : Part := ⟨n.type, n.named, n.field, n.text source⟩

/-- How a node is written. -/
def Node.spelling (source : Bytes) (n : Node) : Spelling :=
  ⟨n.type, n.named, n.text source, n.children.map (Node.part source)⟩

namespace Focus

variable {source source' : Bytes} {f g : Focus}

theorem ofTypeText_ne_unionType (t : Text) : Kind.ofTypeText t ≠ .unionType := by
  have hnone : ∀ entry ∈ Kind.ofKeyword, entry.2 ≠ .unionType := by decide
  unfold Kind.ofTypeText
  dsimp only
  split
  · rename_i word kind hfind
    exact hnone (word, kind) (List.mem_of_find?_eq_some hfind)
  · decide

theorem literalKind_ne_unionType (f : Focus) : f.literalKind ≠ .unionType := by
  unfold literalKind
  split
  · split_ifs <;> decide
  · decide

/-- The kind of a method in terms of the text of its name and the keyword before it. -/
theorem methodKind_eq (source : Bytes) (f : Focus) : f.methodKind source =
    if ((f.child? "name").map (·.text source)).any (· = Text.ofString "constructor") &&
        (f.node.type == "method_definition" || f.parentType? == some "class_body") then .constructor
    else
      match (f.node.children.find? fun c => !c.named && (c.type == "get" || c.type == "set")).map
        Node.type with
      | some keyword => if keyword == "get" then .getAccessor else .setAccessor
      | none =>
        if !(f.node.type == "method_definition") && !(f.parentType? == some "class_body") then
          .methodSignature
        else .methodDeclaration := by
  unfold methodKind
  cases f.child? "name" <;>
    cases f.node.children.find? fun c => !c.named && (c.type == "get" || c.type == "set") <;> rfl

theorem methodKind_ne_unionType (source : Bytes) (f : Focus) : f.methodKind source ≠ .unionType := by
  rw [methodKind_eq]
  split
  · decide
  · split
    · split <;> decide
    · split <;> decide

theorem type_of_ofRule_eq_unionType {type : String}
    (h : (Kind.ofRule.lookup type).getD .unknown = .unionType) : type = "union_type" := by
  have hrules : ∀ entry ∈ Kind.ofRule, entry.2 = .unionType → entry.1 = "union_type" := by decide
  cases hlookup : Kind.ofRule.lookup type with
  | none =>
      rw [hlookup] at h
      cases h
  | some kind =>
      rw [hlookup, Option.getD_some] at h
      obtain ⟨before, after, hsplit, -⟩ := List.lookup_eq_some_iff.mp hlookup
      have hmem : (type, kind) ∈ Kind.ofRule := by
        rw [hsplit]
        simp
      exact hrules _ hmem h

/-- Unions are told by their rule. -/
theorem type_of_kind_eq_unionType (h : f.kind source = .unionType) : f.node.type = "union_type" := by
  unfold kind at h
  dsimp only at h
  rcases ite_eq_iff.mp h with ⟨-, h⟩ | ⟨-, h⟩
  · cases h
  rcases ite_eq_iff.mp h with ⟨-, h⟩ | ⟨-, h⟩
  · exact absurd h (ofTypeText_ne_unionType _)
  rcases ite_eq_iff.mp h with ⟨-, h⟩ | ⟨-, h⟩
  · exact absurd h (literalKind_ne_unionType f)
  rcases ite_eq_iff.mp h with ⟨-, h⟩ | ⟨-, h⟩
  · cases h
  rcases ite_eq_iff.mp h with ⟨-, h⟩ | ⟨-, h⟩
  · exact absurd h (methodKind_ne_unionType source f)
  rcases ite_eq_iff.mp h with ⟨-, h⟩ | ⟨-, h⟩
  · rcases ite_eq_iff.mp h with ⟨-, h⟩ | ⟨-, h⟩ <;> cases h
  rcases ite_eq_iff.mp h with ⟨-, h⟩ | ⟨-, h⟩
  · rcases ite_eq_iff.mp h with ⟨-, h⟩ | ⟨-, h⟩
    · cases h
    rcases ite_eq_iff.mp h with ⟨-, h⟩ | ⟨-, h⟩
    · cases h
    exact type_of_ofRule_eq_unionType h
  exact type_of_ofRule_eq_unionType h

theorem find?_children_congr (h : f.node.spelling source = g.node.spelling source') (p : Part → Bool) :
    (f.node.children.find? fun c => p (c.part source)).map (Node.part source) =
      (g.node.children.find? fun c => p (c.part source')).map (Node.part source') := by
  have hparts : f.node.children.map (Node.part source) = g.node.children.map (Node.part source') :=
    congrArg Spelling.parts h
  have hfind := congrArg (List.find? p) hparts
  rwa [List.find?_map, List.find?_map] at hfind

theorem literalKind_congr (h : f.node.spelling source = g.node.spelling source') :
    f.literalKind = g.literalKind := by
  have hfirst : f.node.namedChildren.head?.map (Node.part source) =
      g.node.namedChildren.head?.map (Node.part source') := by
    rw [Node.namedChildren, Node.namedChildren, List.head?_filter, List.head?_filter]
    exact find?_children_congr h Part.named
  unfold literalKind
  cases hf : f.node.namedChildren.head? with
  | none =>
      rw [hf, Option.map_none, eq_comm, Option.map_eq_none_iff] at hfirst
      rw [hfirst]
  | some c =>
      rw [hf, Option.map_some, eq_comm, Option.map_eq_some_iff] at hfirst
      obtain ⟨d, hg, hpart⟩ := hfirst
      have htype : d.type = c.type := congrArg Part.type hpart
      rw [hg]
      dsimp only
      rw [htype]

theorem methodKind_congr (h : f.node.spelling source = g.node.spelling source')
    (hparent : f.parentType? = g.parentType?) : f.methodKind source = g.methodKind source' := by
  have htype : f.node.type = g.node.type := congrArg Spelling.type h
  have hname : (f.child? "name").map (·.text source) = (g.child? "name").map (·.text source') := by
    have hfind := congrArg (Option.map Part.text)
      (find?_children_congr h fun part => part.field == some "name")
    rw [Option.map_map, Option.map_map] at hfind
    rw [child?, child?, Option.map_map, Option.map_map]
    exact hfind
  have hkeyword :
      (f.node.children.find? fun c => !c.named && (c.type == "get" || c.type == "set")).map Node.type =
      (g.node.children.find? fun c => !c.named && (c.type == "get" || c.type == "set")).map
        Node.type := by
    have hfind := congrArg (Option.map Part.type)
      (find?_children_congr h fun part => !part.named && (part.type == "get" || part.type == "set"))
    rwa [Option.map_map, Option.map_map] at hfind
  rw [methodKind_eq, methodKind_eq, htype, hparent, hname, hkeyword]

/-- The kind of a node depends on how it is written and on the rule of its parent. -/
theorem kind_congr (h : f.node.spelling source = g.node.spelling source')
    (hparent : f.parentType? = g.parentType?) : f.kind source = g.kind source' := by
  have htype : f.node.type = g.node.type := congrArg Spelling.type h
  have hnamed : f.node.named = g.node.named := congrArg Spelling.named h
  have htext : f.text source = g.text source' := congrArg Spelling.text h
  unfold kind
  rw [htype, hnamed, htext, hparent, literalKind_congr h, methodKind_congr h hparent]

/-! ### Leaves -/

/-- The way from a union to one of its leaves, child by child. -/
inductive LeafAt (source : Bytes) : Focus → List Nat → Focus → Prop
  /-- A child that is no union. -/
  | here {f : Focus} {i : Nat} {child : Node} : f.node.children[i]? = some child →
      child.named = true → child.isComment = false → (f.down child).kind source ≠ .unionType →
      LeafAt source f [i] (f.down child)
  /-- A leaf of a union among the children. -/
  | deeper {f leaf : Focus} {i : Nat} {path : List Nat} {child : Node} :
      f.node.children[i]? = some child → child.named = true → child.isComment = false →
      (f.down child).kind source = .unionType → LeafAt source (f.down child) path leaf →
      LeafAt source f (i :: path) leaf

/-- The leaves of a union are its alternatives, and so their parents are unions. -/
theorem LeafAt.parentType? {path : List Nat} (h : LeafAt source f path g)
    (hf : f.kind source = .unionType) : g.parentType? = some "union_type" := by
  induction h with
  | here _ _ _ _ => exact congrArg some (type_of_kind_eq_unionType hf)
  | deeper _ _ _ hunion _ ih => exact ih hunion

/-- The leaves are listed in the order of the ways to them, each once. -/
def Lists (way : List Nat → Focus → Prop) (leaves : List Focus) : Prop :=
  ∃ places : List (List Nat × Focus), places.map Prod.snd = leaves ∧
    places.Pairwise (fun p q => p.1 < q.1) ∧ ∀ path leaf, (path, leaf) ∈ places ↔ way path leaf

namespace Lists

variable {way way' : List Nat → Focus → Prop} {leaves leaves' : List Focus}

theorem congr (h : Lists way leaves) (hway : ∀ path leaf, way path leaf ↔ way' path leaf) :
    Lists way' leaves := by
  obtain ⟨places, hleaves, horder, hmem⟩ := h
  exact ⟨places, hleaves, horder, fun path leaf => (hmem path leaf).trans (hway path leaf)⟩

theorem nil (h : ∀ path leaf, ¬ way path leaf) : Lists way [] :=
  ⟨[], rfl, .nil, fun path leaf => ⟨nofun, fun hway => absurd hway (h path leaf)⟩⟩

theorem single (leaf : Focus) : Lists (fun path l => path = [] ∧ l = leaf) [leaf] :=
  ⟨[([], leaf)], rfl, List.pairwise_singleton _ _, by simp⟩

/-- One step before all ways. -/
theorem step (h : Lists way leaves) (i : Nat) :
    Lists (fun path leaf => ∃ rest, path = i :: rest ∧ way rest leaf) leaves := by
  obtain ⟨places, hleaves, horder, hmem⟩ := h
  refine ⟨places.map fun p => (i :: p.1, p.2), ?_, ?_, ?_⟩
  · rw [List.map_map]
    exact hleaves
  · rw [List.pairwise_map]
    exact horder.imp fun hlt => List.cons_lt_cons_iff.mpr (.inr ⟨rfl, hlt⟩)
  · intro path leaf
    rw [List.mem_map]
    constructor
    · rintro ⟨⟨rest, l⟩, hplace, heq⟩
      cases heq
      exact ⟨rest, rfl, (hmem rest l).mp hplace⟩
    · rintro ⟨rest, rfl, hway⟩
      exact ⟨(rest, leaf), (hmem rest leaf).mpr hway, rfl⟩

theorem append (h : Lists way leaves) (h' : Lists way' leaves')
    (horder : ∀ path leaf path' leaf', way path leaf → way' path' leaf' → path < path') :
    Lists (fun path leaf => way path leaf ∨ way' path leaf) (leaves ++ leaves') := by
  obtain ⟨places, rfl, hplaces, hmem⟩ := h
  obtain ⟨places', rfl, hplaces', hmem'⟩ := h'
  refine ⟨places ++ places', List.map_append, ?_, fun path leaf => ?_⟩
  · refine List.pairwise_append.mpr ⟨hplaces, hplaces', ?_⟩
    rintro ⟨path, leaf⟩ hp ⟨path', leaf'⟩ hp'
    exact horder path leaf path' leaf' ((hmem path leaf).mp hp) ((hmem' path' leaf').mp hp')
  · rw [List.mem_append, hmem, hmem']

theorem mem_iff (h : Lists way leaves) {leaf : Focus} : leaf ∈ leaves ↔ ∃ path, way path leaf := by
  obtain ⟨places, rfl, -, hmem⟩ := h
  rw [List.mem_map]
  constructor
  · rintro ⟨⟨path, l⟩, hplace, rfl⟩
    exact ⟨path, (hmem path l).mp hplace⟩
  · rintro ⟨path, hway⟩
    exact ⟨(path, leaf), (hmem path leaf).mpr hway, rfl⟩

/-- Exactly one of the listed leaves is of a sort exactly if there is one way to a leaf of the sort. -/
theorem filter_eq_singleton_iff (h : Lists way leaves) (p : Focus → Bool) {leaf : Focus} :
    leaves.filter p = [leaf] ↔ p leaf = true ∧ ∃ path, way path leaf ∧
      ∀ path' leaf', way path' leaf' → p leaf' = true → path' = path := by
  obtain ⟨places, rfl, horder, hmem⟩ := h
  rw [List.filter_map, List.map_eq_singleton_iff]
  constructor
  · rintro ⟨⟨path, l⟩, hfilter, rfl⟩
    have hsort : ∀ {path' : List Nat} {leaf' : Focus}, way path' leaf' ∧ p leaf' = true ↔
        path' = path ∧ leaf' = l := by
      intro path' leaf'
      have hfound : (path', leaf') ∈ places.filter (p ∘ Prod.snd) ↔ (path', leaf') = (path, l) := by
        rw [hfilter, List.mem_singleton]
      rwa [List.mem_filter, hmem, Prod.mk.injEq] at hfound
    obtain ⟨hway, hp⟩ := hsort.mpr ⟨rfl, rfl⟩
    exact ⟨hp, path, hway, fun path' leaf' hway' hp' => (hsort.mp ⟨hway', hp'⟩).1⟩
  · rintro ⟨hp, path, hway, hunique⟩
    have hfirst : (path, leaf) ∈ places.filter (p ∘ Prod.snd) :=
      List.mem_filter.mpr ⟨(hmem path leaf).mpr hway, hp⟩
    have hpath : ∀ q ∈ places.filter (p ∘ Prod.snd), q.1 = path := by
      rintro ⟨path', leaf'⟩ hq
      obtain ⟨hplace, hp'⟩ := List.mem_filter.mp hq
      exact hunique path' leaf' ((hmem path' leaf').mp hplace) hp'
    have hsorted := horder.filter (p ∘ Prod.snd)
    refine ⟨(path, leaf), ?_, rfl⟩
    generalize places.filter (p ∘ Prod.snd) = found at hfirst hpath hsorted
    -- Two places found would have one path.
    match found with
    | [] => cases hfirst
    | [q] => rw [List.mem_singleton.mp hfirst]
    | q :: r :: rest =>
        have hlt : q.1 < r.1 := (List.pairwise_cons.mp hsorted).1 r List.mem_cons_self
        rw [hpath q (by simp), hpath r (by simp)] at hlt
        exact absurd hlt (List.lt_irrefl path)

end Lists

/-- The way to a leaf from one of the given children on, the first of which has the place `k`. -/
def LeafFrom (source : Bytes) (f : Focus) (k : Nat) (children : List Node) (path : List Nat)
    (leaf : Focus) : Prop :=
  ∃ i rest child, path = (k + i) :: rest ∧ children[i]? = some child ∧ child.named = true ∧
    child.isComment = false ∧
    if (f.down child).kind source = .unionType then LeafAt source (f.down child) rest leaf
    else rest = [] ∧ leaf = f.down child

theorem leafAt_iff {path : List Nat} {leaf : Focus} :
    LeafAt source f path leaf ↔ LeafFrom source f 0 f.node.children path leaf := by
  constructor
  · intro h
    cases h with
    | @here _ i child hchild hnamed hcomment hkind =>
        refine ⟨i, [], child, by rw [Nat.zero_add], hchild, hnamed, hcomment, ?_⟩
        rw [if_neg hkind]
        exact ⟨rfl, rfl⟩
    | @deeper _ _ i path child hchild hnamed hcomment hkind hleaf =>
        refine ⟨i, path, child, by rw [Nat.zero_add], hchild, hnamed, hcomment, ?_⟩
        rwa [if_pos hkind]
  · rintro ⟨i, rest, child, rfl, hchild, hnamed, hcomment, hrest⟩
    rw [Nat.zero_add]
    split_ifs at hrest with hkind
    · exact .deeper hchild hnamed hcomment hkind hrest
    · obtain ⟨rfl, rfl⟩ := hrest
      exact .here hchild hnamed hcomment hkind

/-- The way goes through the first child or through another one. -/
theorem leafFrom_cons_iff {k : Nat} {child : Node} {children : List Node} {path : List Nat}
    {leaf : Focus} : LeafFrom source f k (child :: children) path leaf ↔
      (∃ rest, path = k :: rest ∧ child.named = true ∧ child.isComment = false ∧
        if (f.down child).kind source = .unionType then LeafAt source (f.down child) rest leaf
        else rest = [] ∧ leaf = f.down child) ∨
      LeafFrom source f (k + 1) children path leaf := by
  constructor
  · rintro ⟨i, rest, c, rfl, hchild, hc⟩
    cases i with
    | zero =>
        cases hchild
        exact .inl ⟨rest, rfl, hc⟩
    | succ i =>
        exact .inr ⟨i, rest, c, by rw [Nat.add_assoc, Nat.add_comm 1 i], hchild, hc⟩
  · rintro (⟨rest, rfl, hc⟩ | ⟨i, rest, c, rfl, hchild, hc⟩)
    · exact ⟨0, rest, child, rfl, rfl, hc⟩
    · exact ⟨i + 1, rest, c, by rw [Nat.add_assoc, Nat.add_comm 1 i], hchild, hc⟩

end Focus

end SyntaxTree

namespace Item

open Source SyntaxTree SyntaxTree.Focus

variable {source : Bytes}

mutual

theorem lists_unionLeaves : ∀ (node : Node) (ancestors : List Node),
    Lists (LeafAt source ⟨node, ancestors⟩) (unionLeaves source ancestors node)
  | ⟨type, named, start, stop, field, children⟩, ancestors =>
      (lists_unionLeavesOf children ⟨⟨type, named, start, stop, field, children⟩, ancestors⟩ 0).congr
        fun _ _ => leafAt_iff.symm

theorem lists_unionLeavesOf : ∀ (children : List Node) (f : Focus) (k : Nat),
    Lists (LeafFrom source f k children) (unionLeavesOf source (f.node :: f.ancestors) children)
  | [], _, _ => .nil fun _ _ ⟨_, _, _, _, hchild, _⟩ => nomatch hchild
  | child :: rest, f, k => by
      have hrest := lists_unionLeavesOf rest f (k + 1)
      have hfirst : Lists (fun path leaf => child.named = true ∧ child.isComment = false ∧
          if (f.down child).kind source = .unionType then LeafAt source (f.down child) path leaf
          else path = [] ∧ leaf = f.down child)
          (if child.named && !child.isComment then
            if (f.down child).kind source = .unionType then
              unionLeaves source (f.node :: f.ancestors) child
            else [f.down child]
          else []) := by
        by_cases hsignificant : child.named = true ∧ child.isComment = false
        · rw [if_pos (by simp [hsignificant])]
          by_cases hkind : (f.down child).kind source = .unionType
          · simp only [hsignificant, hkind, if_true, true_and]
            exact lists_unionLeaves child (f.node :: f.ancestors)
          · simp only [hsignificant, hkind, if_false, true_and]
            exact .single _
        · rw [if_neg (by simpa using hsignificant)]
          exact .nil fun _ _ h => hsignificant ⟨h.1, h.2.1⟩
      refine ((hfirst.step k).append hrest ?_).congr fun _ _ => leafFrom_cons_iff.symm
      rintro _ _ _ _ ⟨path, rfl, -⟩ ⟨i, path', _, rfl, -⟩
      exact List.cons_lt_cons_iff.mpr (.inl (by omega))

end

/-- The alternatives of a union are its leaves, in order and each once. -/
theorem lists_unionMembers (f : Focus) : Lists (LeafAt source f) (unionMembers source f) :=
  lists_unionLeaves f.node f.ancestors

/-! ### Property types -/

/-- The keyword types and the property types that they stand for. -/
inductive Primitive : SyntaxTree.Kind → Text → Prop
  | string : Primitive .stringKeyword "text"
  | number : Primitive .numberKeyword "number"
  | boolean : Primitive .booleanKeyword "boolean"

theorem primitiveType?_eq_some_iff {kind : SyntaxTree.Kind} {t : Text} :
    primitiveType? kind = some t ↔ Primitive kind t := by
  constructor
  · intro h
    unfold primitiveType? at h
    split at h
    · cases h
      exact .string
    · cases h
      exact .number
    · cases h
      exact .boolean
    · cases h
  · rintro (_ | _ | _) <;> rfl

section types

variable {ε : Type} {file : File} {member type leaf : Focus} {name t : Text}

/-- The warning that the type of a property is only the default. -/
def typeWarning (file : File) (name : Text) (member : Focus) : Text :=
  (Event.typeDefaulted (file.location member) name).message

theorem warnings_baseType? (file : File) (member : Focus) :
    (baseType? file member : Report ε (Option Focus)).warnings = [] := by
  unfold baseType?
  split
  · rfl
  · split_ifs
    · split
      · rfl
      · rfl
    · rfl

theorem inferType_of_base {base : Option Focus}
    (hbase : (baseType? file member : Report ε (Option Focus)).result = .ok base)
    (ht : (base.bind fun f => primitiveType? (f.kind file.text)) = some t) :
    (inferType file name member : Report ε Text).result = .ok t ∧
      (inferType file name member : Report ε Text).warnings = [] := by
  unfold inferType
  rw [Report.result_bind, hbase, ok_bind, Report.warnings_bind_ok hbase, warnings_baseType?, ht]
  exact ⟨rfl, rfl⟩

theorem inferType_of_base_none {base : Option Focus}
    (hbase : (baseType? file member : Report ε (Option Focus)).result = .ok base)
    (ht : (base.bind fun f => primitiveType? (f.kind file.text)) = none) :
    (inferType file name member : Report ε Text).result = .ok defaultType ∧
      (inferType file name member : Report ε Text).warnings = [typeWarning file name member] := by
  unfold inferType
  rw [Report.result_bind, hbase, ok_bind, Report.warnings_bind_ok hbase, warnings_baseType?, ht]
  exact ⟨rfl, rfl⟩

/-! ### Alternatives that are present -/

theorem not_isAbsent_iff {kind : SyntaxTree.Kind} :
    (!isAbsent kind) = true ↔ kind ≠ .undefinedKeyword ∧ kind ≠ .nullKeyword := by
  unfold isAbsent
  split
  · simp
  · simp
  · rename_i hundefined hnull
    exact ⟨fun _ => ⟨hundefined, hnull⟩, fun _ => rfl⟩

/-- The alternatives that are not absent. -/
def present (source : Bytes) (type : Focus) : List Focus :=
  (unionMembers source type).filter fun t => !isAbsent (t.kind source)

theorem result_baseType?_of_single (hdeclared : declaredType? file member = some type)
    (hunion : type.kind file.text = .unionType) (h : present file.text type = [leaf]) :
    (baseType? file member : Report ε (Option Focus)).result = .ok (some leaf) := by
  unfold present at h
  unfold baseType?
  rw [hdeclared]
  dsimp only
  rw [if_pos hunion, h]
  rfl

theorem result_baseType?_of_not_single (hdeclared : declaredType? file member = some type)
    (hunion : type.kind file.text = .unionType) (h : ∀ leaf, present file.text type ≠ [leaf]) :
    (baseType? file member : Report ε (Option Focus)).result = .ok (some type) := by
  unfold present at h
  unfold baseType?
  rw [hdeclared]
  dsimp only
  rw [if_pos hunion]
  split
  · rename_i single hsingle
    exact absurd hsingle (h single)
  · rfl

section union

variable (hdeclared : declaredType? file member = some type)
  (hunion : type.kind file.text = .unionType)

include hdeclared hunion

/-- Without a single primitive alternative the type is only the default. -/
theorem inferType_union_default
    (h : ∀ leaf u, present file.text type = [leaf] → primitiveType? (leaf.kind file.text) ≠ some u) :
    (inferType file name member : Report ε Text).result = .ok defaultType ∧
      (inferType file name member : Report ε Text).warnings = [typeWarning file name member] := by
  by_cases hsingle : ∃ leaf, present file.text type = [leaf]
  · obtain ⟨leaf, hleaf⟩ := hsingle
    exact inferType_of_base_none (result_baseType?_of_single hdeclared hunion hleaf)
      (Option.eq_none_iff_forall_ne_some.mpr fun u => h leaf u hleaf)
  · rw [not_exists] at hsingle
    refine inferType_of_base_none (result_baseType?_of_not_single hdeclared hunion hsingle) ?_
    rw [Option.bind_some, hunion]
    rfl

theorem inferType_union_iff :
    (inferType file name member : Report ε Text).result = .ok t ∧
      (inferType file name member : Report ε Text).warnings = [] ↔
    ∃ leaf, present file.text type = [leaf] ∧ primitiveType? (leaf.kind file.text) = some t := by
  constructor
  · rintro ⟨hresult, hwarnings⟩
    by_cases hsome : ∃ leaf u, present file.text type = [leaf] ∧
        primitiveType? (leaf.kind file.text) = some u
    · obtain ⟨leaf, u, hleaf, hu⟩ := hsome
      have hinfer : (inferType file name member : Report ε Text).result = .ok u :=
        (inferType_of_base (result_baseType?_of_single hdeclared hunion hleaf) hu).1
      rw [hinfer] at hresult
      cases hresult
      exact ⟨leaf, hleaf, hu⟩
    · have hdefault : (inferType file name member : Report ε Text).warnings =
          [typeWarning file name member] :=
        (inferType_union_default hdeclared hunion fun leaf u hleaf hu =>
          hsome ⟨leaf, u, hleaf, hu⟩).2
      rw [hdefault] at hwarnings
      cases hwarnings
  · rintro ⟨leaf, hleaf, ht⟩
    exact inferType_of_base (result_baseType?_of_single hdeclared hunion hleaf) ht

end union

/-- The member has a question mark. -/
def HasMark (member : Focus) : Prop := ∃ c ∈ member.node.children, c.named = false ∧ c.type = "?"

instance (member : Focus) : Decidable (HasMark member) :=
  inferInstanceAs (Decidable (∃ c ∈ member.node.children, _ ∧ _))

theorem isOptional_union_iff (hdeclared : declaredType? file member = some type)
    (hunion : type.kind file.text = .unionType) : isOptional file member = true ↔
      HasMark member ∨
        SyntaxTree.Kind.undefinedKeyword ∈ (unionMembers file.text type).map (·.kind file.text) := by
  unfold isOptional HasMark
  rw [hdeclared]
  simp [hunion]

/-! ### The same alternatives -/

/-- The alternatives other than `null`. -/
def nonNull (source : Bytes) (type : Focus) : List Focus :=
  (unionMembers source type).filter fun t => t.kind source ≠ .nullKeyword

/-- Two unions have the same alternatives, in any order and with any number of `null`. -/
def SameAlternatives (source : Bytes) (type : Focus) (source' : Bytes) (type' : Focus) : Prop :=
  ∃ reordered, reordered.Perm (nonNull source type) ∧
    List.Forall₂ (fun a b => a.node.spelling source = b.node.spelling source') reordered
      (nonNull source' type')

theorem parentType?_of_mem_nonNull {source : Bytes} (hunion : type.kind source = .unionType)
    (h : leaf ∈ nonNull source type) : leaf.parentType? = some "union_type" := by
  obtain ⟨path, hpath⟩ := (lists_unionMembers type).mem_iff.mp (List.mem_filter.mp h).1
  exact hpath.parentType? hunion

/-- The same alternatives are of the same kinds. -/
theorem SameAlternatives.kinds {source source' : Bytes} {type' : Focus}
    (h : SameAlternatives source type source' type') (hunion : type.kind source = .unionType)
    (hunion' : type'.kind source' = .unionType) :
    ((nonNull source type).map (·.kind source)).Perm
      ((nonNull source' type').map (·.kind source')) := by
  obtain ⟨reordered, hperm, hsame⟩ := h
  have hkinds : reordered.map (·.kind source) = (nonNull source' type').map (·.kind source') := by
    have hparent : ∀ l ∈ reordered, l.parentType? = some "union_type" :=
      fun l hl => parentType?_of_mem_nonNull hunion (hperm.mem_iff.mp hl)
    have hparent' : ∀ l ∈ nonNull source' type', l.parentType? = some "union_type" :=
      fun l hl => parentType?_of_mem_nonNull hunion' hl
    generalize nonNull source' type' = alternatives at hsame hparent'
    clear hperm
    induction hsame with
    | nil => rfl
    | @cons l l' _ _ hspelling _ ih =>
        obtain ⟨hl, hrest⟩ := List.forall_mem_cons.mp hparent
        obtain ⟨hl', hrest'⟩ := List.forall_mem_cons.mp hparent'
        rw [List.map_cons, List.map_cons, kind_congr hspelling (hl.trans hl'.symm), ih hrest hrest']
  rw [← hkinds]
  exact (hperm.map _).symm

theorem undefined_mem_kinds_iff {source : Bytes} :
    SyntaxTree.Kind.undefinedKeyword ∈ (unionMembers source type).map (·.kind source) ↔
      SyntaxTree.Kind.undefinedKeyword ∈ (nonNull source type).map (·.kind source) := by
  simp only [nonNull, List.mem_map, List.mem_filter]
  constructor
  · rintro ⟨leaf, hleaf, hkind⟩
    exact ⟨leaf, ⟨hleaf, by rw [hkind]; decide⟩, hkind⟩
  · rintro ⟨leaf, ⟨hleaf, -⟩, hkind⟩
    exact ⟨leaf, hleaf, hkind⟩

theorem map_kind_present (source : Bytes) (type : Focus) :
    (present source type).map (·.kind source) =
      ((nonNull source type).map (·.kind source)).filter (· ≠ .undefinedKeyword) := by
  rw [List.filter_map, nonNull, List.filter_filter, present]
  congr 1
  refine List.filter_congr fun leaf _ => ?_
  rw [Bool.eq_iff_iff, not_isAbsent_iff]
  simp

/-- The kind of the alternative that is present alone. -/
theorem exists_single_iff {source : Bytes} :
    (∃ leaf, present source type = [leaf] ∧ primitiveType? (leaf.kind source) = some t) ↔
      ∃ kind, (present source type).map (·.kind source) = [kind] ∧ primitiveType? kind = some t := by
  constructor
  · rintro ⟨leaf, hleaf, ht⟩
    exact ⟨leaf.kind source, by rw [hleaf, List.map_singleton], ht⟩
  · rintro ⟨kind, hkind, ht⟩
    obtain ⟨leaf, hleaf, rfl⟩ := List.map_eq_singleton_iff.mp hkind
    exact ⟨leaf, hleaf, ht⟩

/-- The same alternatives say the same. -/
theorem SameAlternatives.exists_single_iff {source source' : Bytes} {type' : Focus}
    (h : SameAlternatives source type source' type') (hunion : type.kind source = .unionType)
    (hunion' : type'.kind source' = .unionType) :
    (∃ leaf, present source type = [leaf] ∧ primitiveType? (leaf.kind source) = some t) ↔
      ∃ leaf, present source' type' = [leaf] ∧ primitiveType? (leaf.kind source') = some t := by
  have hkinds := (h.kinds hunion hunion').filter (· ≠ .undefinedKeyword)
  rw [← map_kind_present, ← map_kind_present] at hkinds
  rw [Item.exists_single_iff, Item.exists_single_iff]
  constructor
  · rintro ⟨kind, hkind, ht⟩
    rw [hkind] at hkinds
    exact ⟨kind, List.perm_singleton.mp hkinds.symm, ht⟩
  · rintro ⟨kind, hkind, ht⟩
    rw [hkind] at hkinds
    exact ⟨kind, List.perm_singleton.mp hkinds, ht⟩

/-- Exactly one alternative is neither `undefined` nor `null`, and it is the given one. -/
def IsOnly (source : Bytes) (type leaf : Focus) : Prop :=
  (leaf.kind source ≠ .undefinedKeyword ∧ leaf.kind source ≠ .nullKeyword) ∧
    ∃ path, LeafAt source type path leaf ∧ ∀ path' leaf', LeafAt source type path' leaf' →
      leaf'.kind source ≠ .undefinedKeyword ∧ leaf'.kind source ≠ .nullKeyword → path' = path

theorem isOnly_iff {source : Bytes} : IsOnly source type leaf ↔ present source type = [leaf] := by
  unfold present IsOnly
  rw [(lists_unionMembers type).filter_eq_singleton_iff]
  simp only [not_isAbsent_iff]

theorem undefined_mem_iff {source : Bytes} :
    SyntaxTree.Kind.undefinedKeyword ∈ (unionMembers source type).map (·.kind source) ↔
      ∃ path leaf, LeafAt source type path leaf ∧ leaf.kind source = .undefinedKeyword := by
  rw [List.mem_map]
  constructor
  · rintro ⟨leaf, hleaf, hkind⟩
    obtain ⟨path, hpath⟩ := (lists_unionMembers type).mem_iff.mp hleaf
    exact ⟨path, leaf, hpath, hkind⟩
  · rintro ⟨path, leaf, hpath, hkind⟩
    exact ⟨leaf, (lists_unionMembers type).mem_iff.mpr ⟨path, hpath⟩, hkind⟩

/-- The same alternatives lead to the same type, and both to a warning or none. -/
theorem SameAlternatives.inferType_eq {file' : File} {member' type' : Focus} {name' : Text}
    (h : SameAlternatives file.text type file'.text type')
    (hdeclared : declaredType? file member = some type) (hunion : type.kind file.text = .unionType)
    (hdeclared' : declaredType? file' member' = some type')
    (hunion' : type'.kind file'.text = .unionType) :
    (inferType file name member : Report ε Text).result =
        (inferType file' name' member' : Report ε Text).result ∧
      ((inferType file name member : Report ε Text).warnings = [] ↔
        (inferType file' name' member' : Report ε Text).warnings = []) := by
  have hboth : ∀ t, (∃ leaf, present file.text type = [leaf] ∧
      primitiveType? (leaf.kind file.text) = some t) ↔ ∃ leaf, present file'.text type' = [leaf] ∧
      primitiveType? (leaf.kind file'.text) = some t :=
    fun t => h.exists_single_iff hunion hunion'
  by_cases hsome : ∃ t leaf, present file.text type = [leaf] ∧
      primitiveType? (leaf.kind file.text) = some t
  · obtain ⟨t, ht⟩ := hsome
    obtain ⟨hresult, hwarnings⟩ := (inferType_union_iff hdeclared hunion).mpr ht
    obtain ⟨hresult', hwarnings'⟩ := (inferType_union_iff hdeclared' hunion').mpr ((hboth t).mp ht)
    rw [hresult, hresult', hwarnings, hwarnings']
    exact ⟨rfl, Iff.rfl⟩
  · obtain ⟨hresult, hwarnings⟩ := inferType_union_default hdeclared hunion
      fun leaf t hleaf ht => hsome ⟨t, leaf, hleaf, ht⟩
    obtain ⟨hresult', hwarnings'⟩ := inferType_union_default hdeclared' hunion'
      fun leaf t hleaf ht => hsome ⟨t, (hboth t).mpr ⟨leaf, hleaf, ht⟩⟩
    rw [hresult, hresult', hwarnings, hwarnings']
    simp

end types

/-- **A union is classified by its alternatives alone.**  They are its leaves in the order of the text, each
once; they tell whether the member may be left out, and its type; and members whose unions have the same
alternatives, up to their order and to `null`, are classified alike. -/
theorem classified_by_alternatives {file : File} {member type : Focus}
    (hdeclared : declaredType? file member = some type)
    (hunion : type.kind file.text = .unionType) :
    Lists (LeafAt file.text type) (unionMembers file.text type) ∧
    (isOptional file member = true ↔ HasMark member ∨
      ∃ path leaf, LeafAt file.text type path leaf ∧ leaf.kind file.text = .undefinedKeyword) ∧
    (∀ (ε : Type) (name t : Text),
      let report : Report ε Text := inferType file name member
      ((report.result = .ok t ∧ report.warnings = []) ↔
        ∃ leaf, IsOnly file.text type leaf ∧ Primitive (leaf.kind file.text) t) ∧
      ((∀ leaf u, IsOnly file.text type leaf → ¬ Primitive (leaf.kind file.text) u) →
        report.result = .ok "text" ∧ report.warnings = [typeWarning file name member])) ∧
    ∀ (file' : File) (member' type' : Focus), declaredType? file' member' = some type' →
      type'.kind file'.text = .unionType → (HasMark member ↔ HasMark member') →
      SameAlternatives file.text type file'.text type' →
      isOptional file member = isOptional file' member' ∧
      ∀ (ε : Type) (name name' : Text),
        let report : Report ε Text := inferType file name member
        let report' : Report ε Text := inferType file' name' member'
        report.result = report'.result ∧ (report.warnings = [] ↔ report'.warnings = []) := by
  refine ⟨lists_unionMembers type, ?_, ?_, ?_⟩
  · rw [isOptional_union_iff hdeclared hunion, undefined_mem_iff]
  · intro ε name t
    dsimp only
    constructor
    · rw [inferType_union_iff hdeclared hunion]
      simp only [isOnly_iff, primitiveType?_eq_some_iff]
    · intro hnone
      exact inferType_union_default hdeclared hunion fun leaf u hleaf hu =>
        hnone leaf u (isOnly_iff.mpr hleaf) (primitiveType?_eq_some_iff.mp hu)
  · intro file' member' type' hdeclared' hunion' hmark hsame
    constructor
    · rw [Bool.eq_iff_iff, isOptional_union_iff hdeclared hunion,
        isOptional_union_iff hdeclared' hunion', undefined_mem_kinds_iff, undefined_mem_kinds_iff,
        hmark, (hsame.kinds hunion hunion').mem_iff]
    · intro ε name name'
      exact hsame.inferType_eq hdeclared hunion hdeclared' hunion'

/-- A shape with two unions of the same alternatives, in another order, nested in another way, and with a
comment and `null` among them. -/
def reordered : File := Index.read TypeScript.parse "a.ts" (TypeScript.bytesOf
  "type P=\x7ba:number|undefined,b:|null|/**/undefined|number\x7d")

/-- The members of the shape. -/
def reorderedMembers : List Focus := (Outline.ofFile reordered).shapes.values.flatMap significantChildren

/-- What the declared type of a member is, and how its alternatives are written. -/
def alternativesOf (file : File) (member : Focus) : Option (SyntaxTree.Kind × List Spelling) :=
  (declaredType? file member).map fun type =>
    (type.kind file.text, (nonNull file.text type).map (·.node.spelling file.text))

theorem classified_by_alternatives_reordered :
    ∃ a b type type' : Focus, reorderedMembers = [a, b] ∧
      declaredType? reordered a = some type ∧ declaredType? reordered b = some type' ∧
      SameAlternatives reordered.text type reordered.text type' ∧
      isOptional reordered a = isOptional reordered b ∧
      (inferType reordered "a" a : Report ScanError Text).result =
        (inferType reordered "b" b : Report ScanError Text).result := by
  let number : Spelling := ⟨"predefined_type", true, "number", [⟨"number", false, none, "number"⟩]⟩
  let absent : Spelling :=
    ⟨"literal_type", true, "undefined", [⟨"undefined", true, none, "undefined"⟩]⟩
  have hfacts : reorderedMembers.map (fun m => (decide (HasMark m), alternativesOf reordered m)) =
      [(false, some (.unionType, [number, absent])), (false, some (.unionType, [absent, number]))] := by
    decide +kernel
  obtain ⟨a, rest, hmembers, ha, hrest⟩ := List.map_eq_cons_iff.mp hfacts
  obtain ⟨b, rfl, hb⟩ := List.map_eq_singleton_iff.mp hrest
  obtain ⟨hmarkA, hfactsA⟩ := Prod.mk.inj ha
  obtain ⟨hmarkB, hfactsB⟩ := Prod.mk.inj hb
  obtain ⟨type, hdeclared, heq⟩ := Option.map_eq_some_iff.mp hfactsA
  obtain ⟨hunion, hspelled⟩ := Prod.mk.inj heq
  obtain ⟨type', hdeclared', heq'⟩ := Option.map_eq_some_iff.mp hfactsB
  obtain ⟨hunion', hspelled'⟩ := Prod.mk.inj heq'
  have hmarks : HasMark a ↔ HasMark b :=
    iff_of_false (of_decide_eq_false hmarkA) (of_decide_eq_false hmarkB)
  have hsame : SameAlternatives reordered.text type reordered.text type' := by
    refine ⟨_, List.reverse_perm _, ?_⟩
    have hspellings : ((nonNull reordered.text type).reverse.map (·.node.spelling reordered.text)) =
        (nonNull reordered.text type').map (·.node.spelling reordered.text) := by
      rw [List.map_reverse, hspelled, hspelled']
      rfl
    rwa [← List.forall₂_eq_eq_eq, List.forall₂_map_left_iff, List.forall₂_map_right_iff] at hspellings
  obtain ⟨-, -, -, halike⟩ := classified_by_alternatives hdeclared hunion
  obtain ⟨hoptional, htype⟩ := halike reordered b type' hdeclared' hunion' hmarks hsame
  exact ⟨a, b, type, type', hmembers, hdeclared, hdeclared', hsame, hoptional,
    (htype ScanError "a" "b").1⟩

end Item

end PluginManifest
