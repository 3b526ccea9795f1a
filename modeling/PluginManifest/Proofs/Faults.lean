import PluginManifest.Proofs.Independence

/-! # How the scan of a file fails

A file fails with a fault at one of its nodes, or with a literal that has no value.  `Explained`
says of an outcome that all its faults are at nodes of the file and that a literal spoils it exactly
under a given condition; one lemma for each function of the scan builds the condition up.  The
first member that cannot be named decides, so the condition is that it is named by a literal
without a value (`sound_scan_iff`). -/

namespace PluginManifest

/-! ### Nodes of a tree -/

namespace SyntaxTree.Focus

/-- The focus is on a node of the tree, reached from the root child by child. -/
inductive In (root : Node) : Focus → Prop
  | root : In root (.root root)
  | down {f : Focus} {child : Node} : In root f → child ∈ f.node.children → In root (f.down child)

variable {root : Node} {f c : Focus}

theorem In.namedChild (h : f.In root) (hc : c ∈ f.namedChildren) : c.In root := by
  obtain ⟨child, hchild, rfl⟩ := List.mem_map.mp hc
  exact h.down (List.mem_filter.mp hchild).1

theorem In.significantChild (h : f.In root) (hc : c ∈ f.significantChildren) : c.In root :=
  h.namedChild (List.mem_filter.mp hc).1

theorem In.child? (h : f.In root) {field : String} (hc : f.child? field = some c) : c.In root := by
  obtain ⟨child, hchild, rfl⟩ := Option.map_eq_some_iff.mp hc
  exact h.down (List.mem_of_find?_eq_some hchild)

theorem In.parent {node parent : Node} {above : List Node}
    (h : In root ⟨node, parent :: above⟩) : In root ⟨parent, above⟩ := by
  cases h with
  | down h _ => exact h

theorem In.climb {above : List Node} : ∀ {node : Node}, In root ⟨node, above⟩ →
    (Focus.climb node above).In root := by
  induction above with
  | nil => exact fun h => h
  | cons parent above ih =>
      intro node h
      unfold Focus.climb
      split_ifs
      · exact ih h.parent
      · exact h

theorem In.declaration (h : f.In root) : f.declaration.In root := In.climb h

mutual

theorem In.of_mem_walkFrom : ∀ (node : Node) {ancestors : List Node}, In root ⟨node, ancestors⟩ →
    ∀ f ∈ walkFrom ancestors node, f.In root
  | ⟨type, named, start, stop, field, children⟩, ancestors, h => by
      intro f hf
      rcases List.mem_cons.mp hf with rfl | hf
      · exact h
      · exact In.of_mem_walkAll children h (List.Subset.refl _) f hf

theorem In.of_mem_walkAll : ∀ (children : List Node) {parent : Node} {ancestors : List Node},
    In root ⟨parent, ancestors⟩ → children ⊆ parent.children →
    ∀ f ∈ walkAll (parent :: ancestors) children, f.In root
  | [], _, _, _, _ => fun f hf => absurd hf List.not_mem_nil
  | child :: rest, parent, ancestors, h, hsub => by
      obtain ⟨hchild, hrest⟩ := List.cons_subset.mp hsub
      intro f hf
      rcases List.mem_append.mp hf with hf | hf
      · split_ifs at hf
        · exact In.of_mem_walkFrom child (h.down hchild) f hf
        · cases hf
      · exact In.of_mem_walkAll rest h hrest f hf

end

theorem In.of_mem_walk (h : f ∈ walk root) : f.In root := In.of_mem_walkFrom root .root f h

end SyntaxTree.Focus

open SyntaxTree (Focus)

/-! ### Nodes of an outline -/

namespace Source

variable {file : File}

theorem in_of_mem_declarations {f : Focus} {kind : SyntaxTree.Kind}
    (h : (f, kind) ∈ file.declarations) : f.In file.root := by
  obtain ⟨g, hg, heq⟩ := List.mem_map.mp (List.mem_filter.mp h).1
  cases heq
  exact .of_mem_walk hg

theorem in_of_mem_documented {d : Documented} (h : d ∈ (Outline.ofFile file).documented) :
    d.focus.In file.root := by
  obtain ⟨⟨f, kind⟩, hdecl, hd⟩ := List.mem_flatMap.mp h
  obtain ⟨r, -, hr⟩ := List.mem_filterMap.mp hd
  split at hr
  · cases hr
  · cases hr
    exact in_of_mem_declarations hdecl

theorem in_of_get?_shapes {name : Text} {shape : Focus}
    (h : Keyed.get? (Outline.ofFile file).shapes name = some shape) : shape.In file.root := by
  obtain ⟨a, ha, heq⟩ := List.mem_map.mp (Keyed.mem_of_get?_ofPairs h)
  cases heq
  obtain ⟨⟨f, kind⟩, hdecl, halias⟩ := List.mem_filterMap.mp (List.mem_filter.mp ha).1
  dsimp only [Outline.alias?] at halias
  split_ifs at halias
  split at halias
  · rename_i hvalue
    cases halias
    exact (in_of_mem_declarations hdecl).child? hvalue
  · cases halias

end Source

namespace Item

open Source

/-! ### Outcomes -/

/-- The error names the file and the position of one of its nodes. -/
def SourceError.Of (file : File) (error : SourceError) : Prop :=
  error.file = file.path ∧ ∃ f : Focus, f.In file.root ∧ error.position = file.position f.node.start

/-- The outcome is a value, or a fault at a node of the file. -/
def Sound {α : Type} (file : File) (r : Except ScanError α) : Prop :=
  ∀ e, r = .error e → ∃ error : SourceError, e = .declaration error ∧ error.Of file

/-- Faults are at nodes of the file, and literals spoil the outcome under the given condition. -/
structure Explained {α : Type} (file : File) (spoilt : LiteralError → Prop)
    (r : Except ScanError α) : Prop where
  located : ∀ error : SourceError, r = .error (.declaration error) → error.Of file
  literal : ∀ l, r = .error (.literal l) ↔ spoilt l

section outcomes

variable {α β : Type} {file : File} {spoilt spoilt' : LiteralError → Prop} {r : Except ScanError α}

theorem Explained.sound_iff (h : Explained file spoilt r) : Sound file r ↔ ∀ l, ¬ spoilt l := by
  constructor
  · intro hs l hl
    obtain ⟨error, heq, -⟩ := hs _ ((h.literal l).mpr hl)
    cases heq
  · intro hnone e he
    cases e with
    | declaration error => exact ⟨error, rfl, h.located error he⟩
    | literal l => exact absurd ((h.literal l).mp he) (hnone l)

theorem Explained.congr (h : Explained file spoilt r) (hiff : ∀ l, spoilt l ↔ spoilt' l) :
    Explained file spoilt' r :=
  ⟨h.located, fun l => (h.literal l).trans (hiff l)⟩

theorem explained_ok (a : α) : Explained file (fun _ => False) (.ok a) :=
  ⟨nofun, fun _ => ⟨nofun, False.elim⟩⟩

theorem explained_at {f : Focus} (h : f.In file.root) (fault : Fault) :
    Explained file (fun _ => False) (.error (.at file f fault) : Except ScanError α) := by
  refine ⟨?_, fun _ => ⟨nofun, False.elim⟩⟩
  intro error heq
  cases heq
  exact ⟨rfl, f.declaration, h.declaration, rfl⟩

theorem explained_literal (x : Except LiteralError α) :
    Explained file (fun l => x = .error l) (x.mapError .literal) := by
  constructor
  · intro error h
    obtain ⟨l, -, heq⟩ := mapError_eq_error_iff.mp h
    cases heq
  · intro l
    rw [mapError_eq_error_iff]
    simp

/-- A fault of the first part is a fault of the whole, and so is one of what follows. -/
theorem Explained.bind (h : Explained file spoilt r) {f : α → Except ScanError β}
    {later : α → LiteralError → Prop} (hf : ∀ a, r = .ok a → Explained file (later a) (f a)) :
    Explained file (fun l => spoilt l ∨ ∃ a, r = .ok a ∧ later a l) (r >>= f) := by
  cases hr : r with
  | error e =>
      rw [error_bind]
      refine ⟨fun error he => h.located error (hr.trans (by cases he; rfl)), fun l => ?_⟩
      rw [← h.literal l, hr]
      simp
  | ok a =>
      refine ⟨(hf a hr).located, fun l => ?_⟩
      have hnot : ¬ spoilt l := by
        rw [← h.literal l, hr]
        exact nofun
      rw [ok_bind, (hf a hr).literal l]
      simp [hnot]

/-- What cannot fail adds no fault. -/
theorem Explained.bind_ok (h : Explained file spoilt r) {f : α → Except ScanError β}
    (hf : ∀ a, ∃ b, f a = .ok b) : Explained file spoilt (r >>= f) := by
  have hlater : ∀ a, r = .ok a → Explained file (fun _ => False) (f a) := by
    intro a _
    obtain ⟨b, hb⟩ := hf a
    rw [hb]
    exact explained_ok b
  exact (h.bind hlater).congr fun l => by simp

theorem Explained.map (h : Explained file spoilt r) (f : α → β) :
    Explained file spoilt (r.map f) := h.bind_ok fun a => ⟨f a, rfl⟩

/-- Of a run over a list the first failure decides. -/
theorem Explained.mapM {items : List α} {f : α → Except ScanError β}
    {spoilt : α → LiteralError → Prop} (h : ∀ a ∈ items, Explained file (spoilt a) (f a)) :
    Explained file (fun l => ∃ before a after, items = before ++ a :: after ∧
      (∀ b ∈ before, ∃ c, f b = .ok c) ∧ spoilt a l) (items.mapM f) := by
  constructor
  · intro error he
    obtain ⟨before, a, after, rfl, -, ha⟩ := mapM_eq_error_iff.mp he
    exact (h a (by simp)).located error ha
  · intro l
    rw [mapM_eq_error_iff]
    constructor
    · rintro ⟨before, a, after, rfl, hbefore, ha⟩
      exact ⟨before, a, after, rfl, hbefore, ((h a (by simp)).literal l).mp ha⟩
    · rintro ⟨before, a, after, rfl, hbefore, ha⟩
      exact ⟨before, a, after, rfl, hbefore, ((h a (by simp)).literal l).mpr ha⟩

end outcomes

/-! ### Properties -/

/-- The member is named by a literal without a value. -/
def BadName (file : File) (member : Focus) (l : LiteralError) : Prop :=
  ∃ name, member.child? "name" = some name ∧ hasName (member.kind file.text) = true ∧
    (name.node.type = "string" ∧ Literal.quotedValue (name.text file.text) = .error l ∨
      name.node.type = "number" ∧ Literal.numberName (name.text file.text) = .error l)

theorem explained_memberName {file : File} {member : Focus} (h : member.In file.root) :
    Explained file (BadName file member) (memberName file member) := by
  unfold memberName
  cases hname : member.child? "name" with
  | none =>
      refine (explained_at h _).congr fun l => ?_
      simp [BadName, hname]
  | some name =>
      dsimp only
      split_ifs with hkind hplain hstring hnumber
      · refine (explained_at h _).congr fun l => ?_
        simp_all [BadName]
      · -- The rules of plain names are neither those of strings nor those of numbers.
        refine (explained_ok _).congr fun l => ?_
        constructor
        · exact False.elim
        · rintro ⟨other, hother, -, htype⟩
          cases hname.symm.trans hother
          rcases htype with ⟨htype, -⟩ | ⟨htype, -⟩
          · rw [htype] at hplain
            exact absurd hplain (by decide)
          · rw [htype] at hplain
            exact absurd hplain (by decide)
      · refine (explained_literal _).congr fun l => ?_
        simp_all [BadName]
      · refine (explained_literal _).congr fun l => ?_
        simp_all [BadName]
      · refine (explained_at h _).congr fun l => ?_
        simp_all [BadName]

theorem exists_result_baseType? (file : File) (member : Focus) :
    ∃ t, (baseType? file member : Report ScanError _).result = .ok t := by
  unfold baseType?
  split
  · exact ⟨_, rfl⟩
  · split_ifs
    · split
      · exact ⟨_, rfl⟩
      · exact ⟨_, rfl⟩
    · exact ⟨_, rfl⟩

theorem exists_result_inferType (file : File) (name : Text) (member : Focus) :
    ∃ t, (inferType file name member : Report ScanError _).result = .ok t := by
  obtain ⟨base, hbase⟩ := exists_result_baseType? file member
  unfold inferType
  rw [Report.result_bind, hbase, ok_bind]
  split
  · exact ⟨_, rfl⟩
  · exact ⟨_, rfl⟩

/-- Only the name of a member can be at fault. -/
theorem result_propertyOf (outline : Outline) (member : Focus) :
    ∃ g : Text → Except ScanError Property, (∀ name, ∃ p, g name = .ok p) ∧
      (propertyOf outline member).result = memberName outline.file member >>= g := by
  unfold propertyOf
  rw [Report.result_bind, Report.result_ofExcept]
  refine ⟨_, fun name => ?_, rfl⟩
  dsimp only
  split
  · exact ⟨_, rfl⟩
  · obtain ⟨type, htype⟩ := exists_result_inferType outline.file name member
    rw [Report.result_bind, htype]
    exact ⟨_, rfl⟩

theorem explained_propertyOf {file : File} {member : Focus} (h : member.In file.root) :
    Explained file (BadName file member) (propertyOf (.ofFile file) member).result := by
  obtain ⟨g, hg, hresult⟩ := result_propertyOf (.ofFile file) member
  rw [hresult]
  exact (explained_memberName h).bind_ok hg

theorem exists_result_propertyOf_iff {outline : Outline} {member : Focus} :
    (∃ p, (propertyOf outline member).result = .ok p) ↔
      ∃ name, memberName outline.file member = .ok name := by
  obtain ⟨g, hg, hresult⟩ := result_propertyOf outline member
  simp only [hresult, bind_eq_ok_iff]
  constructor
  · rintro ⟨p, name, hname, -⟩
    exact ⟨name, hname⟩
  · rintro ⟨name, hname⟩
    obtain ⟨p, hp⟩ := hg name
    exact ⟨p, name, hname, hp⟩

/-- The first member of a shape that cannot be named is named by a literal without a value. -/
def SpoiltShape (file : File) (shape : Focus) (l : LiteralError) : Prop :=
  ∃ before member after, shape.significantChildren = before ++ member :: after ∧
    (∀ m ∈ before, ∃ name, memberName file m = .ok name) ∧ BadName file member l

theorem explained_propertiesOf {file : File} {shape : Focus} (h : shape.In file.root) :
    Explained file (SpoiltShape file shape) (propertiesOf (.ofFile file) shape).result := by
  unfold propertiesOf
  rw [Report.result_forEach]
  refine (Explained.mapM fun m hm => explained_propertyOf (h.significantChild hm)).congr ?_
  intro l
  simp only [exists_result_propertyOf_iff]
  rfl

/-! ### Items -/

section items

variable {file : File} {kind : Kind} {f taker shape : Focus}

theorem in_of_firstParameter? (h : f.In file.root) (hf : firstParameter? f = some shape) :
    shape.In file.root := by
  obtain ⟨params, hparams, hfind⟩ := Option.bind_eq_some_iff.mp hf
  exact (h.child? hparams).significantChild (List.mem_of_find?_eq_some hfind)

theorem in_of_typeOf {type : Focus} (h : f.In file.root)
    (htype : ((f.child? "type").bind fun mark => mark.significantChildren.head?) = some type) :
    type.In file.root := by
  obtain ⟨mark, hmark, htype⟩ := Option.bind_eq_some_iff.mp htype
  exact (h.child? hmark).significantChild (List.mem_of_mem_head? htype)

theorem in_of_propertyTaker? (h : f.In file.root) (hf : propertyTaker? kind file f = some taker) :
    taker.In file.root := by
  cases kind with
  | widget =>
      cases hf
      exact h
  | paymentGateway =>
      obtain ⟨body, hbody, hfind⟩ := Option.bind_eq_some_iff.mp hf
      exact (h.child? hbody).namedChild (List.mem_of_find?_eq_some hfind)

theorem in_of_shapeOf (h : f.In file.root) (hf : shapeOf kind (.ofFile file) f = .ok shape) :
    shape.In file.root := by
  unfold shapeOf at hf
  dsimp only at hf
  split at hf
  · cases hf
    exact h
  · split_ifs at hf
    split at hf
    · rename_i hshape
      cases hf
      exact in_of_get?_shapes hshape
    · cases hf
  · cases hf

theorem explained_shapeOf (h : f.In file.root) :
    Explained file (fun _ => False) (shapeOf kind (.ofFile file) f) := by
  unfold shapeOf
  dsimp only
  split
  · exact explained_ok _
  · split_ifs
    · exact explained_at h _
    · split
      · exact explained_ok _
      · exact explained_at h _
  · exact explained_at h _

theorem in_of_parameterShape? (h : f.In file.root)
    (hf : parameterShape? kind (.ofFile file) f = .ok (some shape)) : shape.In file.root := by
  unfold parameterShape? at hf
  split at hf
  · cases hf
  · rename_i first hfirst
    split at hf
    · cases hf
    · rename_i type htype
      obtain ⟨found, hfound, heq⟩ := map_eq_ok_iff.mp hf
      cases heq
      exact in_of_shapeOf (in_of_typeOf (in_of_firstParameter? h hfirst) htype) hfound

theorem explained_parameterShape? (h : f.In file.root) :
    Explained file (fun _ => False) (parameterShape? kind (.ofFile file) f) := by
  unfold parameterShape?
  split
  · exact explained_ok _
  · rename_i first hfirst
    have hin := in_of_firstParameter? h hfirst
    split
    · exact explained_at hin _
    · rename_i type htype
      exact (explained_shapeOf (in_of_typeOf hin htype)).map _

/-- The properties of a declaration come from a spoilt shape. -/
def SpoiltProperties (kind : Kind) (outline : Outline) (f : Focus) (l : LiteralError) : Prop :=
  ∃ taker shape, propertyTaker? kind outline.file f = some taker ∧
    parameterShape? kind outline taker = .ok (some shape) ∧ SpoiltShape outline.file shape l

theorem explained_itemProperties (h : f.In file.root) :
    Explained file (SpoiltProperties kind (.ofFile file) f)
      (itemProperties kind (.ofFile file) f).result := by
  unfold itemProperties
  split
  · rename_i hnone
    refine (explained_ok _).congr fun l => ?_
    simp [SpoiltProperties, hnone]
  · rename_i taker htaker
    have hin : taker.In file.root := in_of_propertyTaker? h htaker
    rw [Report.result_bind, Report.result_ofExcept]
    let later (found : Option Focus) (l : LiteralError) : Prop :=
      ∃ shape, found = some shape ∧ SpoiltShape file shape l
    refine (@Explained.bind _ _ file _ _ (explained_parameterShape? hin) _ later ?_).congr
      fun l => ?_
    · intro found hfound
      cases found with
      | none => exact (explained_ok _).congr fun l => by simp [later]
      | some shape =>
          have hshape := in_of_parameterShape? hin hfound
          exact (explained_propertiesOf hshape).congr fun l => by simp [later]
    · constructor
      · rintro (hfalse | ⟨_, hfound, shape, rfl, hspoilt⟩)
        · exact hfalse.elim
        · exact ⟨taker, shape, htaker, hfound, hspoilt⟩
      · rintro ⟨other, shape, hother, hfound, hspoilt⟩
        cases htaker.symm.trans hother
        exact .inr ⟨_, hfound, shape, rfl, hspoilt⟩

/-- The item is declared as it has to be, and its properties are spoilt. -/
def SpoiltItem (kind : Kind) (outline : Outline) (d : Documented) (l : LiteralError) : Prop :=
  d.kind = kind.declarationKind ∧ (itemId? kind outline d).isSome ∧
    SpoiltProperties kind outline d.focus l

theorem explained_itemOf {path : Text} {default : DefaultVersion} {d : Documented}
    (h : d.focus.In file.root) :
    Explained file (SpoiltItem kind (.ofFile file) d)
      (itemOf kind path default (.ofFile file) d).result := by
  unfold itemOf
  by_cases hkind : d.kind ≠ kind.declarationKind
  · rw [if_pos hkind]
    refine (explained_at h _).congr fun l => ?_
    simp [SpoiltItem, hkind]
  · rw [if_neg hkind]
    cases hid : itemId? kind (.ofFile file) d with
    | none =>
        refine (explained_at h _).congr fun l => ?_
        simp [SpoiltItem, hid]
    | some id =>
        rw [Report.result_bind]
        refine ((explained_itemProperties h).bind_ok fun a => ⟨_, rfl⟩).congr fun l => ?_
        simp [SpoiltItem, hid, not_not.mp hkind]

end items

/-! ### Files -/

/-- The one widget of a file is spoilt. -/
def SpoiltWidget (outline : Outline) (l : LiteralError) : Prop :=
  ∃ d, marked .widget outline = [d] ∧ SpoiltItem .widget outline d l

/-- The first payment gateway of a file that fails is spoilt. -/
def SpoiltGateways (path : Text) (default : DefaultVersion) (outline : Outline) (l : LiteralError) :
    Prop :=
  ∃ before d after, marked .paymentGateway outline = before ++ d :: after ∧
    (∀ b ∈ before, ∃ item, (itemOf .paymentGateway path default outline b).result = .ok item) ∧
      SpoiltItem .paymentGateway outline d l

section files

variable {file : File} {kind : Kind} {path : Text} {default : DefaultVersion} {d : Documented}

theorem in_of_mem_marked (h : d ∈ marked kind (.ofFile file)) : d.focus.In file.root :=
  in_of_mem_documented (List.mem_filter.mp h).1

theorem explained_widgetOf :
    Explained file (SpoiltWidget (.ofFile file)) (widgetOf path default (.ofFile file)).result := by
  unfold widgetOf
  split
  · rename_i hnone
    refine (explained_ok _).congr fun l => ?_
    simp [SpoiltWidget, hnone]
  · rename_i d hone
    have hin : d.focus.In file.root := in_of_mem_marked (by rw [hone]; exact List.mem_singleton_self d)
    rw [Report.result_bind, Report.result_emit, ok_bind, Report.result_bind]
    refine ((explained_itemOf hin).bind_ok fun a => ⟨_, rfl⟩).congr fun l => ?_
    simp [SpoiltWidget, hone]
  · rename_i first second rest hmany
    have hin : second.focus.In file.root := in_of_mem_marked (by rw [hmany]; simp)
    refine (explained_at hin _).congr fun l => ?_
    simp [SpoiltWidget, hmany]

theorem explained_gatewaysOf :
    Explained file (SpoiltGateways path default (.ofFile file))
      (gatewaysOf path default (.ofFile file)).result := by
  unfold gatewaysOf
  split
  · rename_i hnone
    refine (explained_ok _).congr fun l => ?_
    simp [SpoiltGateways, hnone]
  · rw [Report.result_bind, Report.result_emit, ok_bind, Report.result_forEach]
    exact Explained.mapM fun d hd => explained_itemOf (in_of_mem_marked hd)

/-- What spoils properties is the name of a member. -/
theorem SpoiltProperties.exists_badName {f : Focus} {l : LiteralError}
    (hs : SpoiltProperties kind (.ofFile file) f l) (h : f.In file.root) :
    ∃ member : Focus, member.In file.root ∧ BadName file member l := by
  obtain ⟨taker, shape, htaker, hshape, before, member, after, hsplit, -, hbad⟩ := hs
  have hin := in_of_parameterShape? (in_of_propertyTaker? h htaker) hshape
  exact ⟨member, hin.significantChild (by rw [hsplit]; simp), hbad⟩

end files

/-- **The scan of a file fails with a fault at one of its nodes, unless the first member that it
cannot name is named by a literal without a value.** -/
theorem sound_scan_iff (index : Index) (path : Text) (default : DefaultVersion) (text : Bytes)
    (root : SyntaxTree.Node) :
    let file : File := ⟨Index.key path, text, root⟩
    let scanner := (FileScanner.mk path default none).look (index.insert file)
    (Sound file scanner.widget ↔ ∀ l, ¬ SpoiltWidget (.ofFile file) l) ∧
    (Sound file scanner.paymentGateways ↔ ∀ l, ¬ SpoiltGateways path default (.ofFile file) l) ∧
    ((∀ member : Focus, member.In root → ∀ l, ¬ BadName file member l) →
      Sound file scanner.widget ∧ Sound file scanner.paymentGateways) := by
  intro file scanner
  -- The file is found under its own key, whatever else the index holds.
  have houtline : scanner.outline? = some (.ofFile file) := by
    have hfound : (index.insert file).get? path = some file := by
      rw [Index.get?_insert, if_pos rfl]
    simp [scanner, FileScanner.outline?, FileScanner.look, hfound]
  have hwidget : Sound file scanner.widget ↔ ∀ l, ¬ SpoiltWidget (.ofFile file) l := by
    unfold FileScanner.widget
    rw [houtline]
    exact explained_widgetOf.sound_iff
  have hgateways : Sound file scanner.paymentGateways ↔
      ∀ l, ¬ SpoiltGateways path default (.ofFile file) l := by
    unfold FileScanner.paymentGateways
    rw [houtline]
    exact explained_gatewaysOf.sound_iff
  refine ⟨hwidget, hgateways, fun hnames => ⟨hwidget.mpr ?_, hgateways.mpr ?_⟩⟩
  · rintro l ⟨d, hone, -, -, hspoilt⟩
    have hin := in_of_mem_marked (hone ▸ List.mem_singleton_self d)
    obtain ⟨member, hmember, hbad⟩ := hspoilt.exists_badName hin
    exact hnames member hmember l hbad
  · rintro l ⟨before, d, after, hsplit, -, -, -, hspoilt⟩
    have hin := in_of_mem_marked (hsplit ▸ List.mem_append_right before List.mem_cons_self)
    obtain ⟨member, hmember, hbad⟩ := hspoilt.exists_badName hin
    exact hnames member hmember l hbad

/-- A scanner that has looked up a file with the given text. -/
def scannerOf (text : String) : FileScanner :=
  (FileScanner.mk "a.ts" none none).look
    (Index.empty.insert (Index.read TypeScript.parse "a.ts" (TypeScript.bytesOf text)))

/-- A widget with one property. -/
def widgetWith (property : String) : String :=
  "/** @widget */ function W(p: \x7b " ++ property ++ " \x7d) \x7b\x7d"

/-- A payment gateway with one property. -/
def gatewayWith (property : String) : String :=
  "/** @paymentGateway */ class G \x7b constructor(p: \x7b " ++ property ++ " \x7d) \x7b\x7d \x7d"

/-- Escapes beyond the last code point and a numeric name that is no number are not told as faults
at a node. -/
theorem literal_names_escape :
    (scannerOf (widgetWith "'\\u\x7b110000\x7d'")).widget =
      .error (.literal .noCodePoint) ∧
    (scannerOf (widgetWith "1n")).widget = .error (.literal .badNumber) ∧
    (scannerOf (gatewayWith "'\\u\x7b80000000\x7d'")).paymentGateways =
      .error (.literal .hugeCodePoint) := by
  -- Errors can be compared, items cannot.
  have herror : ∀ {α : Type} {r : Except ScanError α} {e : ScanError},
      r.map (fun _ => ()) = .error e → r = .error e := map_eq_error_iff.mp
  refine ⟨herror ?_, herror ?_, herror ?_⟩
  · decide +kernel
  · decide +kernel
  · decide +kernel

end Item

end PluginManifest
