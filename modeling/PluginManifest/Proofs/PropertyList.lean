import PluginManifest.Proofs.UnionTypes

/-! # The properties of a shape, one by one

Each member of a shape gives one property, and at most one warning.  `Named` and `NameFault` say when a
member has a name and why it has none, `Describes` what its property is, and `Defaulted` when its type is
only the default, for which there is a warning (`propertyOf_of_named`).  The members are taken in order up
to the first without a name (`warns_of_named`, `fault_of_result`). -/

namespace PluginManifest.Item

open Source SyntaxTree SyntaxTree.Focus

/-! ### Names -/

/-- The node that names a member of a kind that can have a name. -/
def NameNode (file : File) (member name : Focus) : Prop :=
  member.child? "name" = some name ∧ hasName (member.kind file.text) = true

/-- The name of a member. -/
inductive Named (file : File) (member : Focus) : Text → Prop
  /-- A name that is written as it is. -/
  | plain {name : Focus} : NameNode file member name → name.node.type ∈ plainNames →
      Named file member (name.text file.text)
  /-- A name in quotes. -/
  | quoted {name : Focus} {value : Text} : NameNode file member name → name.node.type = "string" →
      Literal.quotedValue (name.text file.text) = .ok value → Named file member value
  /-- A number. -/
  | number {name : Focus} {value : Text} : NameNode file member name → name.node.type = "number" →
      Literal.numberName (name.text file.text) = .ok value → Named file member value

/-- Why a member has no name. -/
inductive NameFault (file : File) (member : Focus) : ScanError → Prop
  /-- It is not of a kind that can have a name, or no node names it. -/
  | unnamed : (∀ name, ¬ NameNode file member name) →
      NameFault file member (.at file member .unnamedProperty)
  /-- It is named by a string without a value. -/
  | quoted {name : Focus} {l : LiteralError} : NameNode file member name →
      name.node.type = "string" → Literal.quotedValue (name.text file.text) = .error l →
      NameFault file member (.literal l)
  /-- It is named by a number without a value. -/
  | number {name : Focus} {l : LiteralError} : NameNode file member name →
      name.node.type = "number" → Literal.numberName (name.text file.text) = .error l →
      NameFault file member (.literal l)
  /-- Its name is of another form. -/
  | unclear {name : Focus} : NameNode file member name → name.node.type ∉ plainNames →
      name.node.type ≠ "string" → name.node.type ≠ "number" →
      NameFault file member (.at file member .unclearProperty)

section names

variable {file : File} {member : Focus}

theorem memberName_of_not_nameNode (h : ∀ name, ¬ NameNode file member name) :
    memberName file member = .error (.at file member .unnamedProperty) := by
  unfold memberName
  cases hchild : member.child? "name" with
  | none => rfl
  | some name =>
      have hkind : hasName (member.kind file.text) = false := by
        rw [Bool.eq_false_iff]
        exact fun hkind => h name ⟨hchild, hkind⟩
      dsimp only
      rw [hkind]
      rfl

/-- The name of a member by the form of the node that names it. -/
theorem memberName_of_nameNode {name : Focus} (h : NameNode file member name) :
    memberName file member =
      if name.node.type ∈ plainNames then .ok (name.text file.text)
      else if name.node.type = "string" then
        (Literal.quotedValue (name.text file.text)).mapError .literal
      else if name.node.type = "number" then
        (Literal.numberName (name.text file.text)).mapError .literal
      else .error (.at file member .unclearProperty) := by
  obtain ⟨hchild, hkind⟩ := h
  unfold memberName
  rw [hchild]
  dsimp only
  rw [hkind]
  simp only [Bool.not_true, Bool.false_eq_true, if_false, List.contains_iff_mem, beq_iff_eq]

/-- Either a member has a name, or there is a reason why it has none. -/
theorem memberName_cases (file : File) (member : Focus) :
    (∃ name, memberName file member = .ok name ∧ Named file member name) ∨
      ∃ e, memberName file member = .error e ∧ NameFault file member e := by
  by_cases hnode : ∃ name, NameNode file member name
  · obtain ⟨name, hname⟩ := hnode
    rw [memberName_of_nameNode hname]
    split_ifs with hplain hstring hnumber
    · exact .inl ⟨_, rfl, .plain hname hplain⟩
    · cases hvalue : Literal.quotedValue (name.text file.text) with
      | ok value => exact .inl ⟨value, rfl, .quoted hname hstring hvalue⟩
      | error l => exact .inr ⟨_, rfl, .quoted hname hstring hvalue⟩
    · cases hvalue : Literal.numberName (name.text file.text) with
      | ok value => exact .inl ⟨value, rfl, .number hname hnumber hvalue⟩
      | error l => exact .inr ⟨_, rfl, .number hname hnumber hvalue⟩
    · exact .inr ⟨_, rfl, .unclear hname hplain hstring hnumber⟩
  · rw [not_exists] at hnode
    exact .inr ⟨_, memberName_of_not_nameNode hnode, .unnamed hnode⟩

theorem Named.memberName_eq {value : Text} (h : Named file member value) :
    memberName file member = .ok value := by
  cases h with
  | plain hname hplain => rw [memberName_of_nameNode hname, if_pos hplain]
  | quoted hname hstring hvalue =>
      rw [memberName_of_nameNode hname, hstring, if_neg (by decide), if_pos rfl, hvalue]
      rfl
  | number hname hnumber hvalue =>
      rw [memberName_of_nameNode hname, hnumber, if_neg (by decide), if_neg (by decide), if_pos rfl,
        hvalue]
      rfl

theorem memberName_eq_ok_iff {value : Text} :
    memberName file member = .ok value ↔ Named file member value := by
  refine ⟨fun h => ?_, Named.memberName_eq⟩
  rcases memberName_cases file member with ⟨name, hname, hnamed⟩ | ⟨e, he, -⟩
  · cases hname.symm.trans h
    exact hnamed
  · cases he.symm.trans h

theorem memberName_eq_error_of_not_named (h : ∀ name, ¬ Named file member name) :
    ∃ e, memberName file member = .error e ∧ NameFault file member e := by
  rcases memberName_cases file member with ⟨name, -, hnamed⟩ | hfault
  · exact absurd hnamed (h name)
  · exact hfault

end names

/-! ### Tags of a member -/

/-- The first comment on the node. -/
def FirstComment (outline : Outline) (node : Node) (d : Documented) : Prop :=
  ∃ before after, outline.documented = before ++ d :: after ∧ d.focus.node.key = node.key ∧
    ∀ b ∈ before, b.focus.node.key ≠ node.key

/-- The first comment on a member gives it a text that is not empty. -/
def Gives (read : List Doc.Tag → Option Text) (outline : Outline) (member : Focus) (t : Text) : Prop :=
  ∃ d, FirstComment outline member.node d ∧ read d.comment.tags = some t ∧ t ≠ []

/-- The shown name that a comment gives. -/
def shownName (tags : List Doc.Tag) : Option Text := Doc.Tag.fullTextOf? tags "propertyName"

/-- The type that a comment gives. -/
def givenType (tags : List Doc.Tag) : Option Text := Doc.Tag.valueOf? tags "propertyType"

theorem commentFor?_eq_some_iff {outline : Outline} {node : Node} {d : Documented} :
    outline.commentFor? node = some d ↔ FirstComment outline node d := by
  unfold Outline.commentFor? FirstComment
  rw [List.find?_eq_some_iff_append]
  constructor
  · rintro ⟨hkey, before, after, hsplit, hbefore⟩
    exact ⟨before, after, hsplit, by simpa using hkey, fun b hb => by simpa using hbefore b hb⟩
  · rintro ⟨before, after, hsplit, hkey, hbefore⟩
    exact ⟨by simpa using hkey, before, after, hsplit, fun b hb => by simpa using hbefore b hb⟩

theorem nonEmpty?_eq_some_iff {t : Option Text} {u : Text} :
    nonEmpty? t = some u ↔ t = some u ∧ u ≠ [] := by
  unfold nonEmpty?
  rw [Option.filter_eq_some_iff]
  simp

/-- A text that the tags of a member give is given by its first comment. -/
theorem gives_iff {read : List Doc.Tag → Option Text} (hread : read [] = none) {outline : Outline}
    {member : Focus} {t : Text} :
    Gives read outline member t ↔ nonEmpty? (read (outline.tagsFor member.node)) = some t := by
  rw [nonEmpty?_eq_some_iff]
  unfold Gives Outline.tagsFor
  simp only [← commentFor?_eq_some_iff]
  cases outline.commentFor? member.node with
  | none => simp [hread]
  | some d => simp

/-! ### Types -/

/-- The type that decides about a member. -/
inductive BaseType (file : File) (member : Focus) : Focus → Prop
  /-- The declared type, unless it is a union. -/
  | declared {type : Focus} : declaredType? file member = some type →
      type.kind file.text ≠ .unionType → BaseType file member type
  /-- The only alternative of a union that is neither `undefined` nor `null`. -/
  | only {type leaf : Focus} : declaredType? file member = some type →
      type.kind file.text = .unionType → IsOnly file.text type leaf → BaseType file member leaf
  /-- A union with none or several of them. -/
  | union {type : Focus} : declaredType? file member = some type →
      type.kind file.text = .unionType → (∀ leaf, ¬ IsOnly file.text type leaf) →
      BaseType file member type

section types

variable {file : File} {member : Focus} {name t : Text}

theorem BaseType.result_baseType? {base : Focus} (h : BaseType file member base) :
    (baseType? file member : Report ScanError (Option Focus)).result = .ok (some base) := by
  cases h with
  | declared hdeclared hkind =>
      unfold baseType?
      rw [hdeclared]
      dsimp only
      rw [if_neg hkind]
      rfl
  | only hdeclared hunion honly =>
      exact result_baseType?_of_single hdeclared hunion (isOnly_iff.mp honly)
  | union hdeclared hunion hnone =>
      exact result_baseType?_of_not_single hdeclared hunion fun leaf h => hnone leaf (isOnly_iff.mpr h)

theorem exists_baseType {type : Focus} (h : declaredType? file member = some type) :
    ∃ base, BaseType file member base := by
  by_cases hunion : type.kind file.text = .unionType
  · by_cases honly : ∃ leaf, IsOnly file.text type leaf
    · obtain ⟨leaf, honly⟩ := honly
      exact ⟨leaf, .only h hunion honly⟩
    · exact ⟨type, .union h hunion (not_exists.mp honly)⟩
  · exact ⟨type, .declared h hunion⟩

theorem result_baseType?_eq_some_iff {base : Focus} :
    (baseType? file member : Report ScanError (Option Focus)).result = .ok (some base) ↔
      BaseType file member base := by
  refine ⟨fun h => ?_, BaseType.result_baseType?⟩
  cases hdeclared : declaredType? file member with
  | none =>
      unfold baseType? at h
      rw [hdeclared] at h
      cases h
  | some type =>
      obtain ⟨other, hother⟩ := exists_baseType hdeclared
      cases hother.result_baseType?.symm.trans h
      exact hother

/-- The type of a member that its base type tells. -/
theorem inferType_of_primitive {base : Focus} (hbase : BaseType file member base)
    (ht : Primitive (base.kind file.text) t) :
    (inferType file name member : Report ScanError Text).result = .ok t ∧
      (inferType file name member : Report ScanError Text).warnings = [] :=
  inferType_of_base hbase.result_baseType? (primitiveType?_eq_some_iff.mpr ht)

/-- The type of a member whose base type tells nothing. -/
theorem inferType_of_not_primitive
    (h : ∀ base t, BaseType file member base → ¬ Primitive (base.kind file.text) t) :
    (inferType file name member : Report ScanError Text).result = .ok defaultType ∧
      (inferType file name member : Report ScanError Text).warnings = [typeWarning file name member] := by
  obtain ⟨base, hbase⟩ := exists_result_baseType? file member
  refine inferType_of_base_none hbase ?_
  rw [Option.eq_none_iff_forall_ne_some]
  intro t ht
  obtain ⟨type, rfl, hprimitive⟩ := Option.bind_eq_some_iff.mp ht
  exact h type t (result_baseType?_eq_some_iff.mp hbase) (primitiveType?_eq_some_iff.mp hprimitive)

end types

/-! ### Properties -/

/-- Nothing tells the type of a member: its comment gives none, and its base type is not primitive. -/
def Defaulted (outline : Outline) (member : Focus) : Prop :=
  (∀ t, ¬ Gives givenType outline member t) ∧
    ∀ base t, BaseType outline.file member base → ¬ Primitive (base.kind outline.file.text) t

/-- The type of a member: the one that its comment gives, else that of its base type, else the
default. -/
inductive HasType (outline : Outline) (member : Focus) : Text → Prop
  | given {t : Text} : Gives givenType outline member t → HasType outline member t
  | primitive {base : Focus} {t : Text} : (∀ u, ¬ Gives givenType outline member u) →
      BaseType outline.file member base → Primitive (base.kind outline.file.text) t →
      HasType outline member t
  | default : Defaulted outline member → HasType outline member "text"

/-- What the property of a member is. -/
structure Describes (outline : Outline) (member : Focus) (p : Property) : Prop where
  name : Named outline.file member p.name
  displayName : Gives shownName outline member p.displayName ∨
    (∀ t, ¬ Gives shownName outline member t) ∧ p.displayName = p.name
  type : HasType outline member p.type
  optional : p.optional = isOptional outline.file member

/-- One warning for each member whose type is only the default, in the order of the members, and no
other. -/
inductive Warns (outline : Outline) : List Focus → List Text → Prop
  | nil : Warns outline [] []
  | warned {member : Focus} {name : Text} {members : List Focus} {warnings : List Text} :
      Defaulted outline member → Named outline.file member name → Warns outline members warnings →
      Warns outline (member :: members) (typeWarning outline.file name member :: warnings)
  | silent {member : Focus} {members : List Focus} {warnings : List Text} :
      ¬ Defaulted outline member → Warns outline members warnings →
      Warns outline (member :: members) warnings

section properties

variable {outline : Outline} {member : Focus} {name : Text}

theorem Warns.append {members members' : List Focus} {warnings warnings' : List Text}
    (h : Warns outline members warnings) (h' : Warns outline members' warnings') :
    Warns outline (members ++ members') (warnings ++ warnings') := by
  induction h with
  | nil => exact h'
  | warned hdefault hname _ ih => exact .warned hdefault hname ih
  | silent hdefault _ ih => exact .silent hdefault ih

theorem Warns.flatMap {members : List Focus} {warnings : Focus → List Text}
    (h : ∀ m ∈ members, Warns outline [m] (warnings m)) :
    Warns outline members (members.flatMap warnings) := by
  induction members with
  | nil => exact .nil
  | cons member members ih =>
      obtain ⟨hmember, hmembers⟩ := List.forall_mem_cons.mp h
      rw [List.flatMap_cons]
      exact hmember.append (ih hmembers)

/-- The shown name of a member. -/
theorem displayName_eq (outline : Outline) (member : Focus) (name : Text) :
    let shown := (nonEmpty? (shownName (outline.tagsFor member.node))).getD name
    Gives shownName outline member shown ∨
      (∀ t, ¬ Gives shownName outline member t) ∧ shown = name := by
  dsimp only
  have hread : shownName [] = none := rfl
  simp only [gives_iff hread]
  cases nonEmpty? (shownName (outline.tagsFor member.node)) with
  | none => simp
  | some t => simp

/-- The type of a member whose comment gives none. -/
theorem inferType_of_not_given (hname : Named outline.file member name)
    (hnone : ∀ t, ¬ Gives givenType outline member t) :
    ∃ t, (inferType outline.file name member : Report ScanError Text).result = .ok t ∧
      HasType outline member t ∧
      Warns outline [member] (inferType outline.file name member : Report ScanError Text).warnings := by
  by_cases hprimitive : ∃ base t, BaseType outline.file member base ∧
      Primitive (base.kind outline.file.text) t
  · obtain ⟨base, t, hbase, ht⟩ := hprimitive
    have hnot : ¬ Defaulted outline member := fun hdefault => hdefault.2 base t hbase ht
    obtain ⟨hresult, hwarnings⟩ := inferType_of_primitive hbase ht
    rw [hwarnings]
    exact ⟨t, hresult, .primitive hnone hbase ht, .silent hnot .nil⟩
  · have hdefault : Defaulted outline member :=
      ⟨hnone, fun base t hbase ht => hprimitive ⟨base, t, hbase, ht⟩⟩
    obtain ⟨hresult, hwarnings⟩ := inferType_of_not_primitive hdefault.2
    rw [hwarnings]
    exact ⟨_, hresult, .default hdefault, .warned hdefault hname .nil⟩

/-- A member with a name gives a property, and a warning if its type is only the default. -/
theorem propertyOf_of_named (hname : Named outline.file member name) :
    ∃ p, (propertyOf outline member).result = .ok p ∧ Describes outline member p ∧
      Warns outline [member] (propertyOf outline member).warnings := by
  have hread : givenType [] = none := rfl
  have hok : (Report.ofExcept (memberName outline.file member)).result = .ok name :=
    hname.memberName_eq
  have hshown := displayName_eq outline member name
  unfold propertyOf
  rw [Report.result_bind, hok, ok_bind, Report.warnings_bind_ok hok, Report.warnings_ofExcept,
    List.nil_append]
  dsimp only
  cases hgiven : nonEmpty? (givenType (outline.tagsFor member.node)) with
  | some type =>
      have hgives : Gives givenType outline member type := (gives_iff hread).mpr hgiven
      have hnot : ¬ Defaulted outline member := fun hdefault => hdefault.1 type hgives
      unfold givenType at hgiven
      rw [hgiven]
      exact ⟨_, rfl, ⟨hname, hshown, .given hgives, rfl⟩, .silent hnot .nil⟩
  | none =>
      have hnone : ∀ t, ¬ Gives givenType outline member t := by
        intro t ht
        cases hgiven.symm.trans ((gives_iff hread).mp ht)
      unfold givenType at hgiven
      rw [hgiven]
      dsimp only
      obtain ⟨t, ht, htype, hwarns⟩ := inferType_of_not_given hname hnone
      rw [Report.result_bind, ht, ok_bind, Report.warnings_bind_ok ht, Report.warnings_pure,
        List.append_nil]
      exact ⟨_, rfl, ⟨hname, hshown, htype, rfl⟩, hwarns⟩

theorem describes_of_result {p : Property} (h : (propertyOf outline member).result = .ok p) :
    Describes outline member p := by
  obtain ⟨name, hname⟩ := exists_result_propertyOf_iff.mp ⟨p, h⟩
  obtain ⟨q, hq, hdescribes, -⟩ := propertyOf_of_named (memberName_eq_ok_iff.mp hname)
  cases hq.symm.trans h
  exact hdescribes

/-- A member that gives no property has no name, and does not warn. -/
theorem fault_of_result {e : ScanError} (h : (propertyOf outline member).result = .error e) :
    (∀ name, ¬ Named outline.file member name) ∧ NameFault outline.file member e ∧
      (propertyOf outline member).warnings = [] := by
  have hnot : ∀ name, ¬ Named outline.file member name := by
    intro name hname
    obtain ⟨p, hp, -⟩ := propertyOf_of_named hname
    cases hp.symm.trans h
  obtain ⟨e', herror, hfault⟩ := memberName_eq_error_of_not_named hnot
  have hname : (Report.ofExcept (memberName outline.file member)).result = .error e' := herror
  unfold propertyOf at h ⊢
  rw [Report.result_bind, hname, error_bind] at h
  cases h
  rw [Report.warnings_bind_error hname]
  exact ⟨hnot, hfault, rfl⟩

/-- Members with names warn one after the other. -/
theorem warns_of_named {members : List Focus}
    (h : ∀ m ∈ members, ∃ name, Named outline.file m name) :
    (∀ m ∈ members, ∃ p, (propertyOf outline m).result = .ok p) ∧
      Warns outline members (members.flatMap fun m => (propertyOf outline m).warnings) := by
  constructor
  · intro m hm
    obtain ⟨name, hname⟩ := h m hm
    obtain ⟨p, hp, -⟩ := propertyOf_of_named hname
    exact ⟨p, hp⟩
  · apply Warns.flatMap
    intro m hm
    obtain ⟨name, hname⟩ := h m hm
    obtain ⟨-, -, -, hwarns⟩ := propertyOf_of_named hname
    exact hwarns

end properties

/-- **A shape whose members all have names gives one property for each of them, in order; otherwise it
fails for the first member without a name.  There is one warning for each member that is reached and whose
type is only the default, and no other.** -/
theorem properties_one_by_one (outline : Outline) (shape : Focus) :
    ((∀ m ∈ shape.significantChildren, ∃ name, Named outline.file m name) →
      ∃ ps, (propertiesOf outline shape).result = .ok ps ∧
        List.Forall₂ (Describes outline) shape.significantChildren ps ∧
        Warns outline shape.significantChildren (propertiesOf outline shape).warnings) ∧
    ((∃ m ∈ shape.significantChildren, ∀ name, ¬ Named outline.file m name) →
      ∃ before m after e, shape.significantChildren = before ++ m :: after ∧
        (∀ b ∈ before, ∃ name, Named outline.file b name) ∧ (∀ name, ¬ Named outline.file m name) ∧
        NameFault outline.file m e ∧ (propertiesOf outline shape).result = .error e ∧
        Warns outline before (propertiesOf outline shape).warnings) := by
  constructor
  · intro hnamed
    obtain ⟨hok, hwarns⟩ := warns_of_named hnamed
    have hwarnings := Report.warnings_forEach_append hok []
    rw [List.append_nil, Report.forEach, Report.warnings_pure, List.append_nil] at hwarnings
    obtain ⟨ps, hps⟩ := exists_mapM_eq_ok_iff.mpr hok
    refine ⟨ps, ?_, ?_, ?_⟩
    · rw [propertiesOf, Report.result_forEach, hps]
    · exact (mapM_eq_ok_iff.mp hps).imp fun _ _ => describes_of_result
    · rwa [propertiesOf, hwarnings]
  · rintro ⟨unnamed, hmem, hunnamed⟩
    rw [propertiesOf, Report.result_forEach]
    cases hrun : shape.significantChildren.mapM fun m => (propertyOf outline m).result with
    | ok ps =>
        have hresult := exists_mapM_eq_ok_iff.mp ⟨ps, hrun⟩ unnamed hmem
        obtain ⟨name, hname⟩ := exists_result_propertyOf_iff.mp hresult
        exact absurd (memberName_eq_ok_iff.mp hname) (hunnamed name)
    | error e =>
        obtain ⟨before, m, after, hsplit, hbefore, hm⟩ := mapM_eq_error_iff.mp hrun
        have hnamed : ∀ b ∈ before, ∃ name, Named outline.file b name := by
          intro b hb
          obtain ⟨name, hname⟩ := exists_result_propertyOf_iff.mp (hbefore b hb)
          exact ⟨name, memberName_eq_ok_iff.mp hname⟩
        obtain ⟨hnot, hfault, hnone⟩ := fault_of_result hm
        refine ⟨before, m, after, e, hsplit, hnamed, hnot, hfault, rfl, ?_⟩
        rw [hsplit, Report.warnings_forEach_append hbefore, Report.warnings_forEach_cons_error hm, hnone,
          List.append_nil]
        exact (warns_of_named hnamed).2

/-- A shape with a shown name, and one with a member whose name is computed. -/
def twoShapes : Outline := .ofFile (Index.read TypeScript.parse "a.ts" (TypeScript.bytesOf
  "type P=\x7b\n/**@propertyName B*/'a':D,2:number\x7d;type Q=\x7bd:D,[k]:E\x7d"))

theorem properties_one_by_one_twoShapes :
    ∃ p q : Focus, twoShapes.shapes.values = [p, q] ∧
      (∃ ps, (propertiesOf twoShapes p).result = .ok ps ∧
        List.Forall₂ (Describes twoShapes) p.significantChildren ps ∧
        Warns twoShapes p.significantChildren
          [Text.ofString "a.ts(2,21): not able to infer type for property a, defaulting to 'text'"]) ∧
      ∃ before m after e, q.significantChildren = before ++ m :: after ∧
        NameFault twoShapes.file m e ∧ (propertiesOf twoShapes q).result = .error e ∧
        Warns twoShapes before
          [Text.ofString "a.ts(2,45): not able to infer type for property d, defaulting to 'text'"] := by
  have hfacts : twoShapes.shapes.values.map (fun shape =>
      (shape.significantChildren.map fun m => (memberName twoShapes.file m).toOption,
        (propertiesOf twoShapes shape).warnings)) =
      [([some (Text.ofString "a"), some (Text.ofString "2")],
          [Text.ofString "a.ts(2,21): not able to infer type for property a, defaulting to 'text'"]),
        ([some (Text.ofString "d"), none],
          [Text.ofString "a.ts(2,45): not able to infer type for property d, defaulting to 'text'"])] := by
    decide +kernel
  obtain ⟨p, rest, hshapes, hp, hrest⟩ := List.map_eq_cons_iff.mp hfacts
  obtain ⟨q, rfl, hq⟩ := List.map_eq_singleton_iff.mp hrest
  obtain ⟨hnamesP, hwarningsP⟩ := Prod.mk.inj hp
  obtain ⟨hnamesQ, hwarningsQ⟩ := Prod.mk.inj hq
  have hnamed : ∀ m ∈ p.significantChildren, ∃ name, Named twoShapes.file m name := by
    intro m hm
    have hsome : (memberName twoShapes.file m).toOption ≠ none := by
      intro hnone
      have hmem : none ∈ p.significantChildren.map fun m => (memberName twoShapes.file m).toOption :=
        List.mem_map.mpr ⟨m, hm, hnone⟩
      rw [hnamesP] at hmem
      simp at hmem
    cases hname : memberName twoShapes.file m with
    | ok name => exact ⟨name, memberName_eq_ok_iff.mp hname⟩
    | error e =>
        rw [hname] at hsome
        exact absurd rfl hsome
  have hunnamed : ∃ m ∈ q.significantChildren, ∀ name, ¬ Named twoShapes.file m name := by
    have hmem : none ∈ q.significantChildren.map fun m => (memberName twoShapes.file m).toOption := by
      rw [hnamesQ]
      simp
    obtain ⟨m, hm, hnone⟩ := List.mem_map.mp hmem
    refine ⟨m, hm, fun name hname => ?_⟩
    rw [hname.memberName_eq] at hnone
    cases hnone
  obtain ⟨ps, hps, hdescribes, hwarns⟩ := (properties_one_by_one twoShapes p).1 hnamed
  obtain ⟨before, m, after, e, hsplit, -, -, hfault, herror, hwarns'⟩ :=
    (properties_one_by_one twoShapes q).2 hunnamed
  rw [hwarningsP] at hwarns
  rw [hwarningsQ] at hwarns'
  exact ⟨p, q, hshapes, ⟨ps, hps, hdescribes, hwarns⟩, before, m, after, e, hsplit, hfault, herror, hwarns'⟩

end PluginManifest.Item
