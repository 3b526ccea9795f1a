import PluginManifest.Proofs.DeclarationOrder

/-! # Named shapes

The properties of an item may be written as an object type of their own, under a name.  `ShapeAt` tells
where the file declares an alias of an object type under a name, and the outline keeps the last one in
the order of the walk (`get?_shapes_eq_some_iff`); aliases of other types do not count.  So a reference
that is not qualified stands for the last such alias of the whole file, and it is unresolved exactly if
there is none (`references_resolve_to_last_shape`): where the declaration stands makes no
difference. -/

namespace PluginManifest

open SyntaxTree (Focus)
open SyntaxTree.Focus (NamedAt)

namespace Source

variable {file : File} {name : Text} {shape : Focus}

@[simp] theorem Outline.file_ofFile (file : File) : (Outline.ofFile file).file = file := rfl

/-! ### Aliases of object types -/

/-- The file declares an alias of an object type: at the end of the given way, under the given name. -/
def ShapeAt (file : File) (name : Text) (path : List Nat) (shape : Focus) : Prop :=
  ∃ declaration naming, NamedAt (.root file.root) path declaration ∧
    declaration.kind file.text = .typeAliasDeclaration ∧
    declaration.child? "name" = some naming ∧ naming.text file.text = name ∧
    declaration.child? "value" = some shape ∧ shape.kind file.text = .typeLiteral

/-- The last object type that is declared under a name. -/
def LastShape (file : File) (name : Text) (shape : Focus) : Prop :=
  ∃ path, ShapeAt file name path shape ∧
    ∀ path' shape', ShapeAt file name path' shape' → path' < path ∨ path' = path

/-- The object types under a name in the order of the text. -/
def shapesNamed (file : File) (name : Text) : List Focus :=
  ((Outline.aliases file).filter fun a => a.name = name && a.isShape file).map (·.type)

theorem alias?_eq_some_iff {f : Focus} {kind : SyntaxTree.Kind} {a : Outline.Alias} :
    Outline.alias? file f kind = some a ↔
      kind = .typeAliasDeclaration ∧ ∃ naming, f.child? "name" = some naming ∧
        naming.text file.text = a.name ∧ f.child? "value" = some a.type := by
  unfold Outline.alias?
  split_ifs with hkind
  · cases hname : f.child? "name" with
    | none => simp
    | some naming =>
        cases hvalue : f.child? "value" with
        | none => simp
        | some value =>
            obtain ⟨name, type⟩ := a
            simp [hkind]
  · simp [hkind]

theorem inOrder_shapesNamed (file : File) (name : Text) :
    InOrder (ShapeAt file name) (shapesNamed file name) := by
  refine ((((inOrder_declarations file).filterMap _).filter _).map _).congr fun path shape => ?_
  constructor
  · rintro ⟨a, ⟨⟨⟨f, kind⟩, ⟨hat, hkind, -⟩, halias⟩, hshape⟩, rfl⟩
    obtain ⟨hdecl, naming, hnaming, htext, hvalue⟩ := alias?_eq_some_iff.mp halias
    rw [Bool.and_eq_true, decide_eq_true_eq] at hshape
    exact ⟨f, naming, hat, hkind.symm.trans hdecl, hnaming, htext.trans hshape.1, hvalue,
      of_decide_eq_true hshape.2⟩
  · rintro ⟨f, naming, hat, hdecl, hnaming, rfl, hvalue, hshape⟩
    refine ⟨⟨naming.text file.text, shape⟩,
      ⟨⟨(f, .typeAliasDeclaration), ⟨hat, hdecl.symm, rfl⟩, ?_⟩, ?_⟩, rfl⟩
    · exact alias?_eq_some_iff.mpr ⟨rfl, naming, hnaming, rfl, hvalue⟩
    · rw [Bool.and_eq_true, decide_eq_true_eq]
      exact ⟨rfl, decide_eq_true hshape⟩

/-- What the outline finds under a name is the last of the shapes, however these are listed. -/
theorem get?_shapes {shapes : List Focus} (h : InOrder (ShapeAt file name) shapes) :
    Keyed.get? (Outline.ofFile file).shapes name = shapes.getLast? := by
  have hfound : Keyed.get? (Outline.ofFile file).shapes name = (shapesNamed file name).getLast? := by
    unfold Outline.ofFile shapesNamed
    rw [Keyed.get?_ofPairs, List.filter_map, List.map_map, List.filter_filter]
    rfl
  rw [hfound]
  refine Option.ext fun shape => ?_
  rw [(inOrder_shapesNamed file name).getLast?_eq_some_iff, h.getLast?_eq_some_iff]

theorem get?_shapes_eq_some_iff :
    Keyed.get? (Outline.ofFile file).shapes name = some shape ↔ LastShape file name shape := by
  rw [get?_shapes (inOrder_shapesNamed file name), (inOrder_shapesNamed file name).getLast?_eq_some_iff]
  rfl

theorem get?_shapes_eq_none_iff :
    Keyed.get? (Outline.ofFile file).shapes name = none ↔
      ∀ path shape, ¬ ShapeAt file name path shape := by
  rw [get?_shapes (inOrder_shapesNamed file name), List.getLast?_eq_none_iff,
    List.eq_nil_iff_forall_not_mem]
  simp only [(inOrder_shapesNamed file name).mem_iff, not_exists]
  exact forall_comm

theorem exists_lastShape {way : List Nat} (h : ShapeAt file name way shape) :
    ∃ last, LastShape file name last := by
  cases hfound : Keyed.get? (Outline.ofFile file).shapes name with
  | none => exact absurd h (get?_shapes_eq_none_iff.mp hfound way shape)
  | some last => exact ⟨last, get?_shapes_eq_some_iff.mp hfound⟩

end Source

namespace Item

open Source

/-! ### References -/

/-- A reference to a type by a name that is not qualified. -/
inductive RefersTo (file : File) : Focus → Text → Prop
  /-- The name alone. -/
  | plain {type : Focus} : type.node.named = true → type.node.type = "type_identifier" →
      type.text file.text ≠ "undefined" → RefersTo file type (type.text file.text)
  /-- The name with type arguments. -/
  | generic {type naming : Focus} : type.node.named = true → type.node.type = "generic_type" →
      type.child? "name" = some naming → naming.node.type ≠ "nested_type_identifier" →
      RefersTo file type (naming.text file.text)
  /-- Type arguments on something that has no name of its own. -/
  | unnamed {type : Focus} : type.node.named = true → type.node.type = "generic_type" →
      type.child? "name" = none → RefersTo file type (type.text file.text)

/-- Lists that correspond are both empty, or their last items correspond. -/
theorem getLast?_of_forall₂ {α β : Type} {R : α → β → Prop} {l : List α} {l' : List β}
    (h : List.Forall₂ R l l') :
    l.getLast? = none ∧ l'.getLast? = none ∨
      ∃ a b, R a b ∧ l.getLast? = some a ∧ l'.getLast? = some b := by
  rw [← List.forall₂_reverse_iff] at h
  rw [← List.head?_reverse, ← List.head?_reverse]
  generalize l.reverse = r at h ⊢
  generalize l'.reverse = r' at h ⊢
  cases h with
  | nil => exact .inl ⟨rfl, rfl⟩
  | cons hab _ => exact .inr ⟨_, _, hab, rfl, rfl⟩

section references

variable {file : File} {type : Focus} {name : Text}

theorem kind_generic {source : Bytes} (hnamed : type.node.named = true)
    (htype : type.node.type = "generic_type") : type.kind source = .typeReference := by
  have hrule : (SyntaxTree.Kind.ofRule.lookup "generic_type").getD .unknown = .typeReference := by
    decide +kernel
  unfold Focus.kind
  simp [hnamed, htype, hrule]

theorem RefersTo.kind_eq (h : RefersTo file type name) : type.kind file.text = .typeReference := by
  cases h with
  | plain hnamed htype htext =>
      have hrule : (SyntaxTree.Kind.ofRule.lookup "type_identifier").getD .unknown = .typeReference := by
        decide +kernel
      unfold Focus.kind
      simp [hnamed, htype, htext, hrule]
  | generic hnamed htype => exact kind_generic hnamed htype
  | unnamed hnamed htype => exact kind_generic hnamed htype

/-- What the reference names is its name, without a qualification. -/
theorem RefersTo.referenceName_eq (h : RefersTo file type name) :
    (referenceName type).node.type ≠ "nested_type_identifier" ∧
      (referenceName type).text file.text = name := by
  unfold referenceName
  cases h with
  | plain hnamed htype => simp [htype]
  | generic hnamed htype hnaming hunqualified => simp [htype, hnaming, hunqualified]
  | unnamed hnamed htype hnaming => simp [htype, hnaming]

/-- A reference stands for what the outline keeps under its name. -/
theorem RefersTo.shapeOf_eq (h : RefersTo file type name) (kind : Kind) :
    shapeOf kind (.ofFile file) type =
      (Keyed.get? (Outline.ofFile file).shapes name).elim
        (.error (.at file type (.unresolvedType kind name))) .ok := by
  obtain ⟨hunqualified, hname⟩ := h.referenceName_eq
  unfold shapeOf
  dsimp only
  rw [Outline.file_ofFile, h.kind_eq]
  dsimp only
  rw [if_neg (by simpa using hunqualified), hname]
  cases Keyed.get? (Outline.ofFile file).shapes name with
  | none => rfl
  | some shape => rfl

theorem RefersTo.shapeOf_eq_ok (h : RefersTo file type name) (kind : Kind) {shape : Focus}
    (hlast : LastShape file name shape) : shapeOf kind (.ofFile file) type = .ok shape := by
  rw [h.shapeOf_eq, get?_shapes_eq_some_iff.mpr hlast, Option.elim_some]

/-- Two references resolve alike if the object types under their names correspond one by one. -/
theorem RefersTo.resolve_alike {file' : File} {type' : Focus} {name' : Text} {R : Focus → Focus → Prop}
    {shapes shapes' : List Focus} (h : RefersTo file type name) (h' : RefersTo file' type' name')
    (hshapes : InOrder (ShapeAt file name) shapes) (hshapes' : InOrder (ShapeAt file' name') shapes')
    (hrelated : List.Forall₂ R shapes shapes') (kind kind' : Kind) :
    (∃ shape shape', R shape shape' ∧ shapeOf kind (.ofFile file) type = .ok shape ∧
      shapeOf kind' (.ofFile file') type' = .ok shape') ∨
    shapeOf kind (.ofFile file) type = .error (.at file type (.unresolvedType kind name)) ∧
      shapeOf kind' (.ofFile file') type' = .error (.at file' type' (.unresolvedType kind' name')) := by
  rw [h.shapeOf_eq, h'.shapeOf_eq, get?_shapes hshapes, get?_shapes hshapes']
  rcases getLast?_of_forall₂ hrelated with ⟨hnone, hnone'⟩ | ⟨shape, shape', hR, hlast, hlast'⟩
  · rw [hnone, hnone']
    exact .inr ⟨rfl, rfl⟩
  · rw [hlast, hlast']
    exact .inl ⟨shape, shape', hR, rfl, rfl⟩

end references

/-! ### Items whose properties have a named type -/

/-- The type that the first parameter of an item is annotated with. -/
def annotatedType? (kind : Kind) (file : File) (f : Focus) : Option Focus := do
  let taker ← propertyTaker? kind file f
  let first ← firstParameter? taker
  let annotation ← first.child? "type"
  annotation.significantChildren.head?

/-- The declaration is of the right kind and has an id, and its properties are taken by a reference to
the given name. -/
structure TakesNamed (kind : Kind) (file : File) (d : Documented) (type : Focus) (name : Text) :
    Prop where
  /-- The kind of the declaration. -/
  declares : d.kind = kind.declarationKind
  /-- The id. -/
  hasId : (itemId? kind (.ofFile file) d).isSome = true
  /-- The first parameter. -/
  takes : annotatedType? kind file d.focus = some type
  /-- Its type. -/
  refers : RefersTo file type name

section items

variable {kind : Kind} {file : File} {d : Documented} {type : Focus} {name : Text}

theorem result_itemProperties (h : annotatedType? kind file d.focus = some type) :
    (itemProperties kind (.ofFile file) d.focus).result =
      shapeOf kind (.ofFile file) type >>= fun shape => (propertiesOf (.ofFile file) shape).result := by
  obtain ⟨taker, htaker, h⟩ := Option.bind_eq_some_iff.mp h
  obtain ⟨first, hfirst, h⟩ := Option.bind_eq_some_iff.mp h
  have hshape : parameterShape? kind (.ofFile file) taker =
      (shapeOf kind (.ofFile file) type).map some := by
    unfold parameterShape?
    rw [hfirst]
    dsimp only
    rw [show ((first.child? "type").bind fun annotation => annotation.significantChildren.head?) =
      some type from h]
  unfold itemProperties
  rw [Outline.file_ofFile, htaker]
  dsimp only
  rw [Report.result_bind, Report.result_ofExcept, hshape]
  cases shapeOf kind (.ofFile file) type with
  | ok shape => rfl
  | error e => rfl

/-- The properties of the item are those of the shape that its type stands for. -/
theorem TakesNamed.properties_itemOf (h : TakesNamed kind file d type name) (path : Text)
    (default : DefaultVersion) :
    (itemOf kind path default (.ofFile file) d).result.map Descriptor.properties =
      shapeOf kind (.ofFile file) type >>= fun shape => (propertiesOf (.ofFile file) shape).result := by
  obtain ⟨id, hid⟩ := Option.isSome_iff_exists.mp h.hasId
  unfold itemOf
  rw [if_neg (not_not.mpr h.declares), hid]
  dsimp only
  rw [Report.result_bind, result_itemProperties h.takes]
  cases shapeOf kind (.ofFile file) type >>= fun shape => (propertiesOf (.ofFile file) shape).result with
  | ok properties => rfl
  | error e => rfl

/-- An item fails for the name of its type exactly if no object type has the name. -/
theorem TakesNamed.result_itemOf_eq_unresolved_iff (h : TakesNamed kind file d type name) (path : Text)
    (default : DefaultVersion) :
    (itemOf kind path default (.ofFile file) d).result =
        .error (.at file type (.unresolvedType kind name)) ↔
      ∀ path shape, ¬ ShapeAt file name path shape := by
  rw [← get?_shapes_eq_none_iff]
  constructor
  · intro hfails
    have hfault := faultsAre_itemOf path default d _ hfails
    cases hfault with
    | unresolvedType hnone => exact hnone
  · intro hnone
    have hproperties := h.properties_itemOf path default
    rw [h.refers.shapeOf_eq, hnone] at hproperties
    exact map_eq_error_iff.mp hproperties

theorem TakesNamed.result_widgetOf_eq_unresolved_iff (h : TakesNamed .widget file d type name)
    (hone : marked .widget (.ofFile file) = [d]) (path : Text) (default : DefaultVersion) :
    (widgetOf path default (.ofFile file)).result =
        .error (.at file type (.unresolvedType .widget name)) ↔
      ∀ way shape, ¬ ShapeAt file name way shape := by
  rw [← h.result_itemOf_eq_unresolved_iff path default, result_widgetOf, hone]
  exact map_eq_error_iff

theorem TakesNamed.result_gatewaysOf_eq_unresolved_iff (h : TakesNamed .paymentGateway file d type name)
    {path : Text} {default : DefaultVersion} {before after : List Documented}
    (hsplit : marked .paymentGateway (.ofFile file) = before ++ d :: after)
    (hbefore : ∀ b ∈ before, ∃ item,
      (itemOf .paymentGateway path default (.ofFile file) b).result = .ok item) :
    (gatewaysOf path default (.ofFile file)).result =
        .error (.at file type (.unresolvedType .paymentGateway name)) ↔
      ∀ way shape, ¬ ShapeAt file name way shape := by
  rw [result_gatewaysOf, mapM_eq_error_iff]
  constructor
  · -- The failure may be that of a later item, but then too the name has no object type.
    rintro ⟨_, other, _, -, -, hfails⟩
    have hfault := faultsAre_itemOf path default other _ hfails
    cases hfault with
    | unresolvedType hnone => exact get?_shapes_eq_none_iff.mp hnone
  · intro hnone
    exact ⟨before, d, after, hsplit, hbefore, (h.result_itemOf_eq_unresolved_iff path default).mpr hnone⟩

end items

/-- **A named type stands for the last object type that the file declares under the name,** before or
after the item and however deep, and aliases of other types do not hide it; without one the scan
fails at the reference.  So two references resolve alike if the object types under their names correspond
one by one, wherever the items stand among them. -/
theorem references_resolve_to_last_shape (index : Index) (path : Text) (default : DefaultVersion)
    (text : Bytes) (root : SyntaxTree.Node) (kind : Kind) (d : Documented) (type : Focus) (name : Text)
    (h : TakesNamed kind ⟨Index.key path, text, root⟩ d type name) :
    let file : File := ⟨Index.key path, text, root⟩
    let outline := Outline.ofFile file
    let scanner := (FileScanner.mk path default none).look (index.insert file)
    let process := fun d => (itemOf kind path default outline d).result
    let unresolved := ScanError.at file type (.unresolvedType kind name)
    (∀ shape, LastShape file name shape →
      shapeOf kind outline type = .ok shape ∧
        (process d).map Descriptor.properties = (propertiesOf outline shape).result) ∧
    ((∃ way shape, ShapeAt file name way shape) → ∃ shape, LastShape file name shape) ∧
    (process d = .error unresolved ↔ ∀ way shape, ¬ ShapeAt file name way shape) ∧
    (kind = .widget → marked .widget outline = [d] →
      (scanner.widget = .error unresolved ↔ ∀ way shape, ¬ ShapeAt file name way shape)) ∧
    (kind = .paymentGateway → ∀ before after, marked .paymentGateway outline = before ++ d :: after →
      (∀ b ∈ before, ∃ item, process b = .ok item) →
      (scanner.paymentGateways = .error unresolved ↔ ∀ way shape, ¬ ShapeAt file name way shape)) ∧
    ∀ (file' : File) (kind' : Kind) (d' : Documented) (type' : Focus) (name' : Text),
      TakesNamed kind' file' d' type' name' →
      ∀ (R : Focus → Focus → Prop) (shapes shapes' : List Focus), InOrder (ShapeAt file name) shapes →
        InOrder (ShapeAt file' name') shapes' → List.Forall₂ R shapes shapes' →
        (∃ shape shape', R shape shape' ∧ shapeOf kind outline type = .ok shape ∧
          shapeOf kind' (.ofFile file') type' = .ok shape') ∨
        shapeOf kind outline type = .error unresolved ∧
          shapeOf kind' (.ofFile file') type' =
            .error (.at file' type' (.unresolvedType kind' name')) := by
  intro file outline scanner process unresolved
  refine ⟨?_, ?_, h.result_itemOf_eq_unresolved_iff path default, ?_, ?_, ?_⟩
  · intro shape hlast
    have hshape := h.refers.shapeOf_eq_ok kind hlast
    refine ⟨hshape, ?_⟩
    rw [h.properties_itemOf, hshape]
    rfl
  · rintro ⟨way, shape, hat⟩
    exact exists_lastShape hat
  · rintro rfl hone
    rw [widget_look_insert]
    exact h.result_widgetOf_eq_unresolved_iff hone path default
  · rintro rfl before after hsplit hbefore
    rw [paymentGateways_look_insert]
    exact h.result_gatewaysOf_eq_unresolved_iff hsplit hbefore
  · intro file' kind' d' type' name' h' R shapes shapes' hshapes hshapes' hrelated
    exact h.refers.resolve_alike h'.refers hshapes hshapes' hrelated kind kind'

/-- The alias stands behind the widget, inside a namespace and before an alias of another type. -/
def shapeBehind : Bytes := TypeScript.bytesOf
  "/** @widget */ function W(p: P) \x7b\x7d\nnamespace N \x7b type P = \x7b a: A \x7d \x7d\ntype P = A"

/-- The alias stands before the widget. -/
def shapeBefore : Bytes := TypeScript.bytesOf
  "type P = \x7b a: A \x7d\n/** @widget */ function W(p: P) \x7b\x7d"

/-- There is only an alias of another type. -/
def noShape : Bytes := TypeScript.bytesOf
  "type P = A\n/** @widget */ function W(p: P) \x7b\x7d"

/-- The one widget of a file takes the type `P`, and the object types of this name have the given
texts. -/
theorem exists_takesNamed {file : File} {texts : List Text}
    (h : (marked .widget (.ofFile file)).map (fun d =>
      decide (d.kind = .functionDeclaration) && ((itemId? .widget (.ofFile file) d).isSome &&
        decide ((annotatedType? .widget file d.focus).map (fun type =>
          (type.node.named, type.node.type, type.text file.text)) =
            some (true, "type_identifier", Text.ofString "P")))) = [true] ∧
      (shapesNamed file "P").map (·.text file.text) = texts) :
    ∃ d type, marked .widget (.ofFile file) = [d] ∧ TakesNamed .widget file d type "P" ∧
      (shapesNamed file "P").map (·.text file.text) = texts := by
  obtain ⟨d, hone, hd⟩ := List.map_eq_singleton_iff.mp h.1
  rw [Bool.and_eq_true, Bool.and_eq_true, decide_eq_true_eq, decide_eq_true_eq] at hd
  obtain ⟨hkind, hid, htype⟩ := hd
  obtain ⟨type, htype, hfacts⟩ := Option.map_eq_some_iff.mp htype
  obtain ⟨hnamed, hfacts⟩ := Prod.mk.inj hfacts
  obtain ⟨hrule, htext⟩ := Prod.mk.inj hfacts
  have hrefers : RefersTo file type (type.text file.text) :=
    .plain hnamed hrule (by rw [htext]; decide)
  rw [htext] at hrefers
  exact ⟨d, type, hone, ⟨hkind, hid, htype, hrefers⟩, h.2⟩

theorem references_resolve_to_last_shape_anywhere :
    let behind := sourceFile shapeBehind
    let before := sourceFile shapeBefore
    let without := sourceFile noShape
    (∃ d d' type type' shape shape', TakesNamed .widget behind d type "P" ∧
      TakesNamed .widget before d' type' "P" ∧
      shapeOf .widget (.ofFile behind) type = .ok shape ∧
      shapeOf .widget (.ofFile before) type' = .ok shape' ∧
      shape.text behind.text = shape'.text before.text) ∧
    ∃ d type, TakesNamed .widget without d type "P" ∧
      (scannerIn without).widget = .error (.at without type (.unresolvedType .widget "P")) := by
  intro behind before without
  have hbehind : ∃ d type, marked .widget (.ofFile behind) = [d] ∧ TakesNamed .widget behind d type "P" ∧
      (shapesNamed behind "P").map (·.text behind.text) = ["\x7b a: A \x7d"] :=
    exists_takesNamed (by decide +kernel)
  have hbefore : ∃ d type, marked .widget (.ofFile before) = [d] ∧ TakesNamed .widget before d type "P" ∧
      (shapesNamed before "P").map (·.text before.text) = ["\x7b a: A \x7d"] :=
    exists_takesNamed (by decide +kernel)
  have hwithout : ∃ d type, marked .widget (.ofFile without) = [d] ∧
      TakesNamed .widget without d type "P" ∧
      (shapesNamed without "P").map (·.text without.text) = [] :=
    exists_takesNamed (by decide +kernel)
  constructor
  · obtain ⟨d, type, -, h, htexts⟩ := hbehind
    obtain ⟨d', type', -, h', htexts'⟩ := hbefore
    have hresolve := references_resolve_to_last_shape .empty "a.ts" none shapeBehind
      behind.root .widget d type "P"
    rw [sourceFile_eq] at hresolve
    obtain ⟨hlast, hexists, -, -, -, halike⟩ := hresolve h
    obtain ⟨shape, hone, -⟩ := List.map_eq_singleton_iff.mp htexts
    obtain ⟨way, hat⟩ := (inOrder_shapesNamed behind "P").mem_iff.mp (hone ▸ List.mem_singleton_self shape)
    have hsame := htexts.trans htexts'.symm
    rw [← List.forall₂_eq_eq_eq, List.forall₂_map_left_iff, List.forall₂_map_right_iff] at hsame
    rcases halike _ .widget d' type' "P" h' _ _ _ (inOrder_shapesNamed _ _)
      (inOrder_shapesNamed _ _) hsame with ⟨shape, shape', htext, hshape, hshape'⟩ | ⟨hfails, -⟩
    · exact ⟨d, d', type, type', shape, shape', h, h', hshape, hshape', htext⟩
    · obtain ⟨last, hlastShape⟩ := hexists ⟨way, shape, hat⟩
      have hfound := (hlast last hlastShape).1
      rw [hfails] at hfound
      cases hfound
  · obtain ⟨d, type, hone, h, htexts⟩ := hwithout
    have hresolve := references_resolve_to_last_shape .empty "a.ts" none noShape
      without.root .widget d type "P"
    rw [sourceFile_eq] at hresolve
    obtain ⟨-, -, -, hscan, -⟩ := hresolve h
    refine ⟨d, type, h, (hscan rfl hone).mpr fun way shape hat => ?_⟩
    have hmem := (inOrder_shapesNamed without "P").mem_iff.mpr ⟨way, hat⟩
    rw [List.map_eq_nil_iff.mp htexts] at hmem
    cases hmem

end Item

end PluginManifest
