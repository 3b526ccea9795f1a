import PluginManifest.Proofs.Attachment
import PluginManifest.Proofs.PreOrder
import PluginManifest.Proofs.PropertyList

/-! # Declarations are taken in the order of the text

The outline of a file lists its comments by the walk to their nodes, and at one node by the ranges
that hold them (`inOrder_documented`); so it lists those that mark an item of a kind
(`inOrder_marked`).  The scan of a file for a widget and the one for payment gateways follow this
order (`result_widgetOf`, `result_gatewaysOf`): which declaration is processed, which one is blamed for
being the second, and whose failure is told (`declarations_in_order`).

`ItemFault` lists what can be wrong with an item by itself. -/

namespace PluginManifest

open SyntaxTree (Focus)
open SyntaxTree.Focus (NamedAt Visits Lists)

namespace Source

variable {file : File}

/-! ### Comments by their nodes -/

/-- The comment at the given place among the ranges attached to the node at the end of the given way:
the node is a declaration, and the range holds a comment that is closed. -/
def CommentAt (file : File) (s : Spot) (d : Documented) : Prop :=
  NamedAt (.root file.root) s.node d.focus ∧ d.kind = d.focus.kind file.text ∧
    d.kind.isDeclaration = true ∧
    ∃ r, (file.docRanges d.focus d.kind)[s.place]? = some r ∧ file.commentAt? r = some d.comment

theorem inOrder_declarations (file : File) :
    InOrder (fun path (d : Focus × SyntaxTree.Kind) => NamedAt (.root file.root) path d.1 ∧
      d.2 = d.1.kind file.text ∧ d.2.isDeclaration = true) file.declarations := by
  have hwalk : InOrder (NamedAt (.root file.root)) (Focus.walk file.root) :=
    Focus.lists_walk file.root
  have hkinds := hwalk.map fun f => (f, f.kind file.text)
  refine (hkinds.filter (·.2.isDeclaration)).congr ?_
  rintro path ⟨f, kind⟩
  constructor
  · rintro ⟨⟨g, hat, heq⟩, hdecl⟩
    cases heq
    exact ⟨hat, rfl, hdecl⟩
  · rintro ⟨hat, hkind, hdecl⟩
    exact ⟨⟨f, hat, congrArg (Prod.mk f) hkind.symm⟩, hdecl⟩

/-- The comments of one declaration go by the ranges that hold them. -/
theorem inOrder_commentsOn (file : File) (d : Focus × SyntaxTree.Kind) :
    InOrder (fun (k : Nat) doc => doc.focus = d.1 ∧ doc.kind = d.2 ∧ ∃ r,
      (file.docRanges d.1 d.2)[k]? = some r ∧ file.commentAt? r = some doc.comment)
      (Outline.commentsOn file d.1 d.2) := by
  rw [File.commentsOn_eq]
  refine ((InOrder.getElem? _).filterMap _).congr ?_
  rintro k ⟨f, kind, comment⟩
  constructor
  · rintro ⟨r, hr, hdoc⟩
    obtain ⟨c, hc, heq⟩ := Option.map_eq_some_iff.mp hdoc
    cases heq
    exact ⟨rfl, rfl, r, hr, hc⟩
  · rintro ⟨rfl, rfl, r, hr, hc⟩
    exact ⟨r, hr, by rw [hc]; rfl⟩

/-- The outline lists the comments by the walk to their nodes, and at one node by their ranges. -/
theorem inOrder_documented (file : File) :
    InOrder (CommentAt file) (Outline.ofFile file).documented := by
  refine ((inOrder_declarations file).flatMap fun d _ => inOrder_commentsOn file d).congr ?_
  rintro s ⟨f, kind, comment⟩
  constructor
  · rintro ⟨⟨g, _⟩, ⟨hat, hkind, hdecl⟩, rfl, rfl, hcomment⟩
    exact ⟨hat, hkind, hdecl, hcomment⟩
  · rintro ⟨hat, hkind, hdecl, hcomment⟩
    exact ⟨(f, kind), ⟨hat, hkind, hdecl⟩, rfl, rfl, hcomment⟩

end Source

namespace Item

open Source

/-! ### Marked declarations -/

/-- A tag of the comment is the id tag or the name tag of the kind. -/
def Marked (kind : Kind) (d : Documented) : Prop :=
  ∃ tag ∈ d.comment.tags, tag.name = kind.idTag ∨ tag.name = kind.nameTag

theorem marks_iff {kind : Kind} {d : Documented} : kind.marks d.comment = true ↔ Marked kind d := by
  unfold Kind.marks Doc.Comment.hasTag Marked
  rw [List.any_eq_true]
  simp

theorem inOrder_marked (kind : Kind) (file : File) :
    InOrder (fun s d => CommentAt file s d ∧ Marked kind d) (marked kind (.ofFile file)) := by
  refine ((inOrder_documented file).filter _).congr fun s d => ?_
  rw [marks_iff]

theorem marked_eq_nil_iff {kind : Kind} {outline : Outline} :
    marked kind outline = [] ↔ ∀ d ∈ outline.documented, ¬ Marked kind d := by
  unfold marked
  rw [List.filter_eq_nil_iff]
  simp only [marks_iff]

/-! ### Faults of one item -/

/-- What can be wrong with an item of a kind.  A type is unresolved only if no shape has its name. -/
inductive ItemFault (kind : Kind) (outline : Outline) : Fault → Prop
  | wrongDeclaration : ItemFault kind outline (.wrongDeclaration kind)
  | noId : ItemFault kind outline (.noId kind)
  | noPropertyType : ItemFault kind outline (.noPropertyType kind)
  | qualifiedType : ItemFault kind outline (.qualifiedType kind)
  | unresolvedType {name : Text} : Keyed.get? outline.shapes name = none →
      ItemFault kind outline (.unresolvedType kind name)
  | unusableType {description : Text} : ItemFault kind outline (.unusableType kind description)
  | unnamedProperty : ItemFault kind outline .unnamedProperty
  | unclearProperty : ItemFault kind outline .unclearProperty

/-- The faults of an outcome are among those allowed. -/
def FaultsAre {α : Type} (allowed : Fault → Prop) (r : Except ScanError α) : Prop :=
  ∀ error, r = .error (.declaration error) → allowed error.fault

section faults

variable {α β : Type} {allowed : Fault → Prop} {r : Except ScanError α}

theorem faultsAre_ok (a : α) : FaultsAre allowed (.ok a) := nofun

theorem faultsAre_at {fault : Fault} (h : allowed fault) (file : File) (f : Focus) :
    FaultsAre allowed (.error (.at file f fault) : Except ScanError α) := by
  intro error heq
  cases heq
  exact h

theorem FaultsAre.bind (h : FaultsAre allowed r) {f : α → Except ScanError β}
    (hf : ∀ a, FaultsAre allowed (f a)) : FaultsAre allowed (r >>= f) := by
  cases r with
  | ok a => exact hf a
  | error e =>
      intro error heq
      cases heq
      exact h error rfl

theorem FaultsAre.map (h : FaultsAre allowed r) (f : α → β) : FaultsAre allowed (r.map f) :=
  h.bind fun a => faultsAre_ok (f a)

theorem FaultsAre.mapM {items : List α} {f : α → Except ScanError β}
    (h : ∀ a, FaultsAre allowed (f a)) : FaultsAre allowed (items.mapM f) := by
  intro error heq
  obtain ⟨_, a, _, -, -, ha⟩ := mapM_eq_error_iff.mp heq
  exact h a error ha

end faults

section items

variable {kind : Kind} {outline : Outline}

theorem faultsAre_propertyOf (member : Focus) :
    FaultsAre (ItemFault kind outline) (propertyOf outline member).result := by
  intro error heq
  obtain ⟨-, hfault, -⟩ := fault_of_result heq
  cases hfault with
  | unnamed => exact .unnamedProperty
  | unclear => exact .unclearProperty

theorem faultsAre_propertiesOf (shape : Focus) :
    FaultsAre (ItemFault kind outline) (propertiesOf outline shape).result := by
  unfold propertiesOf
  rw [Report.result_forEach]
  exact FaultsAre.mapM faultsAre_propertyOf

theorem faultsAre_shapeOf (type : Focus) :
    FaultsAre (ItemFault kind outline) (shapeOf kind outline type) := by
  unfold shapeOf
  dsimp only
  split
  · exact faultsAre_ok _
  · split_ifs
    · exact faultsAre_at .qualifiedType _ _
    · split
      · exact faultsAre_ok _
      · rename_i hnone
        exact faultsAre_at (.unresolvedType hnone) _ _
  · exact faultsAre_at .unusableType _ _

theorem faultsAre_parameterShape? (f : Focus) :
    FaultsAre (ItemFault kind outline) (parameterShape? kind outline f) := by
  unfold parameterShape?
  split
  · exact faultsAre_ok _
  · split
    · exact faultsAre_at .noPropertyType _ _
    · exact (faultsAre_shapeOf _).map _

theorem faultsAre_itemProperties (f : Focus) :
    FaultsAre (ItemFault kind outline) (itemProperties kind outline f).result := by
  unfold itemProperties
  split
  · exact faultsAre_ok _
  · rw [Report.result_bind, Report.result_ofExcept]
    refine (faultsAre_parameterShape? _).bind fun shape? => ?_
    cases shape? with
    | none => exact faultsAre_ok _
    | some shape => exact faultsAre_propertiesOf shape

theorem faultsAre_itemOf (path : Text) (default : DefaultVersion) (d : Documented) :
    FaultsAre (ItemFault kind outline) (itemOf kind path default outline d).result := by
  unfold itemOf
  by_cases hkind : d.kind ≠ kind.declarationKind
  · rw [if_pos hkind]
    exact faultsAre_at .wrongDeclaration _ _
  · rw [if_neg hkind]
    cases itemId? kind outline d with
    | none => exact faultsAre_at .noId _ _
    | some id =>
        rw [Report.result_bind]
        exact (faultsAre_itemProperties _).bind fun properties => faultsAre_ok _

end items

/-! ### Outcomes of the scan of a file -/

section outcomes

variable (path : Text) (default : DefaultVersion) (outline : Outline)

/-- One marked declaration is processed, and of several ones the second is at fault. -/
theorem result_widgetOf : (widgetOf path default outline).result =
    match marked .widget outline with
    | [] => .ok none
    | [d] => (itemOf .widget path default outline d).result.map some
    | _ :: second :: _ => .error (.at outline.file second.focus (.manyWidgets path)) := by
  unfold widgetOf
  rcases marked .widget outline with _ | ⟨d, _ | ⟨second, rest⟩⟩
  · rfl
  · dsimp only
    rw [Report.result_bind, Report.result_emit, ok_bind, Report.result_bind]
    rfl
  · rfl

theorem result_gatewaysOf : (gatewaysOf path default outline).result =
    (marked .paymentGateway outline).mapM
      fun d => (itemOf .paymentGateway path default outline d).result := by
  unfold gatewaysOf
  rcases marked .paymentGateway outline with _ | ⟨d, rest⟩
  · rfl
  · dsimp only
    rw [Report.result_bind, Report.result_emit, ok_bind, Report.result_forEach]

/-- A scan for the widget fails for the number of marked declarations exactly if there are several. -/
theorem result_widgetOf_eq_many_iff {error : SourceError} {p : Text}
    (hfault : error.fault = .manyWidgets p) :
    (widgetOf path default outline).result = .error (.declaration error) ↔
      ∃ first second rest, marked .widget outline = first :: second :: rest ∧
        ScanError.declaration error = .at outline.file second.focus (.manyWidgets path) := by
  rw [result_widgetOf]
  constructor
  · intro h
    split at h
    · cases h
    · rename_i d _
      have hitem := faultsAre_itemOf path default d error (map_eq_error_iff.mp h)
      rw [hfault] at hitem
      cases hitem
    · rename_i first second rest hmany
      exact ⟨first, second, rest, hmany, (Except.error.inj h).symm⟩
  · rintro ⟨first, second, rest, hmany, herror⟩
    rw [hmany, herror]

theorem result_widgetOf_eq_none_iff :
    (widgetOf path default outline).result = .ok none ↔ marked .widget outline = [] := by
  rw [result_widgetOf]
  constructor
  · intro h
    split at h
    · assumption
    · obtain ⟨item, -, heq⟩ := map_eq_ok_iff.mp h
      cases heq
    · cases h
  · intro h
    rw [h]

end outcomes

section scanners

variable (index : Index) (path : Text) (default : DefaultVersion) (text : Bytes) (root : SyntaxTree.Node)

/-- A scanner finds the file that was inserted under its path. -/
theorem outline?_look_insert :
    ((FileScanner.mk path default none).look (index.insert ⟨Index.key path, text, root⟩)).outline? =
      some (.ofFile ⟨Index.key path, text, root⟩) := by
  have hfound : (index.insert ⟨Index.key path, text, root⟩).get? path =
      some ⟨Index.key path, text, root⟩ := by
    rw [Index.get?_insert, if_pos rfl]
  simp [FileScanner.outline?, FileScanner.look, hfound]

theorem widget_look_insert :
    ((FileScanner.mk path default none).look (index.insert ⟨Index.key path, text, root⟩)).widget =
      (widgetOf path default (.ofFile ⟨Index.key path, text, root⟩)).result := by
  unfold FileScanner.widget
  rw [outline?_look_insert]
  rfl

theorem paymentGateways_look_insert :
    ((FileScanner.mk path default none).look
        (index.insert ⟨Index.key path, text, root⟩)).paymentGateways =
      (gatewaysOf path default (.ofFile ⟨Index.key path, text, root⟩)).result := by
  unfold FileScanner.paymentGateways
  rw [outline?_look_insert]
  rfl

end scanners

/-- **Declarations are taken in the order of the text.**  The walk visits the named nodes in
pre-order, as a walk with a stack does; the comments are listed by their nodes in that order, and at one
node by their ranges.  Without a marked declaration there is no widget, of several ones the second is at
fault, and a single one is processed; the payment gateways are processed one after the other, up to the
first that fails. -/
theorem declarations_in_order (index : Index) (path : Text) (default : DefaultVersion) (text : Bytes)
    (root : SyntaxTree.Node) :
    let file : File := ⟨Index.key path, text, root⟩
    let outline := Outline.ofFile file
    let scanner := (FileScanner.mk path default none).look (index.insert file)
    let widgets := marked .widget outline
    let gateways := marked .paymentGateway outline
    let process := fun kind d => (itemOf kind path default outline d).result
    (∀ visited, Visits [.root root] visited ↔ visited = Focus.walk root) ∧
    Lists (NamedAt (.root root)) (Focus.walk root) ∧
    InOrder (CommentAt file) outline.documented ∧
    InOrder (fun s d => CommentAt file s d ∧ Marked .widget d) widgets ∧
    InOrder (fun s d => CommentAt file s d ∧ Marked .paymentGateway d) gateways ∧
    (scanner.widget = .ok none ↔ ∀ d ∈ outline.documented, ¬ Marked .widget d) ∧
    (∀ error p, error.fault = .manyWidgets p →
      (scanner.widget = .error (.declaration error) ↔
        ∃ first second rest, widgets = first :: second :: rest ∧
          ScanError.declaration error = .at file second.focus (.manyWidgets path))) ∧
    (∀ d, widgets = [d] → scanner.widget = (process .widget d).map some) ∧
    (∀ items, scanner.paymentGateways = .ok items ↔
      List.Forall₂ (fun d item => process .paymentGateway d = .ok item) gateways items) ∧
    (∀ e, scanner.paymentGateways = .error e ↔
      ∃ before d after, gateways = before ++ d :: after ∧
        (∀ b ∈ before, ∃ item, process .paymentGateway b = .ok item) ∧
        process .paymentGateway d = .error e) := by
  intro file outline scanner widgets gateways process
  have hwidget : scanner.widget = (widgetOf path default outline).result :=
    widget_look_insert index path default text root
  have hgateways : scanner.paymentGateways = gateways.mapM fun d => process .paymentGateway d :=
    (paymentGateways_look_insert index path default text root).trans
      (result_gatewaysOf path default outline)
  refine ⟨fun _ => Focus.visits_iff root, Focus.lists_walk root, inOrder_documented file,
    inOrder_marked .widget file, inOrder_marked .paymentGateway file, ?_, ?_, ?_, ?_, ?_⟩
  · rw [hwidget, result_widgetOf_eq_none_iff, marked_eq_nil_iff]
  · intro error p hfault
    rw [hwidget]
    exact result_widgetOf_eq_many_iff path default outline hfault
  · intro d hone
    have hmarked : marked .widget outline = [d] := hone
    rw [hwidget, result_widgetOf, hmarked]
  · intro items
    rw [hgateways]
    exact mapM_eq_ok_iff
  · intro e
    rw [hgateways]
    exact mapM_eq_error_iff

/-- The file of a source under one path. -/
def sourceFile (text : Bytes) : File := Index.read TypeScript.parse "a.ts" text

theorem sourceFile_eq (text : Bytes) :
    (⟨Index.key "a.ts", text, (sourceFile text).root⟩ : File) = sourceFile text := rfl

/-- Two marked functions, the second one inside a namespace and exported. -/
def twoWidgets : Bytes := TypeScript.bytesOf
  "/** @widget */ function A() \x7b\x7d\nnamespace N \x7b\n/** @widgetName B */ export function B() \x7b\x7d \x7d"

/-- A marked function behind one that is not marked. -/
def oneWidget : Bytes := TypeScript.bytesOf
  "/** plain */ function A() \x7b\x7d\n/** @widget */ function B() \x7b\x7d"

/-- A scanner that has looked up a file. -/
def scannerIn (file : File) : FileScanner :=
  (FileScanner.mk "a.ts" none none).look (Index.empty.insert file)

theorem declarations_in_order_twoWidgets :
    (∃ first second rest,
      marked .widget (.ofFile (sourceFile twoWidgets)) = first :: second :: rest ∧
        (sourceFile twoWidgets).positionOf second.focus = ⟨3, 22⟩) ∧
    ∃ d, marked .widget (.ofFile (sourceFile oneWidget)) = [d] ∧
      (scannerIn (sourceFile oneWidget)).widget =
        (itemOf .widget "a.ts" none (.ofFile (sourceFile oneWidget)) d).result.map some := by
  constructor
  · have horder := declarations_in_order .empty "a.ts" none twoWidgets
      (sourceFile twoWidgets).root
    rw [sourceFile_eq] at horder
    obtain ⟨-, -, -, -, -, -, hmany, -⟩ := horder
    have hscan : (scannerIn (sourceFile twoWidgets)).widget.map (fun _ => ()) =
        .error (.declaration ⟨.manyWidgets "a.ts", "a.ts", ⟨3, 22⟩⟩) := by
      decide +kernel
    obtain ⟨first, second, rest, hwidgets, herror⟩ :=
      (hmany ⟨.manyWidgets "a.ts", "a.ts", ⟨3, 22⟩⟩ "a.ts" rfl).mp (map_eq_error_iff.mp hscan)
    refine ⟨first, second, rest, hwidgets, ?_⟩
    exact (congrArg SourceError.position (ScanError.declaration.inj herror)).symm
  · have horder := declarations_in_order .empty "a.ts" none oneWidget
      (sourceFile oneWidget).root
    rw [sourceFile_eq] at horder
    obtain ⟨-, -, -, -, -, -, -, hone, -⟩ := horder
    have hmarked : (marked .widget (.ofFile (sourceFile oneWidget))).map
        (·.focus.node.start) = [44] := by
      decide +kernel
    obtain ⟨d, hd, -⟩ := List.map_eq_singleton_iff.mp hmarked
    exact ⟨d, hd, hone d hd⟩

end Item

end PluginManifest
