import PluginManifest.Item.Properties
import PluginManifest.Source.Index

/-! # Items of a file

A file declares at most one widget and any number of payment gateways.  The properties of an
item are the members of the type of the first parameter: of the function that declares a
widget, of the constructor of the class that declares a payment gateway. -/

namespace PluginManifest.Item

open Source SyntaxTree

/-- The version of an item whose comment gives none. -/
abbrev DefaultVersion := Option Value

/-! ### The shape of the properties -/

/-- The rules of parameters. -/
def parameterTypes : List String := ["required_parameter", "optional_parameter"]

/-- The first parameter of a function or constructor. -/
def firstParameter? (f : Focus) : Option Focus :=
  (f.child? "parameters").bind fun params =>
    params.significantChildren.find? fun p => parameterTypes.contains p.node.type

/-- The name that a reference to a type writes. -/
def referenceName (f : Focus) : Focus :=
  if f.node.type == "generic_type" then (f.child? "name").getD f else f

/-- The object shape that a type stands for: itself, or the alias that it names. -/
def shapeOf (kind : Kind) (outline : Outline) (type : Focus) : Except ScanError Focus :=
  let file := outline.file
  match type.kind file.text with
  | .typeLiteral => .ok type
  | .typeReference =>
    let name := referenceName type
    if name.node.type == "nested_type_identifier" then
      .error (.at file type (.qualifiedType kind))
    else
      match Keyed.get? outline.shapes (name.text file.text) with
      | some shape => .ok shape
      | none => .error (.at file type (.unresolvedType kind (name.text file.text)))
  | _ => .error (.at file type (.unusableType kind (type.describe file.text)))

/-- The object shape of the first parameter, if there is a parameter. -/
def parameterShape? (kind : Kind) (outline : Outline) (f : Focus) :
    Except ScanError (Option Focus) :=
  match firstParameter? f with
  | none => .ok none
  | some first =>
    match (first.child? "type").bind fun annotation => annotation.significantChildren.head? with
    | none => .error (.at outline.file first (.noPropertyType kind))
    | some type => (shapeOf kind outline type).map some

/-- The constructor of a class. -/
def constructor? (file : File) (f : Focus) : Option Focus :=
  (f.child? "body").bind fun body =>
    body.namedChildren.find? fun m => m.kind file.text = .constructor

/-- The function whose first parameter takes the properties of an item. -/
def propertyTaker? (kind : Kind) (file : File) (f : Focus) : Option Focus :=
  match kind with
  | .widget => some f
  | .paymentGateway => constructor? file f

/-- The properties of an item. -/
def itemProperties (kind : Kind) (outline : Outline) (f : Focus) :
    Report ScanError (List Property) :=
  match propertyTaker? kind outline.file f with
  | none => pure []
  | some taker => do
    match ← Report.ofExcept (parameterShape? kind outline taker) with
    | none => pure []
    | some shape => propertiesOf outline shape

/-! ### Items -/

/-- The id of an item: the one that its comment gives, else the name of its declaration. -/
def itemId? (kind : Kind) (outline : Outline) (d : Documented) : Option Text :=
  nonEmpty? (Doc.Tag.valueOf? d.comment.tags kind.idTag) <|>
    nonEmpty? ((d.focus.child? "name").map (·.text outline.file.text))

/-- The version of an item: the one that its comment gives, else the default. -/
def itemVersion (kind : Kind) (tags : List Doc.Tag) (default : DefaultVersion) : Option Value :=
  match nonEmpty? (Doc.Tag.valueOf? tags kind.versionTag) with
  | some version => some (.text version)
  | none => default

/-- The item that a documented declaration declares in the file known as `path`. -/
def itemOf (kind : Kind) (path : Text) (default : DefaultVersion) (outline : Outline)
    (d : Documented) : Report ScanError Descriptor := do
  if d.kind ≠ kind.declarationKind then
    Report.fail (.at outline.file d.focus (.wrongDeclaration kind))
  else
    match itemId? kind outline d with
    | none => Report.fail (.at outline.file d.focus (.noId kind))
    | some id => do
      let properties ← itemProperties kind outline d.focus
      pure
        { id := id
          name := (nonEmpty? (Doc.Tag.fullTextOf? d.comment.tags kind.nameTag)).getD id
          description := d.comment.description
          version := itemVersion kind d.comment.tags default
          sourceLocation := if kind.recordsSource then some path else none
          properties := properties }

/-- The declarations that are marked as items of a kind. -/
def marked (kind : Kind) (outline : Outline) : List Documented :=
  outline.documented.filter fun d => kind.marks d.comment

/-- The widget of a file, if it declares one. -/
def widgetOf (path : Text) (default : DefaultVersion) (outline : Outline) :
    Report ScanError (Option Descriptor) :=
  match marked .widget outline with
  | [] => pure none
  | [d] => do
    Report.emit (.widgetFound path)
    let item ← itemOf .widget path default outline d
    pure (some item)
  | _ :: second :: _ => Report.fail (.at outline.file second.focus (.manyWidgets path))

/-- The payment gateways of a file in the order of the text. -/
def gatewaysOf (path : Text) (default : DefaultVersion) (outline : Outline) :
    Report ScanError (List Descriptor) :=
  match marked .paymentGateway outline with
  | [] => pure []
  | found => do
    Report.emit (.gatewaysFound found.length path)
    Report.forEach (itemOf .paymentGateway path default outline) found

/-- The widget of a file that may be missing from the index. -/
def widgetOf? (path : Text) (default : DefaultVersion) :
    Option Outline → Report ScanError (Option Descriptor)
  | some outline => widgetOf path default outline
  | none => pure none

/-- The payment gateways of a file that may be missing from the index. -/
def gatewaysOf? (path : Text) (default : DefaultVersion) :
    Option Outline → Report ScanError (List Descriptor)
  | some outline => gatewaysOf path default outline
  | none => pure []

end PluginManifest.Item
