import PluginManifest.Item.Descriptor
import PluginManifest.Item.Error
import PluginManifest.Literal.Number
import PluginManifest.Literal.Quoted
import PluginManifest.Source.Outline

/-! # Properties of an object shape

Each member of an object type becomes a property.  Tags of the member's comment give its shown
name and its type; without them the shown name is the member's name and the type follows from
the declared type. -/

namespace PluginManifest.Item

open Source SyntaxTree

/-! ### Names -/

/-- The kinds of members that have a name. -/
def hasName : SyntaxTree.Kind → Bool
  | .propertySignature | .methodSignature | .getAccessor | .setAccessor => true
  | _ => false

/-- The rules of names that are written as they are. -/
def plainNames : List String := ["property_identifier", "identifier", "private_property_identifier"]

/-- The name of a member. -/
def memberName (file : File) (member : Focus) : Except ScanError Text :=
  match member.child? "name" with
  | none => .error (.at file member .unnamedProperty)
  | some name =>
    if !hasName (member.kind file.text) then .error (.at file member .unnamedProperty)
    else if plainNames.contains name.node.type then .ok (name.text file.text)
    else if name.node.type == "string" then
      (Literal.quotedValue (name.text file.text)).mapError .literal
    else if name.node.type == "number" then
      (Literal.numberName (name.text file.text)).mapError .literal
    else .error (.at file member .unclearProperty)

/-! ### Types -/

mutual

/-- The alternatives of a union, unions among them opened. -/
def unionLeaves (source : Bytes) (ancestors : List Node) : Node → List Focus
  | ⟨type, named, start, stop, field, children⟩ =>
    unionLeavesOf source (⟨type, named, start, stop, field, children⟩ :: ancestors) children

/-- The alternatives among the children of a union. -/
def unionLeavesOf (source : Bytes) (ancestors : List Node) : List Node → List Focus
  | [] => []
  | child :: rest =>
    (if child.named && !child.isComment then
      if (Focus.mk child ancestors).kind source = .unionType then unionLeaves source ancestors child
      else [⟨child, ancestors⟩]
    else []) ++ unionLeavesOf source ancestors rest

end

/-- The alternatives of a union in the order of the text. -/
def unionMembers (source : Bytes) (f : Focus) : List Focus := unionLeaves source f.ancestors f.node

/-- The type that a property signature declares. -/
def declaredType? (file : File) (member : Focus) : Option Focus :=
  if member.kind file.text = .propertySignature then
    (member.child? "type").bind fun annotation => annotation.significantChildren.head?
  else none

/-- A type whose values are absent. -/
def isAbsent : SyntaxTree.Kind → Bool
  | .undefinedKeyword | .nullKeyword => true
  | _ => false

/-- The type that decides about a member: of a union with one alternative that is not absent
this alternative, else the declared type. -/
def baseType? {ε : Type} (file : File) (member : Focus) : Report ε (Option Focus) :=
  match declaredType? file member with
  | none => pure none
  | some type =>
    if type.kind file.text = .unionType then
      match (unionMembers file.text type).filter fun t => !isAbsent (t.kind file.text) with
      | [single] => pure (some single)
      | remaining => do
        Report.emit (.unionKept (member.text file.text) remaining.length)
        pure (some type)
    else pure (some type)

/-- The type of a property whose type is not known. -/
def defaultType : Text := "text"

/-- The property type of a keyword type. -/
def primitiveType? : SyntaxTree.Kind → Option Text
  | .stringKeyword => some "text"
  | .numberKeyword => some "number"
  | .booleanKeyword => some "boolean"
  | _ => none

/-- The property type of a member, with a warning when it is only the default. -/
def inferType {ε : Type} (file : File) (name : Text) (member : Focus) : Report ε Text := do
  let base ← baseType? file member
  match base.bind fun t => primitiveType? (t.kind file.text) with
  | some type => pure type
  | none => do
    Report.emit (.typeDefaulted (file.location member) name)
    pure defaultType

/-- A member may be left out when it has a question mark or `undefined` is an alternative of
its type. -/
def isOptional (file : File) (member : Focus) : Bool :=
  member.node.children.any (fun c => !c.named && c.type == "?") ||
    match declaredType? file member with
    | some type =>
      type.kind file.text = .unionType &&
        (unionMembers file.text type).any fun t => t.kind file.text = .undefinedKeyword
    | none => false

/-! ### Properties -/

/-- A text that is present and not empty. -/
def nonEmpty? (t : Option Text) : Option Text := t.filter (!·.isEmpty)

/-- The property of a member. -/
def propertyOf (outline : Outline) (member : Focus) : Report ScanError Property := do
  let name ← Report.ofExcept (memberName outline.file member)
  let tags := outline.tagsFor member.node
  let type ← match nonEmpty? (Doc.Tag.valueOf? tags "propertyType") with
    | some type => pure type
    | none => inferType outline.file name member
  pure
    { name := name
      displayName := (nonEmpty? (Doc.Tag.fullTextOf? tags "propertyName")).getD name
      type := type
      optional := isOptional outline.file member }

/-- The properties of an object shape, one for each member. -/
def propertiesOf (outline : Outline) (shape : Focus) : Report ScanError (List Property) :=
  Report.forEach (propertyOf outline) shape.significantChildren

end PluginManifest.Item
