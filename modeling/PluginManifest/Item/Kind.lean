import PluginManifest.Doc.Comment
import PluginManifest.SyntaxTree.Kind

/-! # Kinds of manifest items

A manifest lists widgets and payment gateways.  A declaration is one of them when its comment
carries the id tag or the name tag of the kind. -/

namespace PluginManifest.Item

/-- What a manifest lists. -/
inductive Kind
  /-- A component, declared by a function. -/
  | widget
  /-- A way to pay, declared by a class. -/
  | paymentGateway
deriving DecidableEq, Repr

namespace Kind

/-- The kind in the words of a message. -/
def label : Kind → Text
  | widget => "widget"
  | paymentGateway => "payment gateway"

/-- The tag that marks an item and may give its id. -/
def idTag : Kind → Text
  | widget => "widget"
  | paymentGateway => "paymentGateway"

/-- The tag that marks an item and gives its name. -/
def nameTag : Kind → Text
  | widget => "widgetName"
  | paymentGateway => "paymentGatewayName"

/-- The tag that gives the version of an item. -/
def versionTag : Kind → Text
  | widget => "widgetVersion"
  | paymentGateway => "paymentGatewayVersion"

/-- The kind of declaration that an item needs. -/
def declarationKind : Kind → SyntaxTree.Kind
  | widget => .functionDeclaration
  | paymentGateway => .classDeclaration

/-- The kind of declaration in the words of a message. -/
def declarationLabel : Kind → Text
  | widget => "function"
  | paymentGateway => "class"

/-- The message about an item on another kind of declaration. -/
def wrongDeclaration : Kind → Text
  | widget => "@widget must be declared on a FunctionComponent"
  | paymentGateway => "@paymentGateway must be declared on a class"

/-- The manifest tells in which file an item was found. -/
def recordsSource : Kind → Bool
  | widget => true
  | paymentGateway => false

/-- The comment declares an item of this kind. -/
def marks (kind : Kind) (comment : Doc.Comment) : Bool :=
  comment.hasTag [kind.idTag, kind.nameTag]

end Kind

end PluginManifest.Item
