import PluginManifest.Trivia

/-! # Syntax trees

A node covers a range of bytes and carries the name of its grammar rule.  Named nodes stand
for rules, the others for punctuation and keywords.  A `Focus` is a node together with its
ancestors: what a node is may depend on where it stands. -/

namespace PluginManifest.SyntaxTree

/-- A node of a syntax tree. -/
structure Node where
  /-- The rule or the token that the node stands for. -/
  type : String
  /-- The node stands for a rule. -/
  named : Bool
  /-- The offset of its first byte. -/
  start : Nat
  /-- The offset after its last byte. -/
  stop : Nat
  /-- The role that it plays for its parent. -/
  field : Option String
  /-- Its children in the order of the text. -/
  children : List Node
deriving Inhabited

namespace Node

/-- A comment. -/
def isComment (n : Node) : Bool := n.type == "comment"

/-- Range and type of a node: within one tree they identify it. -/
structure Key where
  /-- The offset of the first byte. -/
  start : Nat
  /-- The offset after the last byte. -/
  stop : Nat
  /-- The rule of the node. -/
  type : String
deriving DecidableEq

/-- The key of a node. -/
def key (n : Node) : Key := ⟨n.start, n.stop, n.type⟩

/-- The children that stand for rules. -/
def namedChildren (n : Node) : List Node := n.children.filter (·.named)

/-- The bytes of a node. -/
def bytes (text : Bytes) (n : Node) : Bytes := Trivia.slice text n.start n.stop

/-- The text of a node. -/
def text (source : Bytes) (n : Node) : Text := Utf8.decodeLossy (n.bytes source)

mutual

/-- The nodes without children, in the order of the text. -/
def leaves : Node → List Node
  | ⟨type, named, start, stop, field, []⟩ => [⟨type, named, start, stop, field, []⟩]
  | ⟨_, _, _, _, _, child :: rest⟩ => child.leaves ++ leavesOf rest

/-- The leaves of several nodes. -/
def leavesOf : List Node → List Node
  | [] => []
  | child :: rest => child.leaves ++ leavesOf rest

end

end Node

/-- A node and its ancestors, the nearest first. -/
structure Focus where
  /-- The node itself. -/
  node : Node
  /-- The nodes that hold it, from its parent up to the root. -/
  ancestors : List Node

namespace Focus

/-- The root of a tree. -/
def root (n : Node) : Focus := ⟨n, []⟩

/-- The type of the parent. -/
def parentType? (f : Focus) : Option String := f.ancestors.head?.map (·.type)

/-- The focus on a child. -/
def down (f : Focus) (child : Node) : Focus := ⟨child, f.node :: f.ancestors⟩

/-- The children that stand for rules. -/
def namedChildren (f : Focus) : List Focus := f.node.namedChildren.map f.down

/-- The children that stand for rules and are no comments. -/
def significantChildren (f : Focus) : List Focus :=
  f.namedChildren.filter (!·.node.isComment)

/-- The first child in the given role. -/
def child? (f : Focus) (field : String) : Option Focus :=
  (f.node.children.find? (·.field == some field)).map f.down

/-- The text of the node. -/
def text (source : Bytes) (f : Focus) : Text := f.node.text source

mutual

/-- The named nodes of a tree in the order of the text, a node before its children. -/
def walkFrom (ancestors : List Node) : Node → List Focus
  | ⟨type, named, start, stop, field, children⟩ =>
    let node : Node := ⟨type, named, start, stop, field, children⟩
    ⟨node, ancestors⟩ :: walkAll (node :: ancestors) children

/-- The named nodes of several trees. -/
def walkAll (ancestors : List Node) : List Node → List Focus
  | [] => []
  | child :: rest =>
    (if child.named then walkFrom ancestors child else []) ++ walkAll ancestors rest

end

/-- The named nodes that can be reached through named nodes, in the order of the text. -/
def walk (root : Node) : List Focus := walkFrom [] root

/-- Nodes that carry the modifiers of the declaration they wrap. -/
def wrapperTypes : List String := ["export_statement", "ambient_declaration"]

/-- Children that a wrapper does not own. -/
def incidentalTypes : List String := ["comment", "decorator"]

/-- The child whose modifiers a wrapper carries. -/
def owned? (wrapper : Node) : Option Node :=
  wrapper.namedChildren.find? fun c => !incidentalTypes.contains c.type

/-- The parent is a wrapper that owns the node. -/
def isOwnedBy (node parent : Node) : Bool :=
  wrapperTypes.contains parent.type && (owned? parent).map Node.key == some node.key

/-- From a node up through the wrappers that own it. -/
def climb (node : Node) : List Node → Focus
  | [] => ⟨node, []⟩
  | parent :: above => if isOwnedBy node parent then climb parent above else ⟨node, parent :: above⟩

/-- The outermost wrapper that owns a node, or the node itself.  Comments of a declaration stand
before its modifiers, so its comments and its location are looked up there. -/
def declaration (f : Focus) : Focus := climb f.node f.ancestors

end Focus

end PluginManifest.SyntaxTree
