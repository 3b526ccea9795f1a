import PluginManifest.Text.Blank
import PluginManifest.SyntaxTree.Node

/-! # Kinds of nodes

The scan tells apart a closed set of kinds; every other node is of the kind `unknown`.  Most
kinds follow from the node's rule alone, some from its text, its children or its parent. -/

namespace PluginManifest.SyntaxTree

/-- The kinds of nodes that the scan tells apart. -/
inductive Kind
  | arrowFunction | bindingElement | classDeclaration | classExpression | constructor
  | enumDeclaration | enumMember | exportSpecifier | functionDeclaration | functionExpression
  | getAccessor | importClause | importEqualsDeclaration | importSpecifier | interfaceDeclaration
  | jsxAttribute | methodDeclaration | methodSignature | moduleDeclaration | namespaceImport
  | parameter | propertyAssignment | propertyDeclaration | propertySignature | setAccessor
  | shorthandPropertyAssignment | typeAliasDeclaration | typeParameter | variableDeclaration
  | callSignature | constructSignature | indexSignature | parenthesizedExpression
  | arrayType | functionType | intersectionType | literalType | parenthesizedType | tupleType
  | typeLiteral | typeReference | unionType
  | anyKeyword | booleanKeyword | neverKeyword | nullKeyword | numberKeyword | objectKeyword
  | stringKeyword | symbolKeyword | undefinedKeyword | unknownKeyword | voidKeyword
  | unknown
deriving DecidableEq, Repr

namespace Kind

/-- The name of a kind in messages. -/
def name : Kind → String
  | arrowFunction => "ArrowFunction"
  | bindingElement => "BindingElement"
  | classDeclaration => "ClassDeclaration"
  | classExpression => "ClassExpression"
  | constructor => "Constructor"
  | enumDeclaration => "EnumDeclaration"
  | enumMember => "EnumMember"
  | exportSpecifier => "ExportSpecifier"
  | functionDeclaration => "FunctionDeclaration"
  | functionExpression => "FunctionExpression"
  | getAccessor => "GetAccessor"
  | importClause => "ImportClause"
  | importEqualsDeclaration => "ImportEqualsDeclaration"
  | importSpecifier => "ImportSpecifier"
  | interfaceDeclaration => "InterfaceDeclaration"
  | jsxAttribute => "JsxAttribute"
  | methodDeclaration => "MethodDeclaration"
  | methodSignature => "MethodSignature"
  | moduleDeclaration => "ModuleDeclaration"
  | namespaceImport => "NamespaceImport"
  | parameter => "Parameter"
  | propertyAssignment => "PropertyAssignment"
  | propertyDeclaration => "PropertyDeclaration"
  | propertySignature => "PropertySignature"
  | setAccessor => "SetAccessor"
  | shorthandPropertyAssignment => "ShorthandPropertyAssignment"
  | typeAliasDeclaration => "TypeAliasDeclaration"
  | typeParameter => "TypeParameter"
  | variableDeclaration => "VariableDeclaration"
  | callSignature => "CallSignature"
  | constructSignature => "ConstructSignature"
  | indexSignature => "IndexSignature"
  | parenthesizedExpression => "ParenthesizedExpression"
  | arrayType => "ArrayType"
  | functionType => "FunctionType"
  | intersectionType => "IntersectionType"
  | literalType => "LiteralType"
  | parenthesizedType => "ParenthesizedType"
  | tupleType => "TupleType"
  | typeLiteral => "TypeLiteral"
  | typeReference => "TypeReference"
  | unionType => "UnionType"
  | anyKeyword => "AnyKeyword"
  | booleanKeyword => "BooleanKeyword"
  | neverKeyword => "NeverKeyword"
  | nullKeyword => "NullKeyword"
  | numberKeyword => "NumberKeyword"
  | objectKeyword => "ObjectKeyword"
  | stringKeyword => "StringKeyword"
  | symbolKeyword => "SymbolKeyword"
  | undefinedKeyword => "UndefinedKeyword"
  | unknownKeyword => "UnknownKeyword"
  | voidKeyword => "VoidKeyword"
  | unknown => "Unknown"

/-- The kinds of declarations: only these carry documentation. -/
def isDeclaration : Kind → Bool
  | arrowFunction | bindingElement | classDeclaration | classExpression | constructor
  | enumDeclaration | enumMember | exportSpecifier | functionDeclaration | functionExpression
  | getAccessor | importClause | importEqualsDeclaration | importSpecifier | interfaceDeclaration
  | jsxAttribute | methodDeclaration | methodSignature | moduleDeclaration | namespaceImport
  | parameter | propertyAssignment | propertyDeclaration | propertySignature | setAccessor
  | shorthandPropertyAssignment | typeAliasDeclaration | typeParameter | variableDeclaration => true
  | _ => false

/-- The kinds whose comment may also follow the previous token on its line, as in
`function f(/** doc */ props: Props)`. -/
def takesTrailingComments : Kind → Bool
  | parameter | typeParameter | functionExpression | arrowFunction | parenthesizedExpression => true
  | _ => false

/-- The kinds that follow from the rule of a node. -/
def ofRule : List (String × Kind) :=
  [("abstract_class_declaration", classDeclaration),
   ("abstract_method_signature", methodDeclaration),
   ("array_type", arrayType),
   ("arrow_function", arrowFunction),
   ("call_signature", callSignature),
   ("class", classExpression),
   ("class_declaration", classDeclaration),
   ("construct_signature", constructSignature),
   ("enum_assignment", enumMember),
   ("enum_declaration", enumDeclaration),
   ("export_specifier", exportSpecifier),
   ("function", functionExpression),
   ("function_declaration", functionDeclaration),
   ("function_expression", functionExpression),
   ("function_signature", functionDeclaration),
   ("function_type", functionType),
   ("generator_function", functionExpression),
   ("generator_function_declaration", functionDeclaration),
   ("generic_type", typeReference),
   ("import_alias", importEqualsDeclaration),
   ("import_clause", importClause),
   ("import_specifier", importSpecifier),
   ("index_signature", indexSignature),
   ("interface_declaration", interfaceDeclaration),
   ("internal_module", moduleDeclaration),
   ("intersection_type", intersectionType),
   ("jsx_attribute", jsxAttribute),
   ("module", moduleDeclaration),
   ("namespace_import", namespaceImport),
   ("nested_type_identifier", typeReference),
   ("null", nullKeyword),
   ("object_assignment_pattern", bindingElement),
   ("object_type", typeLiteral),
   ("optional_parameter", parameter),
   ("pair", propertyAssignment),
   ("pair_pattern", bindingElement),
   ("parenthesized_expression", parenthesizedExpression),
   ("parenthesized_type", parenthesizedType),
   ("property_signature", propertySignature),
   ("public_field_definition", propertyDeclaration),
   ("required_parameter", parameter),
   ("shorthand_property_identifier", shorthandPropertyAssignment),
   ("shorthand_property_identifier_pattern", bindingElement),
   ("tuple_type", tupleType),
   ("type_alias_declaration", typeAliasDeclaration),
   ("type_identifier", typeReference),
   ("type_parameter", typeParameter),
   ("undefined", undefinedKeyword),
   ("union_type", unionType),
   ("variable_declarator", variableDeclaration)]

/-- The kinds of the types that have a keyword of their own. -/
def ofKeyword : List (String × Kind) :=
  [("any", anyKeyword), ("boolean", booleanKeyword), ("never", neverKeyword),
   ("number", numberKeyword), ("object", objectKeyword), ("string", stringKeyword),
   ("symbol", symbolKeyword), ("unique symbol", symbolKeyword), ("unknown", unknownKeyword),
   ("void", voidKeyword)]

/-- The kind of a keyword type, whatever blanks stand in it. -/
def ofTypeText (t : Text) : Kind :=
  let plain := Text.join " " (Text.words t)
  match ofKeyword.find? fun (word, _) => Text.ofString word = plain with
  | some (_, kind) => kind
  | none => unknown

end Kind

namespace Focus

/-- The kind of a method: a constructor by its name, an accessor by its keyword, and in a shape
a signature. -/
def methodKind (source : Bytes) (f : Focus) : Kind :=
  let definition := f.node.type == "method_definition"
  let inClass := f.parentType? == some "class_body"
  let named := match f.child? "name" with
    | some name => name.text source = "constructor"
    | none => false
  if named && (definition || inClass) then .constructor
  else
    match f.node.children.find? fun c => !c.named && (c.type == "get" || c.type == "set") with
    | some c => if c.type == "get" then .getAccessor else .setAccessor
    | none => if !definition && !inClass then .methodSignature else .methodDeclaration

/-- The kind of a literal type: the type of `undefined` or `null`, or of another literal. -/
def literalKind (f : Focus) : Kind :=
  match f.node.namedChildren.head? with
  | some inner =>
    if inner.type == "undefined" then .undefinedKeyword
    else if inner.type == "null" then .nullKeyword else .literalType
  | none => .literalType

/-- The kind of a node. -/
def kind (source : Bytes) (f : Focus) : Kind :=
  let type := f.node.type
  let byRule := (Kind.ofRule.lookup type).getD .unknown
  if !f.node.named then .unknown
  else if type == "predefined_type" then Kind.ofTypeText (f.text source)
  else if type == "literal_type" then f.literalKind
  else if type == "type_identifier" && f.text source = "undefined" then .undefinedKeyword
  else if type == "method_definition" || type == "method_signature" then f.methodKind source
  else if type == "property_identifier" then
    if f.parentType? == some "enum_body" then .enumMember else .unknown
  else if f.parentType? == some "export_statement" then
    -- A function or class without a name that is exported declares something.
    if type == "class" then .classDeclaration
    else if type == "function" || type == "function_expression" then .functionDeclaration
    else byRule
  else byRule

/-- The kind of a node in words for messages. -/
def describe (source : Bytes) (f : Focus) : Text :=
  match f.kind source with
  | .unknown => f.node.type
  | kind => kind.name

end Focus

end PluginManifest.SyntaxTree
