import PluginManifest.TypeScript.Rule

/-! # Names of grammar rules, and the rules of words and literals

A rule that can occur inside itself has a name of its own, a `Symbol`; the other rules are
plain definitions. -/

namespace PluginManifest.TypeScript

/-- The names of the rules that can occur inside themselves. -/
inductive Symbol
  /-- A type. -/
  | type
  /-- A type without a condition. -/
  | unionType
  /-- A type that is no union. -/
  | intersectionType
  /-- A type that is neither a union nor an intersection. -/
  | typeOperand
  /-- A type with the brackets after it. -/
  | postfixType
  /-- A type without anything after it. -/
  | primaryType
  /-- An expression without a comma. -/
  | expression
  /-- An expression. -/
  | expressions
  /-- An expression of operators that bind at least as strongly as a level. -/
  | binary (level : Nat)
  /-- An expression without binary operators. -/
  | unary
  /-- An expression with the calls and accesses after it. -/
  | access
  /-- An expression that can be constructed with `new`. -/
  | constructed
  /-- An expression without anything after it. -/
  | primary
  /-- The target of an assignment or a parameter. -/
  | pattern
  /-- The target of an assignment other than a rest. -/
  | patternTarget
  /-- A pattern in brackets or braces. -/
  | destructuring
  /-- The arguments of a call. -/
  | arguments
  /-- The parameters of a function. -/
  | parameters
  /-- A declaration. -/
  | declaration
  /-- A statement. -/
  | statement
  /-- Statements in braces. -/
  | block
  /-- The members of a class. -/
  | classBody
  /-- A markup element. -/
  | element

namespace Grammar

open Rule

/-- A rule of the grammar. -/
abbrev Part := Rule Symbol

/-- Words that are no names where an expression or a type is expected. -/
def reserved : List Bytes :=
  ["await", "break", "case", "catch", "class", "const", "continue", "debugger", "default", "delete",
   "do", "else", "enum", "extends", "false", "finally", "for", "function", "if", "import",
   "in", "instanceof", "new", "null", "return", "super", "switch", "this", "throw", "true", "try",
   "typeof", "undefined", "var", "void", "while", "with", "yield"].map bytesOf

/-- A name as a node of the given type, keywords included. -/
def anyName (type : String) : Part := .token type true false (.name [])

/-- A name as a node of the given type, keywords excluded. -/
def freeName (type : String) : Part := .token type true false (.name reserved)

/-- The name of a variable. -/
def identifier : Part := freeName "identifier"

/-- The name of a type. -/
def typeIdentifier : Part := freeName "type_identifier"

/-- The name of a property after a point. -/
def propertyIdentifier : Part := anyName "property_identifier"

/-- A number. -/
def number : Part := .token "number" true false .number

/-- A mark directly after what stands before it. -/
def glued (s : String) : Part := .token s false true (.text (bytesOf s))

/-- A string in the given quotes. -/
def quoted (quote : String) (byte : UInt8) : Part :=
  .node "string" (all
    [mark quote,
     .many (any [.token "string_fragment" true true (.stringPart byte),
       .token "escape_sequence" true true .escape]),
     glued quote])

/-- A string. -/
def string : Part := any [quoted "\"" 0x22, quoted "'" 0x27]

/-- The keyword `this`. -/
def this : Part := leaf "this" "this"

/-- The keyword `undefined`. -/
def undefined : Part := leaf "undefined" "undefined"

/-- A semicolon, or the end of a line in its place. -/
def semicolon : Part := any [mark ";", .lineEnd]

/-- A name or an operator in square brackets. -/
def computedName : Part := .node "computed_property_name" (between "[" "]" (.ref .expression))

/-- The name of a property where it is declared. -/
def propertyName : Part :=
  any [propertyIdentifier, .token "private_property_identifier" true false .privateName, string,
    number, computedName]

/-- A property after a point. -/
def property : Part :=
  .field "property" (any [propertyIdentifier,
    .token "private_property_identifier" true false .privateName])

/-- No line ends here: a word that could stand alone would be a statement or a member. -/
def sameStatement : Part := .unless .lineEnd

/-- The start of a name of a property, or of a modifier before it. -/
def nameAhead : Part :=
  .seq sameStatement
    (.ahead (any [anyName "", mark "\"", mark "'", number, mark "[", mark "#", mark "*"]))

/-- The start of a parameter, or of a modifier before it. -/
def parameterAhead : Part := .ahead (any [anyName "", mark "\x7b", mark "["])

/-- A keyword that modifies what comes after it, as opposed to a name. -/
def modifier (s : String) : Part := .seq (word s) nameAhead

/-- Who may access a member. -/
def accessibility (following : Part) : Part :=
  .node "accessibility_modifier" (.seq (any [word "public", word "private", word "protected"]) following)

/-- The mark of a member that replaces an inherited one. -/
def overrideModifier (following : Part) : Part :=
  .node "override_modifier" (.seq (word "override") following)

/-- A name with the names of the namespaces around it. -/
def nestedIdentifier : Part :=
  .onto
    (.fold (.seq identifier (.ahead (mark ".")))
      (.absorb "member_expression" (some "object") (all [mark ".", property, .ahead (mark ".")])))
    (.absorb "nested_identifier" (some "object") (all [mark ".", property]))

/-- The value that a variable, parameter or member starts with. -/
def initializer : Part := .seq (op "=") (.field "value" (.ref .expression))

/-- The keyword that loads a module in an expression or a type. -/
def importKeyword : Part := .node "import" (word "import")

/-- A decorator. -/
def decorator : Part :=
  .node "decorator" (.seq (mark "@") (any
    [.node "parenthesized_expression" (between "(" ")" (.ref .expressions)),
     .fold (anyName "identifier") (any
       [.absorb "member_expression" (some "object") (.seq (mark ".") property),
        .absorb "call_expression" (some "function") (.field "arguments" (.ref .arguments))])]))

/-- The decorators before a declaration. -/
def decorators : Part := .many (.field "decorator" decorator)

end Grammar

end PluginManifest.TypeScript
