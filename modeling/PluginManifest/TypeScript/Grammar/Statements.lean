import PluginManifest.TypeScript.Grammar.Expressions

/-! # The grammar of declarations and statements -/

namespace PluginManifest.TypeScript.Grammar

open Rule

/-! ### Variables, functions and classes -/

/-- What a variable declaration binds. -/
def binding : Part := any [identifier, .ref .destructuring]

/-- A declared variable. -/
def variableDeclarator : Part :=
  .node "variable_declarator" (any
    [all [.field "name" identifier, mark "!", .field "type" typeAfterColon],
     all [.field "name" (any [binding, anyName "identifier"]), typed, opt initializer]])

/-- Variables that are known in their block. -/
def lexicalDeclaration : Part :=
  .node "lexical_declaration" (all
    [.field "kind" (any [.seq (word "let") sameStatement, word "const"]),
     commas1 variableDeclarator, semicolon])

/-- Variables that are known in their function. -/
def variableDeclaration : Part :=
  .node "variable_declaration" (all [word "var", commas1 variableDeclarator, semicolon])

/-- A function with a name: with a body, as a generator, or only its signature. -/
def functionDeclaration : Part :=
  let async : Part := opt (.seq (word "async") sameStatement)
  let name : Part := .field "name" (anyName "identifier")
  let body : Part := .seq (.field "body" (.ref .block)) (opt .lineEnd)
  any
    [.node "function_declaration" (all
       [async, word "function", name, callSignature, body]),
     .node "generator_function_declaration" (all
       [async, word "function", mark "*", name, callSignature, body]),
     .node "function_signature" (all
       [async, word "function", name, callSignature, semicolon])]

/-- A class with a name. -/
def classDeclaration : Part :=
  any
    [.node "class_declaration" (all
       [decorators, word "class", className, classRest, opt .lineEnd]),
     .node "abstract_class_declaration" (all
       [decorators, word "abstract", word "class", className, classRest])]

/-- The modifiers of a field of a class. -/
def fieldModifiers : Part :=
  .many (any
    [accessibility nameAhead, overrideModifier nameAhead, modifier "declare", modifier "static",
     modifier "readonly", modifier "abstract", modifier "accessor"])

/-- A field of a class. -/
def fieldDefinition : Part :=
  .node "public_field_definition" (all
    [decorators, fieldModifiers, .field "name" propertyName, opt (any [mark "?", mark "!"]), typed,
     opt initializer])

/-- A method that is left to the classes that extend this one. -/
def abstractMethod : Part :=
  .node "abstract_method_signature" (all
    [opt (accessibility nameAhead), modifier "abstract", opt (overrideModifier nameAhead),
     opt (any [modifier "get", modifier "set", mark "*"]), .field "name" propertyName,
     opt (mark "?"), callSignature])

/-- A member of a class. -/
def classMember : Part :=
  any
    [mark ";",
     .node "class_static_block" (.seq (word "static") (.field "body" (.ref .block))),
     all [decorators, methodDefinition, opt semicolon],
     .seq (any [abstractMethod, indexSignature, methodSignature, fieldDefinition])
       (any [mark ",", semicolon])]

/-- The members of a class. -/
def classBody : Part := .node "class_body" (between "\x7b" "\x7d" (.many classMember))

/-! ### Types and modules -/

/-- A name for a type. -/
def typeAlias : Part :=
  .node "type_alias_declaration" (all
    [word "type", sameStatement, .field "name" typeIdentifier, opt typeParameters, op "=",
     .field "value" (.ref .type), semicolon])

/-- An interface. -/
def interfaceDeclaration : Part :=
  .node "interface_declaration" (all
    [word "interface", .field "name" typeIdentifier, opt typeParameters,
     opt (.node "extends_type_clause" (.seq (word "extends")
       (commas1 (.field "type" (any [genericType, typeName]))))),
     .field "body" (.node "interface_body" objectBody)])

/-- An enumeration. -/
def enumDeclaration : Part :=
  let member : Part := any
    [.node "enum_assignment" (.seq (.field "name" propertyName) initializer),
     .field "name" propertyName]
  .node "enum_declaration" (all
    [opt (word "const"), word "enum", .field "name" identifier,
     .field "body" (.node "enum_body"
       (between "\x7b" "\x7d" (.seq (opt (commas1 member)) (opt (mark ",")))))])

/-- What follows the keyword of a module or namespace. -/
def moduleRest : Part :=
  .seq (.field "name" (any [string, nestedIdentifier, identifier]))
    (opt (.field "body" (.ref .block)))

/-- A namespace. -/
def namespaceDeclaration : Part :=
  .node "internal_module" (all [word "namespace", sameStatement, moduleRest])

/-- A module. -/
def moduleDeclaration : Part :=
  .node "module" (all [word "module", sameStatement, moduleRest])

/-- A name for something in a namespace. -/
def importAlias : Part :=
  .node "import_alias" (all
    [word "import", identifier, op "=", any [nestedIdentifier, identifier], semicolon])

/-- A declaration of something that exists elsewhere. -/
def ambientDeclaration : Part :=
  .node "ambient_declaration" (all [word "declare", sameStatement, any
    [.ref .declaration,
     .seq (word "global") (.ref .block),
     all [word "module", mark ".", propertyIdentifier, mark ":", .ref .type, semicolon]]])

/-- The declarations that are statements as they stand. -/
def plainDeclarations : List Part :=
  [functionDeclaration, classDeclaration, enumDeclaration, lexicalDeclaration, variableDeclaration,
   typeAlias, interfaceDeclaration, moduleDeclaration, importAlias, ambientDeclaration]

/-- A declaration. -/
def declaration : Part := any (plainDeclarations ++ [namespaceDeclaration])

/-! ### Imports and exports -/

/-- The module that names come from. -/
def fromClause : Part := .seq (word "from") (.field "source" string)

/-- A name that a module exports. -/
def exportedName : Part := any [anyName "identifier", string]

/-- A name in the list of an import or export, by itself or under another name. -/
def specifier (type : String) : Part :=
  let plain : Part := .field "name" exportedName
  let renamed : Part := all [plain, word "as", .field "alias" exportedName]
  let finished : Part := .ahead (any [mark ",", mark "\x7d"])
  let sort : Part := any [word "type", word "typeof"]
  .node type (any
    [.seq renamed finished, all [sort, renamed, finished], all [sort, plain, finished], plain])

/-- Names in braces. -/
def specifiers (list item : String) : Part :=
  .node list (between "\x7b" "\x7d" (.seq (opt (commas1 (specifier item))) (opt (mark ","))))

/-- The names that an import binds. -/
def importClause : Part :=
  let everything : Part :=
    .node "namespace_import" (all [mark "*", word "as", anyName "identifier"])
  let named : Part := specifiers "named_imports" "import_specifier"
  .node "import_clause" (any
    [everything, named,
     .seq (anyName "identifier") (opt (.seq (mark ",") (any [everything, named])))])

/-- An import. -/
def importStatement : Part :=
  let target : Part := any
    [.seq importClause fromClause,
     .node "import_require_clause" (all
       [identifier, op "=", word "require", mark "(", .field "source" string, mark ")"])]
  .node "import_statement" (all
    [word "import",
     any [.seq (any [word "type", word "typeof"]) target, target, .field "source" string],
     opt (.node "import_attribute" (.seq (any [word "with", word "assert"]) (.ref .primary))),
     semicolon])

/-- An export. -/
def exportStatement : Part :=
  let names : Part := specifiers "export_clause" "export_specifier"
  let start : Part := .seq (word "export") sameStatement
  .node "export_statement" (any
    [all [start, mark "*", fromClause, semicolon],
     all [start, .node "namespace_export" (all [mark "*", word "as", exportedName]), fromClause,
       semicolon],
     all [start, names, opt fromClause, semicolon],
     all [start, word "type", names, opt fromClause, semicolon],
     all [start, op "=", .ref .expression, semicolon],
     all [start, word "as", word "namespace", identifier, semicolon],
     all [decorators, start, any
       [.seq (word "default") (any
          [.field "declaration" (.ref .declaration),
           .seq (.field "value" (.ref .expression)) semicolon]),
        .field "declaration" (.ref .declaration)]]])

/-! ### Statements -/

/-- Statements in braces. -/
def block : Part :=
  .node "statement_block" (.seq (between "\x7b" "\x7d" (.many (.ref .statement))) (opt .lineEnd))

/-- A condition in parentheses. -/
def condition (role : String) : Part := .field role parenthesized

/-- A statement that is part of another one. -/
def body : Part := .field "body" (.ref .statement)

/-- A semicolon as a statement. -/
def emptyStatement : Part := .node "empty_statement" (mark ";")

/-- A conditional statement. -/
def ifStatement : Part :=
  .node "if_statement" (all
    [word "if", condition "condition", .field "consequence" (.ref .statement),
     opt (.field "alternative" (.node "else_clause" (.seq (word "else") (.ref .statement))))])

/-- A loop over the items or the keys of something. -/
def forInStatement : Part :=
  let header : Part := any
    [all [.field "kind" (word "var"), .field "left" binding, opt initializer],
     .seq (.field "kind" (any [word "let", word "const"])) (.field "left" binding),
     .field "left" (any [.ref .patternTarget, parenthesized])]
  .node "for_in_statement" (all
    [word "for", opt (word "await"), mark "(", header,
     .field "operator" (any [word "in", word "of"]), .field "right" (.ref .expressions), mark ")",
     body])

/-- A loop with a start, a condition and a step. -/
def forStatement : Part :=
  .node "for_statement" (all
    [word "for", mark "(",
     any
       [.field "initializer" (any [lexicalDeclaration, variableDeclaration, emptyStatement]),
        .seq (.field "initializer" (.ref .expressions)) (mark ";")],
     .field "condition" (any [emptyStatement, .seq (.ref .expressions) (mark ";")]),
     opt (.field "increment" (.ref .expressions)), mark ")", body])

/-- A statement that handles failures. -/
def tryStatement : Part :=
  .node "try_statement" (all
    [word "try", .field "body" (.ref .block),
     opt (.field "handler" (.node "catch_clause" (all
       [word "catch",
        opt (between "(" ")" (.seq (.field "parameter" binding) typed)),
        .field "body" (.ref .block)]))),
     opt (.field "finalizer" (.node "finally_clause"
       (.seq (word "finally") (.field "body" (.ref .block)))))])

/-- A choice between cases. -/
def switchStatement : Part :=
  let statements : Part := .field "body" (.many (.ref .statement))
  .node "switch_statement" (all
    [word "switch", condition "value",
     .field "body" (.node "switch_body" (between "\x7b" "\x7d" (.many (any
       [.node "switch_case" (all
          [word "case", .field "value" (.ref .expressions), mark ":", statements]),
        .node "switch_default" (all [word "default", mark ":", statements])]))))])

/-- A jump, with the label it goes to. -/
def jumpStatement (type keyword : String) : Part :=
  .node type (.seq (word keyword) (any
    [semicolon, .seq (.field "label" (freeName "statement_identifier")) semicolon]))

/-- A statement that starts with a keyword. -/
def keywordStatements : List Part :=
  [ifStatement, forInStatement, forStatement,
   .node "while_statement" (all [word "while", condition "condition", body]),
   .node "do_statement" (all
     [word "do", body, word "while", condition "condition", opt semicolon]),
   tryStatement, switchStatement,
   .node "return_statement" (.seq (word "return") (any
     [semicolon, .seq (.ref .expressions) semicolon])),
   .node "throw_statement" (all [word "throw", .ref .expressions, semicolon]),
   jumpStatement "break_statement" "break",
   jumpStatement "continue_statement" "continue",
   .node "debugger_statement" (.seq (word "debugger") semicolon),
   .node "with_statement" (all [word "with", condition "object", body])]

/-- A statement. -/
def statement : Part :=
  any ([exportStatement, importStatement] ++ plainDeclarations ++
    [.ref .block] ++ keywordStatements ++
    [emptyStatement,
     .node "labeled_statement" (all
       [.field "label" (freeName "statement_identifier"), mark ":", body]),
     .node "expression_statement" (.seq namespaceDeclaration semicolon),
     .node "expression_statement" (.seq (.ref .expressions) semicolon)])

end PluginManifest.TypeScript.Grammar
