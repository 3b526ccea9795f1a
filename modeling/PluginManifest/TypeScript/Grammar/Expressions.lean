import PluginManifest.TypeScript.Grammar.Types

/-! # The grammar of expressions and patterns -/

namespace PluginManifest.TypeScript.Grammar

open Rule

/-! ### Literals, functions and classes -/

/-- A string with expressions in it. -/
def templateString : Part :=
  .node "template_string" (all
    [mark "\x60",
     .many (any
       [.token "string_fragment" true true .templatePart,
        .token "escape_sequence" true true .escape,
        .node "template_substitution" (all [glued "$\x7b", .ref .expressions, mark "\x7d"])]),
     glued "\x60"])

/-- A regular expression. -/
def regex : Part :=
  .node "regex" (all
    [mark "/", .field "pattern" (.token "regex_pattern" true true .regex), glued "/",
     opt (.field "flags" (.token "regex_flags" true true .regexFlags))])

/-- The items of something that is spread. -/
def spread : Part := .node "spread_element" (.seq (mark "...") (.ref .expression))

/-- An expression in parentheses. -/
def parenthesized : Part :=
  .node "parenthesized_expression" (between "(" ")" (.seq (.ref .expressions) typed))

/-- The arguments of a call. -/
def arguments : Part :=
  .node "arguments" (between "(" ")" (commasLoose (any [spread, .ref .expression])))

/-- A method with its body. -/
def methodDefinition : Part :=
  .node "method_definition" (all
    [methodModifiers, .field "name" propertyName, opt (mark "?"), callSignature,
     .field "body" (.ref .block)])

/-- A member of an object. -/
def objectMember : Part :=
  any
    [spread, methodDefinition,
     .node "pair" (all [.field "key" propertyName, mark ":", .field "value" (.ref .expression)]),
     freeName "shorthand_property_identifier"]

/-- A function as a value. -/
def functionExpression : Part :=
  any
    [.node "function_expression" (all
       [opt (word "async"), word "function", opt (.field "name" identifier), callSignature,
        .field "body" (.ref .block)]),
     .node "generator_function" (all
       [opt (word "async"), word "function", mark "*", opt (.field "name" identifier),
        callSignature, .field "body" (.ref .block)])]

/-- The classes and interfaces that a class builds on. -/
def classHeritage : Part :=
  let implementsClause : Part :=
    .node "implements_clause" (.seq (word "implements") (commas1 (.ref .type)))
  .node "class_heritage" (any
    [.seq
       (.node "extends_clause" (.seq (word "extends") (commas1
         (.seq (.field "value" (.ref .access)) (opt (.field "type_arguments" typeArguments))))))
       (opt implementsClause),
     implementsClause])

/-- The name of a class: the words that start its heritage are no names. -/
def className : Part :=
  .seq (.unless (any [word "extends", word "implements"])) (.field "name" typeIdentifier)

/-- What follows the name of a class. -/
def classRest : Part :=
  all [opt typeParameters, opt classHeritage, .field "body" (.ref .classBody)]

/-- A class as a value. -/
def classExpression : Part :=
  .node "class" (all [decorators, word "class", opt className, classRest])

/-- A property of `new` or of `import` itself. -/
def metaProperty : Part :=
  .node "meta_property" (any
    [all [word "new", mark ".", word "target"], all [word "import", mark ".", word "meta"]])

/-- An expression without anything after it. -/
def primary : Part :=
  any
    [functionExpression, classExpression, identifier, this, undefined, leaf "super" "super",
     leaf "true" "true", leaf "false" "false", leaf "null" "null", string, number, templateString,
     parenthesized,
     .node "array" (between "[" "]" (commasLoose (any [spread, .ref .expression]))),
     .node "object" (between "\x7b" "\x7d" (commasLoose objectMember)),
     regex, metaProperty, .seq importKeyword (.ahead (mark "(")),
     .token "private_property_identifier" true false .privateName]

/-! ### Accesses and calls -/

/-- An access to a property. -/
def memberStep : Part := .absorb "member_expression" (some "object") (.seq (op ".") property)

/-- An access by an index. -/
def subscriptStep : Part :=
  .absorb "subscript_expression" (some "object")
    (all [mark "[", .field "index" (.ref .expressions), mark "]"])

/-- The assertion that a value is present. -/
def nonNullStep : Part := .absorb "non_null_expression" none (.seq .sameLine (op "!"))

/-- The mark of an access to something that may be absent. -/
def optionalChain : Part := .field "optional_chain" (.node "optional_chain" (op "?."))

/-- The arguments of a call in their role. -/
def callArguments : Part := .field "arguments" (.ref .arguments)

/-- What may follow an expression that is called or accessed. -/
def accessStep : Part :=
  any
    [memberStep,
     .absorb "call_expression" (some "function")
       (all [op "?.", opt (.field "type_arguments" typeArguments), callArguments]),
     .absorb "subscript_expression" (some "object")
       (all [optionalChain, mark "[", .field "index" (.ref .expressions), mark "]"]),
     .absorb "member_expression" (some "object") (.seq optionalChain property),
     subscriptStep,
     .absorb "call_expression" (some "function") callArguments,
     .absorb "call_expression" (some "function") (.field "arguments" templateString),
     .absorb "call_expression" (some "function")
       (.seq (.field "type_arguments" typeArguments)
         (any [callArguments, .field "arguments" templateString])),
     .absorb "instantiation_expression" none
       (.seq (.field "type_arguments" typeArguments)
         (.ahead (any [mark ")", mark "]", mark ",", mark ";", mark ":", mark "\x7d", .sourceEnd]))),
     nonNullStep]

/-- An object made by a constructor. -/
def newExpression : Part :=
  .node "new_expression" (all
    [word "new", .field "constructor" (.ref .constructed),
     opt (.field "type_arguments" typeArguments), opt callArguments])

/-- An expression with the calls and accesses after it. -/
def access : Part := .fold (any [metaProperty, newExpression, .ref .primary]) accessStep

/-- An expression that can be constructed: accesses, but no calls. -/
def constructed : Part := .fold (.ref .primary) (any [memberStep, subscriptStep, nonNullStep])

/-! ### Operators -/

/-- The keywords and signs before an expression. -/
def prefixOperators : Part :=
  any [op "!", op "~", op "-", op "+", word "typeof", word "void", word "delete"]

/-- The operators that change a variable by one. -/
def stepOperators : Part := .field "operator" (any [op "++", op "--"])

/-- An expression without binary operators; `special` is what may start with a bracket. -/
def unary (special : Part) : Part :=
  any
    [.node "unary_expression"
       (.seq (.field "operator" prefixOperators) (.field "argument" (.ref .unary))),
     .node "await_expression" (.seq (word "await") (.ref .unary)),
     .node "update_expression" (.seq stepOperators (.field "argument" (.ref .unary))),
     special,
     .fold (.ref .access)
       (.absorb "update_expression" (some "argument") (.seq .sameLine stepOperators))]

/-- The binary operators from the weakest level to the strongest. -/
def binaryLevels : List (List String) :=
  [["??"], ["||"], ["&&"], ["|"], ["^"], ["&"], ["==", "===", "!=", "!=="], ["<", "<=", ">", ">="],
   ["<<", ">>", ">>>"], ["+", "-"], ["*", "/", "%"], ["**"]]

/-- The binary operators that are words, with their level. -/
def wordLevel : Nat := 7

/-- A step by an operator of a level.  Powers associate to the right. -/
def binaryStep (level : Nat) (operators : Part) : Part :=
  .absorb "binary_expression" (some "left")
    (.seq (.field "operator" operators)
      (.field "right" (.ref (.binary (if level = 11 then level else level + 1)))))

/-- The operators of one level. -/
def operatorsAt (level : Nat) (signs : List String) : Part :=
  any (signs.map op ++ if level = wordLevel then [word "instanceof", word "in"] else [])

/-- The steps by operators that bind at least as strongly as a level. -/
def binarySteps (level : Nat) : List Part :=
  (binaryLevels.zipIdx.drop level).map fun (signs, l) => binaryStep l (operatorsAt l signs)

/-- The steps that give an expression a type; they bind most weakly. -/
def typeSteps : List Part :=
  [.absorb "as_expression" none (all [.sameLine, word "as", any [word "const", .ref .type]]),
   .absorb "satisfies_expression" none (all [.sameLine, word "satisfies", .ref .type])]

/-- An expression of operators that bind at least as strongly as a level. -/
def binary (level : Nat) : Part :=
  .fold (.ref .unary) (any (binarySteps level ++ if level = 0 then typeSteps else []))

/-- The operators that assign a changed value. -/
def assignmentOperators : Part :=
  any (["+=", "-=", "*=", "/=", "%=", "^=", "&=", "|=", ">>=", ">>>=", "<<=", "**=", "&&=", "||=",
    "??="].map op)

/-- What may follow an expression of operators: a choice or an assignment. -/
def expressionStep : Part :=
  let otherwise : Part := all [mark ":", .field "alternative" (.ref .expression)]
  any
    [.absorb "ternary_expression" (some "condition") (.seq (op "?") (any
       [.seq (.field "consequence" (.ref .expression)) otherwise,
        .seq (.field "consequence" (.ref (.binary 0))) otherwise])),
     .absorb "assignment_expression" (some "left")
       (.seq (op "=") (.field "right" (.ref .expression))),
     .absorb "augmented_assignment_expression" (some "left")
       (.seq (.field "operator" assignmentOperators) (.field "right" (.ref .expression)))]

/-- A function written with an arrow, after the signature `head`. -/
def arrowRest (head : Part) : Part :=
  all [head, mark "=>", .field "body" (any [.ref .block, .ref .expression])]

/-- A function written with an arrow and what follows it.  A body that is an expression takes all
of it; after a block the function can be called or stand before an operator. -/
def arrowUse (body : Part) : Part :=
  .fold (.node "arrow_function" body)
    (any (accessStep :: binarySteps 0 ++ typeSteps ++ [expressionStep]))

/-- A function written with an arrow that does not start with type parameters. -/
def arrowFunction : Part :=
  let parameter : Part := .seq (.field "parameter" identifier) (.ahead (mark "=>"))
  arrowUse (any
    [all [word "async", .sameLine, arrowRest (any [parameter, callSignature])],
     arrowRest (any [parameter, .seq (.ahead (mark "(")) callSignature])])

/-- A function written with an arrow that starts with type parameters. -/
def genericArrow : Part :=
  arrowUse (arrowRest (.seq (.ahead (mark "<")) callSignature))

/-- An expression without a comma; the dialects differ in what they try first and last. -/
def expression (first last : List Part) : Part :=
  .operand (any (first ++
    [arrowFunction,
     .node "yield_expression" (.seq (word "yield") (any
       [.seq (mark "*") (.ref .expression), .seq .sameLine (.ref .expression), .empty])),
     .node "assignment_expression" (all
       [.field "left" (.ref .destructuring), op "=", .field "right" (.ref .expression)]),
     .fold (.ref (.binary 0)) expressionStep] ++ last))

/-- An expression, or several with commas in between. -/
def expressions : Part :=
  .fold (.ref .expression)
    (.absorb "sequence_expression" none (.seq (mark ",") (commas1 (.ref .expression))))

/-! ### Patterns -/

/-- A pattern with a default. -/
def defaultStep (type : String) : Part :=
  .absorb type (some "left") (.seq (op "=") (.field "right" (.ref .expression)))

/-- A pattern that may have a default. -/
def patternOrDefault : Part := .fold (.ref .pattern) (defaultStep "assignment_pattern")

/-- The pattern of what is left. -/
def restPattern : Part := .node "rest_pattern" (.seq (mark "...") (.ref .patternTarget))

/-- The pattern of a member of an object. -/
def memberPattern : Part :=
  any
    [restPattern,
     .node "pair_pattern" (all
       [.field "key" propertyName, mark ":", .field "value" patternOrDefault]),
     .fold (freeName "shorthand_property_identifier_pattern")
       (defaultStep "object_assignment_pattern"),
     .onto (.ref .destructuring) (defaultStep "object_assignment_pattern")]

/-- A pattern in brackets or braces. -/
def destructuring : Part :=
  any
    [.node "object_pattern" (between "\x7b" "\x7d" (commasLoose memberPattern)),
     .node "array_pattern" (between "[" "]" (commasLoose patternOrDefault))]

/-- The target of an assignment other than a rest. -/
def patternTarget : Part :=
  any
    [.ref .destructuring,
     .fold (any [identifier, this, undefined, leaf "super" "super"])
       (any [memberStep, subscriptStep, nonNullStep])]

/-- The target of an assignment or a parameter. -/
def pattern : Part := any [restPattern, .ref .patternTarget]

end PluginManifest.TypeScript.Grammar
