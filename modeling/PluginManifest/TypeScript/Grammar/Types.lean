import PluginManifest.TypeScript.Grammar.Symbol

/-! # The grammar of types -/

namespace PluginManifest.TypeScript.Grammar

open Rule

/-! ### Annotations and signatures -/

/-- The type after a colon. -/
def typeAfterColon : Part := .node "type_annotation" (.seq (mark ":") (.ref .type))

/-- A type annotation in its role, if there is one. -/
def typed : Part := opt (.field "type" typeAfterColon)

/-- Types in angle brackets. -/
def typeArguments : Part :=
  .node "type_arguments" (between "<" ">" (.seq (commas1 (.ref .type)) (opt (mark ","))))

/-- A type parameter with its bound and its default. -/
def typeParameter : Part :=
  .node "type_parameter" (all
    [opt (modifier "const"),
     .field "name" typeIdentifier,
     opt (.field "constraint" (.node "constraint"
       (.seq (any [word "extends", mark ":"]) (.ref .type)))),
     opt (.field "value" (.node "default_type" (.seq (op "=") (.ref .type))))])

/-- Type parameters in angle brackets. -/
def typeParameters : Part :=
  .field "type_parameters" (.node "type_parameters"
    (between "<" ">" (.seq (commas1 typeParameter) (opt (mark ",")))))

/-- The assertion that a value has a type. -/
def typePredicate : Part :=
  .node "type_predicate" (all
    [.field "name" (any [this, anyName "identifier"]), word "is", .field "type" (.ref .type)])

/-- The assertion that a function only returns if something holds. -/
def asserts : Part :=
  .node "asserts" (all [word "asserts", .sameLine, any [typePredicate, this, identifier]])

/-- What a function returns. -/
def returnType : Part :=
  .field "return_type" (any
    [.node "asserts_annotation" (.seq (mark ":") asserts),
     .node "type_predicate_annotation" (.seq (mark ":") typePredicate),
     typeAfterColon])

/-- Type parameters, parameters and result of a function. -/
def callSignature : Part :=
  all [opt typeParameters, .field "parameters" (.ref .parameters), opt returnType]

/-! ### Parameters -/

/-- A parameter with its modifiers, before its type. -/
def parameterName : Part :=
  all [decorators, opt (accessibility parameterAhead), opt (overrideModifier parameterAhead),
    opt (.seq (word "readonly") parameterAhead), .field "pattern" (.ref .pattern)]

/-- A parameter. -/
def parameter : Part :=
  .onto parameterName (any
    [.absorb "optional_parameter" none (all [mark "?", typed, opt initializer]),
     .absorb "required_parameter" none (all [typed, opt initializer])])

/-- Parameters in parentheses. -/
def parameters : Part :=
  .node "formal_parameters" (between "(" ")" (.seq (opt (commas1 parameter)) (opt (mark ","))))

/-! ### Members of object types -/

/-- The modifiers of a member of an object type. -/
def memberModifiers : Part :=
  all [opt (accessibility nameAhead), opt (modifier "static"), opt (overrideModifier nameAhead),
    opt (modifier "readonly")]

/-- The words and the sign before the name of a method. -/
def methodModifiers : Part :=
  all [memberModifiers, opt (modifier "async"),
    opt (any [modifier "get", modifier "set", mark "*"])]

/-- A method without a body. -/
def methodSignature : Part :=
  .node "method_signature" (all
    [methodModifiers, .field "name" propertyName, opt (mark "?"), callSignature])

/-- A property without a value. -/
def propertySignature : Part :=
  .node "property_signature" (all
    [memberModifiers, .field "name" propertyName, opt (mark "?"), typed])

/-- The name and the domain of the keys of a mapped type. -/
def mappedTypeClause : Part :=
  .node "mapped_type_clause" (all
    [.field "name" typeIdentifier, word "in", .field "type" (.ref .type),
     opt (.seq (word "as") (.field "alias" (.ref .type)))])

/-- The members under all keys of a type. -/
def indexSignature : Part :=
  .node "index_signature" (all
    [opt (.seq (opt (.field "sign" (any [mark "-", mark "+"]))) (word "readonly")),
     mark "[",
     any [all [.field "name" identifier, mark ":", .field "index_type" (.ref .type)],
       mappedTypeClause],
     mark "]",
     .field "type" (any
       [typeAfterColon,
        .node "omitting_type_annotation" (.seq (mark "-?:") (.ref .type)),
        .node "adding_type_annotation" (.seq (mark "+?:") (.ref .type)),
        .node "opting_type_annotation" (.seq (mark "?:") (.ref .type))])])

/-- The signature of a constructor. -/
def constructSignature : Part :=
  .node "construct_signature" (all
    [opt (modifier "abstract"), word "new", opt typeParameters,
     .field "parameters" (.ref .parameters), typed])

/-- A member of an object type. -/
def typeMember : Part :=
  any [indexSignature, constructSignature, .node "call_signature" callSignature, methodSignature,
    propertySignature]

/-- Members in braces. -/
def objectBody : Part :=
  between "\x7b" "\x7d" (opt (all
    [opt (any [mark ",", mark ";"]),
     sepBy1 (any [mark ",", semicolon]) typeMember,
     opt (any [mark ",", semicolon])]))

/-! ### Types -/

/-- The types with a keyword of their own. -/
def predefinedType : Part :=
  .node "predefined_type" (any
    (["any", "number", "boolean", "string", "symbol", "void", "unknown", "never", "object"].map word ++
      [.seq (.token "unique symbol" false false (.keyword (bytesOf "unique")))
        (.token "unique symbol" false false (.keyword (bytesOf "symbol")))]))

/-- The type of a single value. -/
def literalType : Part :=
  .node "literal_type" (any
    [.node "unary_expression"
       (.seq (.field "operator" (any [mark "-", mark "+"])) (.field "argument" number)),
     number, string, leaf "true" "true", leaf "false" "false", leaf "null" "null", undefined])

/-- The type of the strings that a template describes. -/
def templateType : Part :=
  .node "template_literal_type" (all
    [mark "\x60",
     .many (any
       [.token "string_fragment" true true .templatePart,
        .node "template_type" (all [glued "$\x7b", .ref .type, mark "\x7d"])]),
     glued "\x60"])

/-- A member of a tuple type. -/
def tupleMember : Part :=
  any
    [.node "optional_parameter" (all
       [.field "name" (anyName "identifier"), mark "?", .field "type" typeAfterColon]),
     .node "required_parameter" (all
       [.field "name" (any [.node "rest_pattern" (.seq (mark "...") (anyName "identifier")),
          anyName "identifier"]),
        .field "type" typeAfterColon]),
     .node "rest_type" (.seq (mark "...") (.ref .type)),
     .fold (.ref .type) (.absorb "optional_type" none (mark "?"))]

/-- The type of a value. -/
def typeQuery : Part :=
  .node "type_query" (.seq (word "typeof")
    (.fold
      (any
        [this,
         .onto importKeyword
           (.absorb "call_expression" (some "function") (.field "arguments" (.ref .arguments))),
         anyName "identifier"])
      (any
        [.absorb "member_expression" (some "object") (.seq (any [mark ".", mark "?."]) property),
         .absorb "subscript_expression" (some "object") (all
           [.sameLine, mark "[", .field "index" (any [predefinedType, string, number]), mark "]"]),
         .absorb "instantiation_expression" (some "function") (.field "type_arguments" typeArguments)])))

/-- A type of another module. -/
def importType : Part :=
  .fold
    (.onto importKeyword
      (.absorb "call_expression" (some "function") (.field "arguments" (.ref .arguments))))
    (.absorb "member_expression" (some "object") (.seq (mark ".") property))

/-- The name of a type inside namespaces. -/
def nestedTypeIdentifier : Part :=
  .onto
    (.fold (.seq identifier (.ahead (mark ".")))
      (.absorb "nested_identifier" (some "object") (all [mark ".", property, .ahead (mark ".")])))
    (.absorb "nested_type_identifier" (some "module")
      (.seq (mark ".") (.field "name" typeIdentifier)))

/-- The name of a type. -/
def typeName : Part := any [nestedTypeIdentifier, typeIdentifier]

/-- A name applied to types. -/
def genericType : Part :=
  .onto typeName (.absorb "generic_type" (some "name") (.field "type_arguments" typeArguments))

/-- A type without anything after it. -/
def primaryType : Part :=
  any
    [.node "parenthesized_type" (between "(" ")" (.ref .type)),
     predefinedType,
     literalType,
     .node "object_type" objectBody,
     .node "tuple_type" (between "[" "]" (.seq (opt (commas1 tupleMember)) (opt (mark ",")))),
     templateType,
     typeQuery,
     .node "index_type_query" (.seq (word "keyof") (.ref .postfixType)),
     .token "this_type" true false (.keyword (bytesOf "this")),
     importType,
     genericType,
     typeName,
     .node "existential_type" (mark "*"),
     .node "flow_maybe_type" (.seq (mark "?") (.ref .postfixType)),
     word "const"]

/-- A type with the brackets after it on the same line. -/
def postfixType : Part :=
  .fold (.ref .primaryType) (any
    [.absorb "array_type" none (all [.sameLine, mark "[", mark "]"]),
     .absorb "lookup_type" none (all [.sameLine, mark "[", .ref .type, mark "]"])])

/-- The type of functions. -/
def functionType : Part :=
  .node "function_type" (all
    [opt typeParameters, .field "parameters" (.ref .parameters), mark "=>",
     .field "return_type" (any [asserts, typePredicate, .ref .type])])

/-- The type of constructors. -/
def constructorType : Part :=
  .node "constructor_type" (all
    [opt (modifier "abstract"), word "new", opt typeParameters,
     .field "parameters" (.ref .parameters), mark "=>", .field "type" (.ref .typeOperand)])

/-- A type that is neither a union nor an intersection. -/
def typeOperand : Part :=
  any
    [functionType, constructorType,
     .node "readonly_type" (.seq (word "readonly") (.ref .type)),
     .node "infer_type" (all
       [word "infer", typeIdentifier, opt (.seq (word "extends") (.ref .unionType))]),
     .ref .postfixType]

/-- Types joined by an operator, which may also stand before the first of them. -/
def joined (type operator : String) (operand : Part) : Part :=
  .fold
    (any [.node type (.seq (op operator) operand), operand])
    (.absorb type none (.seq (op operator) operand))

/-- A type that depends on a condition on another one. -/
def conditionalType : Part :=
  .fold (.ref .unionType)
    (.absorb "conditional_type" (some "left") (all
      [word "extends", .field "right" (.ref .unionType), mark "?",
       .field "consequence" (.ref .type), mark ":", .field "alternative" (.ref .unionType)]))

end PluginManifest.TypeScript.Grammar
