import PluginManifest.TypeScript.Grammar.Expressions

/-! # The grammar of markup in expressions -/

namespace PluginManifest.TypeScript.Grammar

open Rule

/-- A name of an element or attribute as a node of the given type. -/
def markupName (type : String) : Part := any [.token type true false .hyphenName, anyName type]

/-- A name inside a namespace. -/
def markupNamespaceName : Part :=
  .node "jsx_namespace_name" (all [markupName "identifier", mark ":", markupName "identifier"])

/-- The name of an element. -/
def elementName : Part :=
  .field "name" (any
    [markupNamespaceName,
     .token "identifier" true false .hyphenName,
     .fold (anyName "identifier")
       (.absorb "member_expression" (some "object") (.seq (mark ".") property))])

/-- A string as the value of an attribute. -/
def attributeString (quote : String) (byte : UInt8) : Part :=
  .node "string" (all
    [mark quote,
     .many (any [.token "string_fragment" true true (.attributePart byte),
       .token "html_character_reference" true true .reference]),
     glued quote])

/-- An expression in braces. -/
def markupExpression : Part :=
  .node "jsx_expression" (between "\x7b" "\x7d" (opt (any [spread, .ref .expressions])))

/-- An attribute of an element. -/
def elementAttribute : Part :=
  .field "attribute" (any
    [.node "jsx_attribute" (.seq
       (any [markupNamespaceName, markupName "property_identifier"])
       (opt (.seq (mark "=") (any
         [attributeString "\"" 0x22, attributeString "'" 0x27, markupExpression, .ref .element])))),
     markupExpression])

/-- The start of an element up to the end of its attributes. -/
def elementStart : Part :=
  .seq (mark "<") (opt (all
    [elementName, opt (.field "type_arguments" typeArguments), .many elementAttribute]))

/-- What stands between the tags of an element. -/
def elementChild : Part :=
  any
    [.token "jsx_text" true true .markupText,
     .token "html_character_reference" true false .reference,
     .seq (.unless (mark "</")) (.ref .element),
     markupExpression]

/-- An element: closed by its own tag or by a second one. -/
def element : Part :=
  .onto elementStart (any
    [.absorb "jsx_self_closing_element" none (mark "/>"),
     .onto (.absorb "jsx_opening_element" none (mark ">"))
       (.absorb "jsx_element" (some "open_tag") (.seq
         (.many elementChild)
         (.field "close_tag" (.node "jsx_closing_element"
           (all [mark "</", opt elementName, mark ">"])))))])

end PluginManifest.TypeScript.Grammar
