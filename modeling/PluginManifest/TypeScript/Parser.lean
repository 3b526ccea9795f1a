import PluginManifest.TypeScript.Grammar.Markup
import PluginManifest.TypeScript.Grammar.Statements

/-! # The syntax tree of a TypeScript source

There are two dialects: in one an expression may start with markup, in the other with a type in
angle brackets. -/

namespace PluginManifest.TypeScript

open SyntaxTree

/-- The two dialects. -/
inductive Dialect
  /-- An angle bracket opens a type. -/
  | plain
  /-- An angle bracket opens markup. -/
  | markup
deriving DecidableEq, Repr

namespace Grammar

/-- Expressions without binary operators in the plain dialect. -/
def unaryPlain : Part :=
  unary (.node "type_assertion" (.seq typeArguments (.ref .unary)))

/-- Expressions without binary operators in the dialect with markup. -/
def unaryMarkup : Part := unary (.ref .element)

/-- Expressions in the plain dialect: type parameters are tried before a type. -/
def expressionPlain : Part := expression [genericArrow] []

/-- Expressions in the dialect with markup: an element is tried before type parameters. -/
def expressionMarkup : Part := expression [] [genericArrow]

/-- The rule of each name, given those on which the dialects differ. -/
def rule (expressionRule unaryRule : Part) : Symbol → Part
  | .type => conditionalType
  | .unionType => joined "union_type" "|" (.ref .intersectionType)
  | .intersectionType => joined "intersection_type" "&" (.ref .typeOperand)
  | .typeOperand => typeOperand
  | .postfixType => postfixType
  | .primaryType => primaryType
  | .expression => expressionRule
  | .expressions => expressions
  | .binary level => binary level
  | .unary => unaryRule
  | .access => access
  | .constructed => constructed
  | .primary => primary
  | .pattern => pattern
  | .patternTarget => patternTarget
  | .destructuring => destructuring
  | .arguments => arguments
  | .parameters => parameters
  | .declaration => declaration
  | .statement => statement
  | .block => block
  | .classBody => classBody
  | .element => element

/-- The rules of a dialect. -/
def ofDialect : Dialect → Symbol → Part
  | .plain => rule expressionPlain unaryPlain
  | .markup => rule expressionMarkup unaryMarkup

/-- A whole source: a first line that names an interpreter, and statements. -/
def program : Part :=
  .seq (Rule.opt (.token "hash_bang_line" true false .hashBang)) (.many (.ref .statement))

end Grammar

/-- What is left of a source that breaks the grammar. -/
def leftover (src : Code) (p : Place) : List Node :=
  p.comments ++ if p.next < src.size then [⟨"ERROR", true, p.next, src.size, none, []⟩] else []

/-- The syntax tree of a source.  What cannot be read stands in one node at the end. -/
def parse (dialect : Dialect) (text : Bytes) : Node :=
  let src : Code := text.toArray
  let start := Place.after src 0
  let fuel := 256 * (src.size + 16)
  let (nodes, stop) :=
    (Grammar.program.run (Grammar.ofDialect dialect) src fuel [] start).getD ([], start)
  let children := nodes ++ leftover src stop
  ⟨"program", true, (children.head?.map (·.start)).getD src.size, src.size, none, children⟩

end PluginManifest.TypeScript
