import PluginManifest.TypeScript.Lexeme

/-! # Grammar rules and how they are read

A `Rule` describes a part of a source and the nodes it gives.  `Rule.run` reads a rule at a
place of the source: alternatives are tried in order and the first one that can be read stands.
Comments are children of the innermost node that surrounds them.

* `seq`, `alt`, `many`, `ahead` and `unless` combine rules as in a parsing expression grammar.
* `node` makes one node of what its body gives; `field` gives its nodes a role.
* `onto` and `fold` read rules that start with themselves: the step absorbs what stands before.
* `lineEnd` reads the end of a line where a semicolon may be left out.

Reading takes fuel, which bounds the depth of the rules that are open at the same time. -/

namespace PluginManifest.TypeScript

open SyntaxTree

/-- A rule of a grammar whose rules have the names `σ`. -/
inductive Rule (σ : Type)
  /-- Nothing. -/
  | empty
  /-- A token; `glued` when no comment or white space may stand before it. -/
  | token (type : String) (named glued : Bool) (lexeme : Lexeme)
  /-- One rule after another. -/
  | seq (first second : Rule σ)
  /-- The first rule, or else the second. -/
  | alt (first second : Rule σ)
  /-- As many repetitions as possible. -/
  | many (body : Rule σ)
  /-- The rule could be read here. -/
  | ahead (body : Rule σ)
  /-- The rule cannot be read here. -/
  | unless (body : Rule σ)
  /-- One named node. -/
  | node (type : String) (body : Rule σ)
  /-- Nodes in a role. -/
  | field (name : String) (body : Rule σ)
  /-- The rule with a name. -/
  | ref (name : σ)
  /-- A rule and a step that absorbs it. -/
  | onto (first step : Rule σ)
  /-- A rule and as many steps as possible, each absorbing what stands before. -/
  | fold (first step : Rule σ)
  /-- One named node of what stands before, in a role, and of the body. -/
  | absorb (type : String) (role : Option String) (body : Rule σ)
  /-- An expression: a binary operator may follow. -/
  | operand (body : Rule σ)
  /-- No line feed before the next token. -/
  | sameLine
  /-- The end of a line, a block or the source in place of a semicolon. -/
  | lineEnd
  /-- The end of the source. -/
  | sourceEnd

/-- A place between two tokens. -/
structure Place where
  /-- The end of the last token. -/
  pos : Nat
  /-- The start of the next token. -/
  next : Nat
  /-- The comments in between. -/
  comments : List Node
  /-- An expression has just ended. -/
  operand : Bool

namespace Place

/-- The place after a token that ends at an offset. -/
def after (src : Code) (pos : Nat) : Place :=
  let (comments, next) := src.trivia (src.size - pos + 1) pos
  ⟨pos, next, comments, false⟩

/-- A line feed stands between the tokens, outside of comments. -/
def hasBreak (src : Code) (p : Place) : Bool :=
  let rec go (start : Nat) : List Node → Bool
    | [] => src.hasBreak start p.next
    | c :: rest => src.hasBreak start c.start || go c.stop rest
  go p.pos p.comments

/-- The place after the comments that end the line of the last token, and these comments. -/
def endLine (src : Code) (p : Place) : List Node × Place :=
  let rec go (pos : Nat) : List Node → List Node × Nat × List Node
    | [] => ([], pos, [])
    | c :: rest =>
      if src.hasBreak pos c.start then ([], pos, c :: rest)
      else
        let (taken, stop, left) := go c.stop rest
        (c :: taken, stop, left)
  let (taken, pos, left) := go p.pos p.comments
  (taken, { p with pos := pos, comments := left })

/-- A semicolon can be left out although the next line starts with this token. -/
def breaksBefore (src : Code) (p : Place) : Bool :=
  let b := src.byte p.next
  let c := src.byte (p.next + 1)
  if p.next ≥ src.size then true
  -- A line cannot start with any of "`,.;*%><=?^|&/:".
  else if [0x60, 0x2C, 0x2E, 0x3B, 0x2A, 0x25, 0x3E, 0x3C, 0x3D, 0x3F, 0x5E, 0x7C, 0x26, 0x2F,
      0x3A].contains b then false
  else if b == 0x28 || b == 0x5B then !p.operand
  else if b == 0x2B || b == 0x2D then c == b
  else if b == 0x21 then c != 0x3D
  else
    !(Lexeme.match? src p.next (.keyword (bytesOf "in"))).isSome &&
      !(Lexeme.match? src p.next (.keyword (bytesOf "instanceof"))).isSome

/-- The end of a line where a semicolon may be left out: the comments that end the line, and
the place after them. -/
def lineEnd? (src : Code) (p : Place) : Option (List Node × Place) :=
  let (taken, q) := p.endLine src
  if q.hasBreak src then if q.breaksBefore src then some (taken, q) else none
  else if q.next ≥ src.size || src.byte q.next == 0x7D then some (taken, q)
  else none

end Place

namespace Rule

/-- A node of the given children.  Comments before its first token stay outside. -/
def makeNode (type : String) (nodes : List Node) : List Node :=
  let outside := nodes.takeWhile Node.isComment
  match nodes.dropWhile Node.isComment with
  | [] => outside
  | first :: rest =>
    outside ++ [⟨type, true, first.start, ((first :: rest).getLast?.getD first).stop, none,
      first :: rest⟩]

/-- Nodes in a role, comments apart. -/
def setField (name : String) (nodes : List Node) : List Node :=
  nodes.map fun n => if n.isComment || n.field.isSome then n else { n with field := some name }

variable {σ : Type}

mutual

/-- Reads a rule at a place: its nodes and the place after it.  `left` are the nodes that a
step absorbs. -/
def run (grammar : σ → Rule σ) (src : Code) :
    Nat → Rule σ → List Node → Place → Option (List Node × Place)
  | 0, _, _, _ => none
  | fuel + 1, rule, left, p =>
    match rule with
    | .empty => some ([], p)
    | .token type named glued lexeme =>
      let start := if glued then p.pos else p.next
      match lexeme.match? src start with
      | some stop =>
        let node : Node := ⟨type, named, start, stop, none, []⟩
        some (if glued then [node] else p.comments ++ [node], Place.after src stop)
      | none => none
    | .seq first second =>
      match run grammar src fuel first left p with
      | some (a, q) =>
        match run grammar src fuel second left q with
        | some (b, r) => some (a ++ b, r)
        | none => none
      | none => none
    | .alt first second =>
      match run grammar src fuel first left p with
      | some found => some found
      | none => run grammar src fuel second left p
    | .many body => some (runMany grammar src fuel body [] p)
    | .ahead body => (run grammar src fuel body left p).map fun _ => ([], p)
    | .unless body =>
      match run grammar src fuel body left p with
      | some _ => none
      | none => some ([], p)
    | .node type body =>
      (run grammar src fuel body [] p).map fun (nodes, q) => (makeNode type nodes, q)
    | .field name body =>
      (run grammar src fuel body left p).map fun (nodes, q) => (setField name nodes, q)
    | .ref name => run grammar src fuel (grammar name) left p
    | .onto first step =>
      match run grammar src fuel first left p with
      | some (nodes, q) => run grammar src fuel step nodes q
      | none => none
    | .fold first step =>
      match run grammar src fuel first left p with
      | some (nodes, q) => some (runFold grammar src fuel step nodes q)
      | none => none
    | .absorb type role body =>
      (run grammar src fuel body [] p).map fun (nodes, q) =>
        let before := match role with
          | some name => setField name left
          | none => left
        (makeNode type (before ++ nodes), q)
    | .operand body =>
      (run grammar src fuel body left p).map fun (nodes, q) => (nodes, { q with operand := true })
    | .sameLine => if p.hasBreak src then none else some ([], p)
    | .lineEnd => p.lineEnd? src
    | .sourceEnd => if p.next ≥ src.size then some (p.comments, p) else none

/-- Reads a rule as often as possible, after the nodes in `done`, which are in reverse order. -/
def runMany (grammar : σ → Rule σ) (src : Code) :
    Nat → Rule σ → List (List Node) → Place → List Node × Place
  | 0, _, done, p => (done.reverse.flatten, p)
  | fuel + 1, body, done, p =>
    match run grammar src fuel body [] p with
    | some (nodes, q) =>
      if p.pos < q.pos then runMany grammar src fuel body (nodes :: done) q
      else (done.reverse.flatten, p)
    | none => (done.reverse.flatten, p)

/-- Reads a step as often as possible, each time onto what stands before. -/
def runFold (grammar : σ → Rule σ) (src : Code) :
    Nat → Rule σ → List Node → Place → List Node × Place
  | 0, _, left, p => (left, p)
  | fuel + 1, step, left, p =>
    match run grammar src fuel step left p with
    | some (nodes, q) => if p.pos < q.pos then runFold grammar src fuel step nodes q else (left, p)
    | none => (left, p)

end

/-! ### Building rules -/

/-- Rules one after another. -/
def all : List (Rule σ) → Rule σ
  | [] => .empty
  | [r] => r
  | r :: rest => .seq r (all rest)

/-- The first rule that can be read. -/
def any : List (Rule σ) → Rule σ
  | [] => .unless .empty
  | [r] => r
  | r :: rest => .alt r (any rest)

/-- A rule or nothing. -/
def opt (r : Rule σ) : Rule σ := .alt r .empty

/-- Punctuation. -/
def mark (s : String) : Rule σ := .token s false false (.text (bytesOf s))

/-- An operator, not the start of a longer one. -/
def op (s : String) : Rule σ := .token s false false (.operator (bytesOf s))

/-- A keyword. -/
def word (s : String) : Rule σ := .token s false false (.keyword (bytesOf s))

/-- A keyword that is a node of its own. -/
def leaf (type s : String) : Rule σ := .token type true false (.keyword (bytesOf s))

/-- A rule between marks. -/
def between (opening closing : String) (r : Rule σ) : Rule σ :=
  all [mark opening, r, mark closing]

/-- One or more times a rule, with a separator in between. -/
def sepBy1 (separator r : Rule σ) : Rule σ := .seq r (.many (.seq separator r))

/-- One or more times a rule, with commas in between. -/
def commas1 (r : Rule σ) : Rule σ := sepBy1 (mark ",") r

/-- A list that may have empty places, with commas in between. -/
def commasLoose (r : Rule σ) : Rule σ := .seq (opt r) (.many (.seq (mark ",") (opt r)))

end Rule

end PluginManifest.TypeScript
