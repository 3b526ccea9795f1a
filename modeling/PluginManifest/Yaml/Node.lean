import PluginManifest.Keyed
import PluginManifest.Yaml.Token

/-! # Nodes of a YAML document

A document is a tree of scalars, sequences and mappings.  `Node.ofTokens` builds it from the
tokens of a text that holds at most one document; an alias stands for the node with its anchor. -/

namespace PluginManifest.Yaml

/-- What a node says about its type. -/
inductive Tag
  /-- Nothing: the type follows from the node. -/
  | implicit
  /-- It is a text, because it is quoted. -/
  | quoted
  /-- The name of its type. -/
  | named (name : Text)
deriving DecidableEq

/-- A node of a document. -/
inductive Node
  /-- A single value. -/
  | scalar (tag : Tag) (text : Text)
  /-- Nodes in order. -/
  | sequence (tag : Tag) (items : List Node)
  /-- Nodes under nodes. -/
  | mapping (tag : Tag) (pairs : List (Node × Node))

/-- The node that stands where none is written. -/
def Node.absent : Node := .scalar .implicit []

/-- What is left to read, and what was declared before. -/
structure Reader where
  /-- The tokens that are left. -/
  tokens : List Token
  /-- The nodes with an anchor. -/
  anchors : Keyed Node
  /-- What the tag handles are short for. -/
  handles : Keyed Text

/-- A step of reading nodes. -/
abbrev Parse := StateT Reader (Except Error)

namespace Parse

/-- The next token. -/
def peek? : Parse (Option Token) := do return (← get).tokens.head?

/-- The next token is one of a class. -/
def next (p : Token → Bool) : Parse Bool := do return (← peek?).any p

/-- Leaves the next token behind. -/
def drop : Parse Unit := modify fun r => { r with tokens := r.tokens.drop 1 }

/-- A fault in the text. -/
def malformed {α : Type} : Parse α := throw .malformed

/-- The meaning of a tag. -/
def tagOf : Option Text → Text → Parse Tag
  | none, suffix => return if suffix = "!" then .implicit else .named suffix
  | some handle, suffix => do
    match Keyed.get? (← get).handles handle with
    | none => malformed
    | some start =>
      return if start ++ suffix = "!" then .implicit else .named (start ++ suffix)

/-- The anchor and the tag before a node, in either order. -/
def properties : Parse (Option Text × Option Tag) := do
  match ← peek? with
  | some (.anchor name) => do
    drop
    match ← peek? with
    | some (.tag handle suffix) => do
      drop
      return (some name, some (← tagOf handle suffix))
    | _ => return (some name, none)
  | some (.tag handle suffix) => do
    drop
    let name ← match ← peek? with
      | some (.anchor name) => do
        drop
        pure (some name)
      | _ => pure none
    return (name, some (← tagOf handle suffix))
  | _ => return (none, none)

/-- Keeps a node under its anchor; an anchor is declared once. -/
def keep (anchor : Option Text) (node : Node) : Parse Node := do
  match anchor with
  | none => return node
  | some name =>
    if (Keyed.get? (← get).anchors name).isSome then malformed
    else
      modify fun r => { r with anchors := Keyed.put name node r.anchors }
      return node

/-! ### Classes of tokens -/

/-- The end of a block. -/
def endsBlock : Token → Bool
  | .blockEnd => true
  | _ => false

/-- The start of an item of a block sequence. -/
def startsItem : Token → Bool
  | .blockEntry => true
  | _ => false

/-- A mark of a key or of its value. -/
def startsPair : Token → Bool
  | .key | .value => true
  | _ => false

/-- The mark of a value. -/
def startsValue : Token → Bool
  | .value => true
  | _ => false

/-- A comma, or the bracket that closes a sequence. -/
def endsFlowItem : Token → Bool
  | .flowEntry | .flowSequenceEnd => true
  | _ => false

/-- A comma, or the bracket that closes a mapping. -/
def endsFlowPair : Token → Bool
  | .flowEntry | .flowMappingEnd => true
  | _ => false

/-- A mark between documents. -/
def startsDocument : Token → Bool
  | .directive _ | .documentStart | .documentEnd => true
  | _ => false

/-! ### Nodes -/

/-- Where a node stands. -/
inductive Place
  /-- Inside of brackets. -/
  | flow
  /-- In a block. -/
  | block
  /-- In a block mapping, where the items of a sequence need no indentation. -/
  | blockPair
deriving DecidableEq

mutual

/-- A node. -/
def node : Nat → Place → Parse Node
  | 0, _ => malformed
  | fuel + 1, place => do
    match ← peek? with
    | some (.alias name) => do
      drop
      match Keyed.get? (← get).anchors name with
      | some node => return node
      | none => malformed
    | _ => do
      let (anchor, tag) ← properties
      let given := tag.getD .implicit
      match ← peek? with
      | some (.scalar text plain) => do
        drop
        keep anchor (.scalar (tag.getD (if plain then .implicit else .quoted)) text)
      | some .flowSequence => do
        drop
        keep anchor (.sequence given (← flowItems fuel true))
      | some .flowMapping => do
        drop
        keep anchor (.mapping given (← flowPairs fuel true))
      | other =>
        match other, place with
        | some .blockEntry, .blockPair => keep anchor (.sequence given (← plainItems fuel))
        | some .blockSequence, .block | some .blockSequence, .blockPair => do
          drop
          keep anchor (.sequence given (← blockItems fuel))
        | some .blockMapping, .block | some .blockMapping, .blockPair => do
          drop
          keep anchor (.mapping given (← blockPairs fuel))
        | _, _ =>
          if anchor.isSome || tag.isSome then keep anchor (.scalar given []) else malformed

/-- A node, or none before a token of a class. -/
def optional : Nat → Place → (Token → Bool) → Parse Node
  | 0, _, _ => malformed
  | fuel + 1, place, ends => do
    if ← next ends then return Node.absent else node fuel place

/-- The items of a block sequence. -/
def blockItems : Nat → Parse (List Node)
  | 0 => malformed
  | fuel + 1 => do
    match ← peek? with
    | some .blockEntry => do
      drop
      let item ← optional fuel .block fun t => startsItem t || endsBlock t
      return item :: (← blockItems fuel)
    | some .blockEnd => do
      drop
      return []
    | _ => malformed

/-- The items of a sequence that is not indented. -/
def plainItems : Nat → Parse (List Node)
  | 0 => malformed
  | fuel + 1 => do
    match ← peek? with
    | some .blockEntry => do
      drop
      let item ← optional fuel .block fun t => startsItem t || startsPair t || endsBlock t
      return item :: (← plainItems fuel)
    | _ => return []

/-- The pairs of a block mapping. -/
def blockPairs : Nat → Parse (List (Node × Node))
  | 0 => malformed
  | fuel + 1 => do
    match ← peek? with
    | some .key => do
      drop
      let key ← optional fuel .blockPair fun t => startsPair t || endsBlock t
      let value ← valueOf fuel .blockPair fun t => startsPair t || endsBlock t
      return (key, value) :: (← blockPairs fuel)
    | some .blockEnd => do
      drop
      return []
    | _ => malformed

/-- The value of a key, if one is written. -/
def valueOf : Nat → Place → (Token → Bool) → Parse Node
  | 0, _, _ => malformed
  | fuel + 1, place, ends => do
    if ← next startsValue then
      drop
      optional fuel place ends
    else return Node.absent

/-- The items of a sequence in brackets. -/
def flowItems : Nat → Bool → Parse (List Node)
  | 0, _ => malformed
  | fuel + 1, first => do
    match ← peek? with
    | some .flowSequenceEnd => do
      drop
      return []
    | _ => do
      if !first then
        match ← peek? with
        | some .flowEntry => drop
        | _ => malformed
      match ← peek? with
      | some .key => do
        drop
        let key ← optional fuel .flow fun t => startsValue t || endsFlowItem t
        let value ← valueOf fuel .flow endsFlowItem
        return .mapping .implicit [(key, value)] :: (← flowItems fuel false)
      | some .flowSequenceEnd => do
        drop
        return []
      | _ => do
        let item ← node fuel .flow
        return item :: (← flowItems fuel false)

/-- The pairs of a mapping in brackets. -/
def flowPairs : Nat → Bool → Parse (List (Node × Node))
  | 0, _ => malformed
  | fuel + 1, first => do
    match ← peek? with
    | some .flowMappingEnd => do
      drop
      return []
    | _ => do
      if !first then
        match ← peek? with
        | some .flowEntry => drop
        | _ => malformed
      match ← peek? with
      | some .key => do
        drop
        let key ← optional fuel .flow fun t => startsValue t || endsFlowPair t
        let value ← valueOf fuel .flow endsFlowPair
        return (key, value) :: (← flowPairs fuel false)
      | some .flowMappingEnd => do
        drop
        return []
      | _ => do
        let key ← node fuel .flow
        return (key, Node.absent) :: (← flowPairs fuel false)

end

/-! ### Documents -/

/-- The handles that every document knows. -/
def defaultHandles : Keyed Text := [("!", "!"), ("!!", "tag:yaml.org,2002:")]

/-- The handles that directives declare; `versioned` tells that the version was given. -/
def directives : Nat → Bool → Keyed Text → Parse (Keyed Text)
  | 0, _, _ => malformed
  | fuel + 1, versioned, handles => do
    match ← peek? with
    | some (.directive d) => do
      drop
      match d with
      | .version major _ =>
        if versioned || major ≠ 1 then malformed else directives fuel true handles
      | .tagHandle handle meaning =>
        if (Keyed.get? handles handle).isSome then malformed
        else directives fuel versioned (Keyed.put handle meaning handles)
      | .other => directives fuel versioned handles
    | _ => return handles

/-- The single document of a text, if there is one. -/
def document (fuel : Nat) : Parse (Option Node) := do
  match ← peek? with
  | none => return none
  | some t => do
    let root ←
      match t with
      | .directive _ | .documentStart => do
        let handles ← directives fuel false []
        modify fun r => { r with handles := handles ++ defaultHandles }
        match ← peek? with
        | some .documentStart => do
          drop
          match ← peek? with
          | none => pure Node.absent
          | some t => if startsDocument t then pure Node.absent else node fuel .block
        | _ => malformed
      | _ => node fuel .block
    modify fun r =>
      { r with tokens := r.tokens.dropWhile fun t => match t with
          | .documentEnd => true
          | _ => false }
    match ← peek? with
    | none => return some root
    | some _ => malformed

end Parse

/-- The single document of a text, if its tokens hold one. -/
def Node.ofTokens (tokens : List Token) : Except Error (Option Node) :=
  let reader : Reader := ⟨tokens, [], Parse.defaultHandles⟩
  ((Parse.document (3 * tokens.length + 3)).run reader).map (·.1)

end PluginManifest.Yaml
