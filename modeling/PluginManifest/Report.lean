import PluginManifest.Text.CodePoint

/-! # Reports

A `Report` is the outcome of a computation together with the events that it reported on the
way.  Reports are sequenced: the events of the second part follow those of the first, and a
failure ends the sequence and keeps the events before it. -/

namespace PluginManifest

/-- How much an event matters. -/
inductive Level
  /-- Of interest when looking for a fault. -/
  | debug
  /-- Something that may be a mistake. -/
  | warning
deriving DecidableEq, Repr

namespace Level

/-- The name of a level in a log line. -/
def name : Level → Text
  | debug => "DEBUG"
  | warning => "WARNING"

end Level

/-- Something worth reporting. -/
inductive Event
  /-- A file of `size` bytes was added to the index. -/
  | indexed (file : Text) (size : Nat)
  /-- The declarations of a file are looked up. -/
  | parsing (file : Text)
  /-- A file is not in the index. -/
  | missing (file : Text)
  /-- An alias of an object type was found. -/
  | aliasFound (name : Text)
  /-- An alias of another type was passed over. -/
  | aliasSkipped (name kind : Text)
  /-- A file declares a widget. -/
  | widgetFound (file : Text)
  /-- A file declares payment gateways. -/
  | gatewaysFound (count : Nat) (file : Text)
  /-- A union has not exactly one alternative besides the absent ones. -/
  | unionKept (property : Text) (count : Nat)
  /-- No property type follows from a member's declared type. -/
  | typeDefaulted (location property : Text)
  /-- The files below a directory were listed. -/
  | discovered (count : Nat) (root : Text)
  /-- An item took the place of another one with its id. -/
  | replaced (kind id file previous : Text)
  /-- Two payment gateways share an id. -/
  | duplicateGateway (id file previous : Text)
deriving DecidableEq

namespace Event

/-- How much an event matters. -/
def level : Event → Level
  | typeDefaulted .. => .warning
  | duplicateGateway .. => .warning
  | _ => .debug

/-- The part of the program that reports an event. -/
def origin : Event → Text
  | indexed .. => "manifest_scanner.source_index"
  | parsing .. | missing .. | aliasFound .. | aliasSkipped .. => "manifest_scanner.parsed_source"
  | widgetFound .. | gatewaysFound .. => "manifest_scanner.file_scanner"
  | unionKept .. | typeDefaulted .. => "manifest_scanner.property_resolver"
  | discovered .. | replaced .. => "manifest_scanner.scanner"
  | duplicateGateway .. => "manifest_scanner.generate_manifest"

/-- The wording of an event. -/
def message : Event → Text
  | indexed file size => "indexed " ++ file ++ " (" ++ Text.ofNat size ++ " bytes)"
  | parsing file => "parsing file " ++ file
  | missing file => "unable to get source file " ++ file
  | aliasFound name => "discovered type " ++ name
  | aliasSkipped name kind =>
    "could not determine definition for type " ++ name ++ " from " ++ kind
  | widgetFound file => "found @widget declaration in " ++ file
  | gatewaysFound count file =>
    "found " ++ Text.ofNat count ++ " @paymentGateway declarations in " ++ file
  | unionKept property count =>
    "union type of " ++ property ++ " keeps " ++ Text.ofNat count ++ " alternatives"
  | typeDefaulted location property =>
    location ++ ": not able to infer type for property " ++ property ++ ", defaulting to 'text'"
  | discovered count root =>
    "discovered " ++ Text.ofNat count ++ " source files under " ++ root
  | replaced kind id file previous =>
    kind ++ " " ++ id ++ " from " ++ file ++ " replaces " ++ previous
  | duplicateGateway id file previous =>
    "Duplicate payment gateway id " ++ id ++ " in " ++ file ++ " replaces the one in " ++ previous

/-- The line of an event in a log. -/
def line (e : Event) : Text := e.level.name ++ " " ++ e.origin ++ ": " ++ e.message

end Event

/-- An outcome and the events reported on the way. -/
structure Report (ε α : Type) where
  /-- The events in order. -/
  log : List Event
  /-- The outcome. -/
  result : Except ε α

namespace Report

variable {ε ε' α β : Type}

/-- A failure without events. -/
def fail (e : ε) : Report ε α := ⟨[], .error e⟩

/-- One event. -/
def emit (event : Event) : Report ε Unit := ⟨[event], .ok ()⟩

/-- An outcome without events. -/
def ofExcept (result : Except ε α) : Report ε α := ⟨[], result⟩

/-- First one report, then the one that its value asks for. -/
def andThen (r : Report ε α) (f : α → Report ε β) : Report ε β :=
  match r.result with
  | .ok a => ⟨r.log ++ (f a).log, (f a).result⟩
  | .error e => ⟨r.log, .error e⟩

instance : Monad (Report ε) where
  pure a := ⟨[], .ok a⟩
  bind := andThen

/-- The report with its failure seen as a failure of another kind. -/
def mapError (f : ε → ε') (r : Report ε α) : Report ε' α := ⟨r.log, r.result.mapError f⟩

/-- The wordings of the warnings. -/
def warnings (r : Report ε α) : List Text :=
  (r.log.filter (·.level = .warning)).map Event.message

/-- The reports of a function on the items of a list, up to the first failure. -/
def forEach (f : α → Report ε β) : List α → Report ε (List β)
  | [] => pure []
  | a :: rest => do
    let b ← f a
    let bs ← forEach f rest
    pure (b :: bs)

end Report

end PluginManifest
