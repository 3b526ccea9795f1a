/-! # Literals without a value -/

namespace PluginManifest

/-- Why a literal in a source text has no value. -/
inductive LiteralError
  /-- A numeric literal that is no number. -/
  | badNumber
  /-- An escape beyond the last code point that still fits a signed word of 32 bits. -/
  | noCodePoint
  /-- An escape that fits no signed word of 32 bits. -/
  | hugeCodePoint
deriving DecidableEq, Repr

end PluginManifest
