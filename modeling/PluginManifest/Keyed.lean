import PluginManifest.Text.CodePoint

/-! # Values under keys

An association of keys and values that keeps the keys in the order in which they were first
set.  Setting a value under an old key keeps the key's place. -/

namespace PluginManifest

/-- Values under keys, in the order of the keys. -/
abbrev Keyed (α : Type) := List (Text × α)

namespace Keyed

variable {α : Type}

/-- The keys in order. -/
def keys (entries : Keyed α) : List Text := entries.map Prod.fst

/-- The values in the order of their keys. -/
def values (entries : Keyed α) : List α := entries.map Prod.snd

/-- The value under a key. -/
def get? (entries : Keyed α) (key : Text) : Option α := List.lookup key entries

/-- The entries with a value set under a key: an old key keeps its place, a new one comes
last. -/
def put (key : Text) (value : α) : Keyed α → Keyed α
  | [] => [(key, value)]
  | (k, v) :: rest => if k = key then (k, value) :: rest else (k, v) :: put key value rest

/-- Pairs in order; of several values under one key the last one stays. -/
def ofPairs (pairs : List (Text × α)) : Keyed α :=
  pairs.foldl (fun entries (key, value) => put key value entries) []

end Keyed

end PluginManifest
