import PluginManifest.Config
import PluginManifest.Proofs.Keyed
import PluginManifest.Proofs.Report

/-! # Merged maps along key paths

A key path leads through nested maps (`Value.at?`).  Where both maps hold a map, the merged map has
their keys in order (`keys_merge`); where a path leaves the maps that both have, one of the two
decides all that follows: the update if it has the next key, else the base (`laidOver_merge`).
Laying the same update over the result again changes nothing (`merge_merge`).

Documents have no key twice (`Value.Distinct`); that is so for everything that is read from a
configuration file (`distinct_of_read`), and for what a configuration takes of it
(`distinct_settings`). -/

namespace PluginManifest

/-- No key stands twice among the rows. -/
def Value.DistinctRows (rows : List (Value × Value)) : Prop :=
  rows.Pairwise fun row other => row.1.isKey other.1 = false

/-- In no map of the value a key stands twice. -/
inductive Value.Distinct : Value → Prop
  | null : Distinct .null
  | bool (b : Bool) : Distinct (.bool b)
  | int (n : Int) : Distinct (.int n)
  | float (x : Binary64) : Distinct (.float x)
  | text (t : Text) : Distinct (.text t)
  | list {items : List Value} : (∀ v ∈ items, Distinct v) → Distinct (.list items)
  | map {fields : List (Text × Value)} : (Keyed.keys fields).Nodup →
      (∀ f ∈ fields, Distinct f.2) → Distinct (.map fields)
  | timestamp (t : Timestamp) : Distinct (.timestamp t)
  | binary (bytes : Bytes) : Distinct (.binary bytes)
  | set {items : List Value} : (items.Pairwise fun v other => v.isKey other = false) →
      Distinct (.set items)
  | table {rows : List (Value × Value)} : DistinctRows rows → (∀ row ∈ rows, Distinct row.2) →
      Distinct (.table rows)

/-! ### Keys and values of a merged map -/

/-- A value laid over another one, or over nothing. -/
def Value.overOption : Option Value → Value → Value
  | some old, v => old.over v
  | none, v => v

theorem Value.over_of_not_map {old v : Value} (h : ∀ b u, old = .map b → v = .map u → False) :
    old.over v = v := by
  cases v with
  | map u =>
      cases old with
      | map b => exact (h b u rfl rfl).elim
      | _ => rfl
  | _ => rfl

theorem Value.null_over (v : Value) : Value.null.over v = v :=
  over_of_not_map fun _ _ h _ => by cases h

theorem Value.over_map (base update : Fields) :
    Value.over (.map base) (.map update) = .map (Fields.merge base update) := rfl

namespace Fields

variable {base update : Fields}

theorem merge_cons (base : Fields) (key : Text) (value : Value) (rest : Fields) :
    merge base ((key, value) :: rest) =
      merge (Keyed.put key (Value.overOption (Keyed.get? base key) value) base) rest := by
  rw [merge]
  cases Keyed.get? base key with
  | none => rfl
  | some old => rfl

/-- Old keys keep their places, and new ones follow in their order. -/
theorem keys_merge (h : (Keyed.keys update).Nodup) (base : Fields) :
    Keyed.keys (merge base update) =
      Keyed.keys base ++ (Keyed.keys update).filter (· ∉ Keyed.keys base) := by
  induction update generalizing base with
  | nil => simp [merge]
  | cons entry rest ih =>
      obtain ⟨key, value⟩ := entry
      obtain ⟨hnew, hrest⟩ := List.nodup_cons.mp h
      rw [merge_cons, ih hrest, Keyed.keys_put]
      have hkeys : Keyed.keys ((key, value) :: rest) = key :: Keyed.keys rest := rfl
      rw [hkeys]
      by_cases hkey : key ∈ Keyed.keys base
      · rw [if_pos hkey, List.filter_cons_of_neg (by simpa using hkey)]
      · rw [if_neg hkey, List.filter_cons_of_pos (by simpa using hkey), List.append_assoc,
          List.singleton_append]
        have hfilter : (Keyed.keys rest).filter (· ∉ Keyed.keys base ++ [key]) =
            (Keyed.keys rest).filter (· ∉ Keyed.keys base) := by
          refine List.filter_congr fun k hk => ?_
          have hne : k ≠ key := fun e => hnew (e ▸ hk)
          simp [hne]
        rw [hfilter]

theorem nodup_keys_merge (h : (Keyed.keys base).Nodup) (update : Fields) :
    (Keyed.keys (merge base update)).Nodup := by
  induction update generalizing base with
  | nil => simpa [merge] using h
  | cons entry rest ih =>
      rw [merge_cons]
      exact ih (Keyed.nodup_keys_put h _ _)

/-- The value under a key of a merged map. -/
theorem get?_merge (h : (Keyed.keys update).Nodup) (base : Fields) (key : Text) :
    Keyed.get? (merge base update) key =
      match Keyed.get? update key with
      | some value => some (Value.overOption (Keyed.get? base key) value)
      | none => Keyed.get? base key := by
  induction update generalizing base with
  | nil => simp [merge]
  | cons entry rest ih =>
      obtain ⟨k, v⟩ := entry
      obtain ⟨hnew, hrest⟩ := List.nodup_cons.mp h
      rw [merge_cons, ih hrest, Keyed.get?_cons, Keyed.get?_put]
      by_cases hk : key = k
      · subst hk
        rw [if_pos rfl, Keyed.get?_eq_none_iff.mpr hnew, if_pos rfl]
      · rw [if_neg hk, if_neg hk]

/-- What is laid over nothing stays as it is. -/
theorem merge_nil (h : (Keyed.keys update).Nodup) : merge [] update = update := by
  have hnil : (Keyed.keys ([] : Fields)).Nodup := List.nodup_nil
  refine Keyed.eq_of_get?_eq ?_ (nodup_keys_merge hnil update) fun key => ?_
  · rw [keys_merge h]
    simp
  · rw [get?_merge h]
    cases Keyed.get? update key with
    | none => rfl
    | some v => rfl

/-- An update that changes nothing value by value changes nothing when it is laid over again. -/
theorem merge_merge_of_values (hbase : (Keyed.keys base).Nodup)
    (hupdate : (Keyed.keys update).Nodup) (hvalues : ∀ f ∈ base, f.2.Distinct)
    (h : ∀ f ∈ update, ∀ old : Value, old.Distinct → (old.over f.2).over f.2 = old.over f.2) :
    merge (merge base update) update = merge base update := by
  have hmerged := nodup_keys_merge hbase update
  refine Keyed.eq_of_get?_eq ?_ (nodup_keys_merge hmerged update) fun key => ?_
  · -- All keys of the update are there already.
    rw [keys_merge hupdate, List.filter_eq_nil_iff.mpr, List.append_nil]
    intro k hk
    rw [keys_merge hupdate]
    by_cases hold : k ∈ Keyed.keys base
    · simp [hold]
    · simp [hk, hold]
  · have hget := get?_merge hupdate base key
    rw [get?_merge hupdate (merge base update)]
    cases hnew : Keyed.get? update key with
    | none => rfl
    | some value =>
        rw [hnew] at hget
        dsimp only at hget ⊢
        have hvalue := h _ (Keyed.mem_of_get? hnew)
        rw [hget]
        cases hold : Keyed.get? base key with
        | none =>
            have hself := hvalue .null .null
            rw [Value.null_over] at hself
            exact congrArg some hself
        | some old => exact congrArg some (hvalue old (hvalues _ (Keyed.mem_of_get? hold)))

end Fields

theorem Value.over_over {v : Value} (h : v.Distinct) :
    ∀ old : Value, old.Distinct → (old.over v).over v = old.over v := by
  induction h with
  | map hkeys hvalues ih =>
      rename_i update
      have hempty : Fields.merge (Fields.merge [] update) update = Fields.merge [] update :=
        Fields.merge_merge_of_values List.nodup_nil hkeys (by simp) ih
      rw [Fields.merge_nil hkeys] at hempty
      intro old hold
      cases hold with
      | map hbase holds =>
          rw [over_map, over_map, Fields.merge_merge_of_values hbase hkeys holds ih]
      | _ =>
          -- What is no map is replaced, as if the update were laid over an empty map.
          exact congrArg Value.map hempty
  | _ =>
      intro old _
      rfl

/-- Laying the same update over the result again changes nothing. -/
theorem Fields.merge_merge {base update : Fields} (hbase : (Value.map base).Distinct)
    (hupdate : (Value.map update).Distinct) :
    merge (merge base update) update = merge base update :=
  Value.map.inj (Value.over_over hupdate _ hbase)

/-! ### Key paths -/

/-- What a key path leads to. -/
def Value.at? : Value → List Text → Option Value
  | v, [] => some v
  | .map fields, key :: path => (Keyed.get? fields key).bind (·.at? path)
  | _, _ :: _ => none

/-- Both maps hold a map at a path. -/
def BothMaps (base update : Fields) (path : List Text) : Prop :=
  (∃ b, (Value.map base).at? path = some (.map b)) ∧
    ∃ u, (Value.map update).at? path = some (.map u)

/-- The longest beginning of a path at which both maps hold a map. -/
structure Longest (base update : Fields) (path start : List Text) : Prop where
  isPrefix : start <+: path
  both : BothMaps base update start
  longest : ∀ other, other <+: path → BothMaps base update other → other.length ≤ start.length

section paths

variable {base update : Fields} {path start : List Text}

@[simp] theorem Value.at?_nil (v : Value) : v.at? [] = some v := by
  cases v with
  | _ => rfl

theorem Value.at?_cons (fields : Fields) (key : Text) (path : List Text) :
    (Value.map fields).at? (key :: path) = (Keyed.get? fields key).bind (·.at? path) := rfl

/-- A path through a path leads through what the first one leads to. -/
theorem Value.at?_append (v : Value) (path more : List Text) :
    v.at? (path ++ more) = (v.at? path).bind (·.at? more) := by
  induction path generalizing v with
  | nil => simp
  | cons key path ih =>
      cases v with
      | map fields =>
          rw [List.cons_append, at?_cons, at?_cons, Option.bind_assoc]
          congr 1
          funext w
          exact ih w
      | _ => rfl

/-- Where a path goes on, there is a map. -/
theorem Value.exists_map_of_at? {v w : Value} {key : Text}
    (h : v.at? (path ++ key :: start) = some w) : ∃ fields, v.at? path = some (.map fields) := by
  rw [at?_append] at h
  obtain ⟨u, hu, h⟩ := Option.bind_eq_some_iff.mp h
  cases u with
  | map fields => exact ⟨fields, hu⟩
  | _ => cases h

theorem bothMaps_nil (base update : Fields) : BothMaps base update [] :=
  ⟨⟨base, Value.at?_nil _⟩, update, Value.at?_nil _⟩

/-- Every path has a longest beginning at which both maps hold a map. -/
theorem exists_longest (base update : Fields) (path : List Text) :
    ∃ start, Longest base update path start := by
  induction path using List.reverseRecOn with
  | nil =>
      exact ⟨[], List.prefix_rfl, bothMaps_nil base update, fun other ho _ => ho.length_le⟩
  | append_singleton path key ih =>
      by_cases hboth : BothMaps base update (path ++ [key])
      · exact ⟨path ++ [key], List.prefix_rfl, hboth, fun o ho _ => ho.length_le⟩
      · obtain ⟨start, hstart⟩ := ih
        refine ⟨start, hstart.isPrefix.trans (List.prefix_append _ _), hstart.both, ?_⟩
        intro other hother hmaps
        rcases List.prefix_concat_iff.mp hother with rfl | hother
        · exact absurd hmaps hboth
        · exact hstart.longest other hother hmaps

theorem Longest.eq_or_exists (h : Longest base update path start) :
    start = path ∨ ∃ key rest, path = start ++ key :: rest := by
  obtain ⟨more, rfl⟩ := h.isPrefix
  cases more with
  | nil => exact .inl (List.append_nil start).symm
  | cons key rest => exact .inr ⟨key, rest, rfl⟩

theorem Longest.not_bothMaps {key : Text} {rest : List Text}
    (h : Longest base update path start) (hpath : path = start ++ key :: rest) :
    ¬ BothMaps base update (start ++ [key]) := by
  intro hboth
  have hprefix : start ++ [key] <+: path := ⟨rest, by simp [hpath]⟩
  have hlength := h.longest _ hprefix hboth
  rw [List.length_append, List.length_singleton] at hlength
  omega

/-- What a path leads to has no key twice either. -/
theorem Value.Distinct.at? {v w : Value} (h : v.Distinct) (hw : v.at? path = some w) :
    w.Distinct := by
  induction path generalizing v with
  | nil =>
      rw [Value.at?_nil] at hw
      cases hw
      exact h
  | cons key path ih =>
      cases h with
      | map hkeys hvalues =>
          rw [Value.at?_cons] at hw
          obtain ⟨u, hu, hw⟩ := Option.bind_eq_some_iff.mp hw
          exact ih (hvalues _ (Keyed.mem_of_get? hu)) hw
      | _ => cases hw

/-! ### The merged map -/

/-- Where both maps hold a map, the merged map holds the merged one. -/
theorem at?_merge_of_both (hupdate : (Value.map update).Distinct) {b u : Fields}
    (hb : (Value.map base).at? path = some (.map b))
    (hu : (Value.map update).at? path = some (.map u)) :
    (Value.map (Fields.merge base update)).at? path = some (.map (Fields.merge b u)) := by
  induction path generalizing base update with
  | nil =>
      rw [Value.at?_nil] at hb hu ⊢
      cases hb
      cases hu
      rfl
  | cons key path ih =>
      cases hupdate with
      | map hkeys hvalues =>
          rw [Value.at?_cons] at hb hu ⊢
          obtain ⟨old, hold, hb⟩ := Option.bind_eq_some_iff.mp hb
          obtain ⟨new, hnew, hu⟩ := Option.bind_eq_some_iff.mp hu
          have hdistinct := hvalues _ (Keyed.mem_of_get? hnew)
          rw [Fields.get?_merge hkeys, hnew, hold]
          cases path with
          | nil =>
              rw [Value.at?_nil] at hb hu
              cases hb
              cases hu
              rfl
          | cons next path =>
              cases old with
              | map old =>
                  cases new with
                  | map new => exact ih hdistinct hb hu
                  | _ => cases hu
              | _ => cases hb

/-- Behind the maps that both have, one of the two maps decides. -/
theorem at?_merge_of_not_both (hupdate : (Value.map update).Distinct) {key : Text}
    (hstart : BothMaps base update start) (hnot : ¬ BothMaps base update (start ++ [key]))
    (rest : List Text) :
    (Value.map (Fields.merge base update)).at? (start ++ key :: rest) =
      if ((Value.map update).at? (start ++ [key])).isSome then
        (Value.map update).at? (start ++ key :: rest)
      else (Value.map base).at? (start ++ key :: rest) := by
  obtain ⟨⟨b, hb⟩, u, hu⟩ := hstart
  have hkeys : (Keyed.keys u).Nodup := by
    cases hupdate.at? hu with
    | map hkeys _ => exact hkeys
  have hone : ∀ fields : Fields, (Value.map fields).at? [key] = Keyed.get? fields key := by
    intro fields
    rw [Value.at?_cons]
    simp
  rw [Value.at?_append, at?_merge_of_both hupdate hb hu, Value.at?_append, Value.at?_append, hu,
    Value.at?_append, hb]
  simp only [Option.bind_some, hone]
  rw [Value.at?_cons, Fields.get?_merge hkeys]
  cases hnew : Keyed.get? u key with
  | none => rw [Value.at?_cons b]; rfl
  | some new =>
      rw [Value.at?_cons u, hnew]
      dsimp only [Option.isSome_some, if_true, Option.bind_some]
      rw [if_pos rfl]
      have hself : Value.overOption (Keyed.get? b key) new = new := by
        cases hold : Keyed.get? b key with
        | none => rfl
        | some old =>
            refine Value.over_of_not_map ?_
            rintro b' u' rfl rfl
            refine hnot ⟨⟨b', ?_⟩, u', ?_⟩
            · rw [Value.at?_append, hb, Option.bind_some, hone, hold]
            · rw [Value.at?_append, hu, Option.bind_some, hone, hnew]
      rw [hself]

/-- What a map that was laid over another one holds along every path. -/
structure LaidOver (base update merged : Fields) : Prop where
  /-- At the longest beginning of a path where both hold a map, the keys of both are there in
  order; behind it the update decides if it has the next key, else the base. -/
  along : ∀ path, ∃ start, Longest base update path start ∧
    ((start = path ∧ ∃ b u m, (Value.map base).at? path = some (.map b) ∧
        (Value.map update).at? path = some (.map u) ∧
        (Value.map merged).at? path = some (.map m) ∧
        Keyed.keys m = Keyed.keys b ++ (Keyed.keys u).filter (· ∉ Keyed.keys b)) ∨
      ∃ key rest, path = start ++ key :: rest ∧ (Value.map merged).at? path =
        if ((Value.map update).at? (start ++ [key])).isSome then (Value.map update).at? path
        else (Value.map base).at? path)
  /-- A value of the update wins unless it is merged. -/
  wins : ∀ path v, (Value.map update).at? path = some v → ¬ BothMaps base update path →
    (Value.map merged).at? path = some v
  /-- A value of the base survives where the update has no value, on the way to it neither. -/
  survives : ∀ path v, (Value.map base).at? path = some v → (Value.map update).at? path = none →
    (∀ start w, start <+: path → (Value.map update).at? start = some w → ∃ u, w = .map u) →
    (Value.map merged).at? path = some v

/-- A merged map is one map laid over the other along every path. -/
theorem laidOver_merge (hupdate : (Value.map update).Distinct) :
    LaidOver base update (Fields.merge base update) := by
  refine ⟨?_, ?_, ?_⟩
  · intro path
    obtain ⟨start, h⟩ := exists_longest base update path
    refine ⟨start, h, ?_⟩
    obtain rfl | ⟨key, rest, rfl⟩ := h.eq_or_exists
    · obtain ⟨⟨b, hb⟩, u, hu⟩ := h.both
      have hkeys : (Keyed.keys u).Nodup := by
        cases hupdate.at? hu with
        | map hkeys _ => exact hkeys
      exact .inl ⟨rfl, b, u, _, hb, hu, at?_merge_of_both hupdate hb hu, Fields.keys_merge hkeys b⟩
    · exact .inr ⟨key, rest, rfl, at?_merge_of_not_both hupdate h.both (h.not_bothMaps rfl) rest⟩
  · intro path v hv hnot
    obtain ⟨start, h⟩ := exists_longest base update path
    obtain rfl | ⟨key, rest, rfl⟩ := h.eq_or_exists
    · exact absurd h.both hnot
    · have hkey : ((Value.map update).at? (start ++ [key])).isSome = true := by
        rw [List.append_cons, Value.at?_append] at hv
        obtain ⟨w, hw, -⟩ := Option.bind_eq_some_iff.mp hv
        rw [hw]
        rfl
      rw [at?_merge_of_not_both hupdate h.both (h.not_bothMaps rfl), if_pos hkey, hv]
  · intro path v hv hnone hmaps
    obtain ⟨start, h⟩ := exists_longest base update path
    obtain rfl | ⟨key, rest, rfl⟩ := h.eq_or_exists
    · obtain ⟨-, u, hu⟩ := h.both
      rw [hnone] at hu
      cases hu
    · have hkey : ¬ ((Value.map update).at? (start ++ [key])).isSome = true := by
        intro hsome
        obtain ⟨w, hw⟩ := Option.isSome_iff_exists.mp hsome
        obtain ⟨u, rfl⟩ := hmaps (start ++ [key]) w ⟨rest, by simp⟩ hw
        -- The base goes on behind the key, so both would hold a map there.
        cases rest with
        | nil =>
            rw [hw] at hnone
            cases hnone
        | cons next rest =>
            rw [List.append_cons] at hv
            obtain ⟨b, hb⟩ := Value.exists_map_of_at? hv
            exact h.not_bothMaps rfl ⟨⟨b, hb⟩, u, hw⟩
      rw [at?_merge_of_not_both hupdate h.both (h.not_bothMaps rfl), if_neg hkey, hv]

end paths

/-! ### Tables -/

namespace Value

/-- A value that is put under a key stands in a row that was there, or in a new one. -/
theorem mem_putRow {key value : Value} {rows : List (Value × Value)} {row : Value × Value}
    (h : row ∈ putRow key value rows) : row.2 = value ∨ row ∈ rows := by
  induction rows with
  | nil =>
      rw [putRow, List.mem_singleton] at h
      exact .inl (by rw [h])
  | cons first rest ih =>
      obtain ⟨k, v⟩ := first
      unfold putRow at h
      split_ifs at h
      · rcases List.mem_cons.mp h with rfl | h
        · exact .inl rfl
        · exact .inr (List.mem_cons_of_mem _ h)
      · rcases List.mem_cons.mp h with rfl | h
        · exact .inr List.mem_cons_self
        · exact (ih h).imp id (List.mem_cons_of_mem _)

/-- The keys after a value is put under a key: the old ones, and the new one if none is the same. -/
theorem keys_putRow (key value : Value) (rows : List (Value × Value)) :
    (putRow key value rows).map Prod.fst =
      if rows.any (·.1.isKey key) then rows.map Prod.fst else rows.map Prod.fst ++ [key] := by
  induction rows with
  | nil => rfl
  | cons first rest ih =>
      obtain ⟨k, v⟩ := first
      rw [putRow, List.any_cons]
      cases hk : k.isKey key with
      | true => simp
      | false =>
          rw [if_neg (by simp), List.map_cons, ih, Bool.false_or]
          split_ifs
          · rfl
          · rfl

theorem distinctRows_iff {rows : List (Value × Value)} : DistinctRows rows ↔
    (rows.map Prod.fst).Pairwise fun v other => v.isKey other = false := by
  rw [List.pairwise_map, DistinctRows]

theorem DistinctRows.putRow {rows : List (Value × Value)} (h : DistinctRows rows)
    (key value : Value) : DistinctRows (putRow key value rows) := by
  rw [distinctRows_iff] at h ⊢
  rw [keys_putRow]
  split_ifs with hany
  · exact h
  · rw [Bool.not_eq_true, List.any_eq_false] at hany
    refine List.pairwise_append.mpr ⟨h, List.pairwise_singleton _ _, ?_⟩
    intro v hv other hother
    obtain ⟨row, hrow, rfl⟩ := List.mem_map.mp hv
    rw [List.mem_singleton.mp hother]
    simpa using hany row hrow

/-- Of several values under one key the last one stays, so no key stands twice. -/
theorem distinctRows_distinctRows (rows : List (Value × Value)) :
    DistinctRows (distinctRows rows) ∧
      ∀ row ∈ distinctRows rows, ∃ given ∈ rows, given.2 = row.2 := by
  induction rows using List.reverseRecOn with
  | nil => exact ⟨List.Pairwise.nil, fun _ h => absurd h List.not_mem_nil⟩
  | append_singleton rows row ih =>
      have e : distinctRows (rows ++ [row]) = putRow row.1 row.2 (distinctRows rows) := by
        simp [distinctRows]
      rw [e]
      refine ⟨ih.1.putRow _ _, fun other hother => ?_⟩
      rcases mem_putRow hother with hnew | hold
      · exact ⟨row, by simp, hnew.symm⟩
      · obtain ⟨given, hgiven, hvalue⟩ := ih.2 other hold
        exact ⟨given, List.mem_append_left _ hgiven, hvalue⟩

theorem field?_eq_some_iff {row : Value × Value} {field : Text × Value} :
    field? row = some field ↔ row = (.text field.1, field.2) := by
  obtain ⟨k, v⟩ := row
  obtain ⟨key, value⟩ := field
  cases k with
  | text t => simp [field?]
  | _ => simp [field?]

/-- Rows whose keys are texts are the fields of a map. -/
theorem rows_of_mapM_field? {rows : List (Value × Value)} {fields : List (Text × Value)}
    (h : rows.mapM field? = some fields) : rows = fields.map fun f => (.text f.1, f.2) := by
  induction rows generalizing fields with
  | nil =>
      cases h
      rfl
  | cons row rest ih =>
      rw [List.mapM_cons] at h
      obtain ⟨f, hf, h⟩ := Option.bind_eq_some_iff.mp h
      obtain ⟨more, hmore, h⟩ := Option.bind_eq_some_iff.mp h
      cases h
      rw [List.map_cons, ← ih hmore, field?_eq_some_iff.mp hf]

/-- Rows make up a map or a table in which no key stands twice. -/
theorem distinct_ofRows {rows : List (Value × Value)} (h : ∀ row ∈ rows, row.2.Distinct) :
    (ofRows rows).Distinct := by
  unfold ofRows
  cases hfields : rows.mapM field? with
  | some fields =>
      obtain ⟨hnodup, hmem⟩ := Keyed.nodup_keys_ofPairs fields
      rw [rows_of_mapM_field? hfields, List.forall_mem_map] at h
      exact .map hnodup fun f hf => h f (hmem f hf)
  | none =>
      obtain ⟨hdistinct, hgiven⟩ := distinctRows_distinctRows rows
      refine .table hdistinct fun row hrow => ?_
      obtain ⟨given, hmem, hvalue⟩ := hgiven row hrow
      rw [← hvalue]
      exact h given hmem

/-- The rows under texts make up a map in which no key stands twice. -/
theorem distinct_textRows {rows : List (Value × Value)} (h : (Value.table rows).Distinct) :
    (Value.map (textRows rows)).Distinct := by
  cases h with
  | table hrows hvalues =>
      refine .map ?_ fun f hf => ?_
      · rw [Keyed.keys, textRows, List.map_filterMap]
        refine List.pairwise_filterMap.mpr (hrows.imp ?_)
        intro row other hkey a ha b hb hab
        obtain ⟨f, hf, rfl⟩ := Option.map_eq_some_iff.mp ha
        obtain ⟨g, hg, rfl⟩ := Option.map_eq_some_iff.mp hb
        rw [field?_eq_some_iff.mp hf, field?_eq_some_iff.mp hg, hab] at hkey
        simp [isKey, scaled?] at hkey
      · obtain ⟨row, hrow, hfield⟩ := List.mem_filterMap.mp hf
        have hvalue := hvalues row hrow
        rwa [field?_eq_some_iff.mp hfield] at hvalue

end Value

/-! ### Documents -/

namespace Yaml

theorem distinct_truthValue {t : Text} {v : Value} (h : truthValue t = .ok v) : v.Distinct := by
  unfold truthValue at h
  split_ifs at h
  · cases h
    exact .bool true
  · cases h
    exact .bool false

theorem distinct_intValue {t : Text} {v : Value} (h : intValue t = .ok v) : v.Distinct := by
  obtain ⟨n, -, rfl⟩ := map_eq_ok_iff.mp h
  exact .int _

theorem distinct_floatValue {t : Text} {v : Value} (h : floatValue t = .ok v) : v.Distinct := by
  obtain ⟨x, -, rfl⟩ := map_eq_ok_iff.mp h
  exact .float _

theorem distinct_timestampValue {t : Text} {v : Value} (h : timestampValue t = .ok v) :
    v.Distinct := by
  unfold timestampValue at h
  split at h
  · cases h
  · split at h
    · cases h
      exact .timestamp _
    · cases h

theorem distinct_binaryValue {t : Text} {v : Value} (h : binaryValue t = .ok v) : v.Distinct := by
  unfold binaryValue at h
  split_ifs at h
  split at h
  · cases h
    exact .binary _
  · cases h

theorem distinct_scalarValue {tag : Tag} {t : Text} {v : Value} (h : scalarValue tag t = .ok v) :
    v.Distinct := by
  cases tag with
  | implicit =>
      simp only [scalarValue, plainValue] at h
      split at h
      · cases h
        exact .null
      · exact distinct_truthValue h
      · exact distinct_intValue h
      · exact distinct_floatValue h
      · exact distinct_timestampValue h
      · cases h
      · cases h
      · cases h
        exact .text t
  | quoted =>
      cases h
      exact .text t
  | named name =>
      simp only [scalarValue, taggedValue] at h
      split at h
      · cases h
      · split_ifs at h
        · cases h
          exact .text t
        · exact distinct_intValue h
        · exact distinct_floatValue h
        · exact distinct_truthValue h
        · cases h
          exact .null
        · exact distinct_timestampValue h
        · exact distinct_binaryValue h

mutual

theorem distinct_value : ∀ {node : Node} {v : Value}, node.value = .ok v → v.Distinct
  | .scalar tag t, v, h => by
      rw [Node.value] at h
      exact distinct_scalarValue h
  | .sequence tag items, v, h => by
      rw [Node.value] at h
      split_ifs at h
      · obtain ⟨vs, hvs, rfl⟩ := map_eq_ok_iff.mp h
        exact .list (distinct_itemValues hvs)
      · obtain ⟨vs, hvs, rfl⟩ := map_eq_ok_iff.mp h
        exact .list (distinct_singlePairs hvs)
  | .mapping tag pairs, v, h => by
      rw [Node.value] at h
      split_ifs at h
      · obtain ⟨⟨taken, own⟩, hpairs, rfl⟩ := map_eq_ok_iff.mp h
        exact Value.distinct_ofRows (distinct_pairValues hpairs)
      · obtain ⟨⟨taken, own⟩, hpairs, rfl⟩ := map_eq_ok_iff.mp h
        have hdistinct := (Value.distinctRows_distinctRows (taken ++ own)).1
        exact .set (Value.distinctRows_iff.mp hdistinct)

theorem distinct_itemValues : ∀ {items : List Node} {vs : List Value},
    itemValues items = .ok vs → ∀ v ∈ vs, v.Distinct
  | [], vs, h => by
      cases h
      simp
  | item :: rest, vs, h => by
      rw [itemValues] at h
      obtain ⟨v, hv, h⟩ := bind_eq_ok_iff.mp h
      obtain ⟨more, hmore, h⟩ := bind_eq_ok_iff.mp h
      cases h
      exact List.forall_mem_cons.mpr ⟨distinct_value hv, distinct_itemValues hmore⟩

theorem distinct_singlePairs : ∀ {items : List Node} {vs : List Value},
    singlePairs items = .ok vs → ∀ v ∈ vs, v.Distinct
  | [], vs, h => by
      cases h
      simp
  | .mapping tag [(key, value)] :: rest, vs, h => by
      rw [singlePairs] at h
      obtain ⟨k, hk, h⟩ := bind_eq_ok_iff.mp h
      obtain ⟨v, hv, h⟩ := bind_eq_ok_iff.mp h
      obtain ⟨more, hmore, h⟩ := bind_eq_ok_iff.mp h
      cases h
      have hpair : ∀ u ∈ [k, v], u.Distinct :=
        List.forall_mem_cons.mpr ⟨distinct_value hk, List.forall_mem_singleton.mpr (distinct_value hv)⟩
      exact List.forall_mem_cons.mpr ⟨.list hpair, distinct_singlePairs hmore⟩
  | .mapping tag [] :: rest, vs, h => by
      rw [singlePairs] at h
      · cases h
      · intro tag key value hcontra
        cases hcontra
  | .mapping tag (first :: second :: more) :: rest, vs, h => by
      rw [singlePairs] at h
      · cases h
      · intro tag key value hcontra
        cases hcontra
  | .sequence tag items :: rest, vs, h => by
      rw [singlePairs] at h
      · cases h
      · intro tag key value hcontra
        cases hcontra
  | .scalar tag t :: rest, vs, h => by
      rw [singlePairs] at h
      · cases h
      · intro tag key value hcontra
        cases hcontra

theorem distinct_pairValues : ∀ {pairs : List (Node × Node)} {taken own : List (Value × Value)},
    pairValues pairs = .ok (taken, own) → ∀ f ∈ taken ++ own, f.2.Distinct
  | [], taken, own, h => by
      cases h
      simp
  | (key, value) :: rest, taken, own, h => by
      rw [pairValues] at h
      split_ifs at h
      · obtain ⟨found, hfound, h⟩ := bind_eq_ok_iff.mp h
        obtain ⟨⟨more, mine⟩, hmore, h⟩ := bind_eq_ok_iff.mp h
        cases h
        rw [List.append_assoc]
        exact List.forall_mem_append.mpr
          ⟨distinct_mergedPairs hfound, distinct_pairValues hmore⟩
      · obtain ⟨k, -, h⟩ := bind_eq_ok_iff.mp h
        obtain ⟨v, hv, h⟩ := bind_eq_ok_iff.mp h
        obtain ⟨⟨more, mine⟩, hmore, h⟩ := bind_eq_ok_iff.mp h
        cases h
        obtain ⟨htaken, hown⟩ := List.forall_mem_append.mp (distinct_pairValues hmore)
        exact List.forall_mem_append.mpr
          ⟨htaken, List.forall_mem_cons.mpr ⟨distinct_value hv, hown⟩⟩

theorem distinct_mergedPairs : ∀ {node : Node} {pairs : List (Value × Value)},
    node.mergedPairs = .ok pairs → ∀ f ∈ pairs, f.2.Distinct
  | .mapping tag inner, pairs, h => by
      rw [Node.mergedPairs] at h
      obtain ⟨⟨taken, own⟩, hinner, rfl⟩ := map_eq_ok_iff.mp h
      exact distinct_pairValues hinner
  | .sequence tag items, pairs, h => by
      rw [Node.mergedPairs] at h
      exact distinct_mergedItems h
  | .scalar tag t, pairs, h => by
      rw [Node.mergedPairs] at h
      cases h

theorem distinct_mergedItems : ∀ {items : List Node} {pairs : List (Value × Value)},
    mergedItems items = .ok pairs → ∀ f ∈ pairs, f.2.Distinct
  | [], pairs, h => by
      cases h
      simp
  | .mapping tag inner :: rest, pairs, h => by
      rw [mergedItems] at h
      obtain ⟨⟨taken, own⟩, hinner, h⟩ := bind_eq_ok_iff.mp h
      obtain ⟨later, hlater, h⟩ := bind_eq_ok_iff.mp h
      cases h
      exact List.forall_mem_append.mpr ⟨distinct_mergedItems hlater, distinct_pairValues hinner⟩
  | .sequence tag items :: rest, pairs, h => by
      rw [mergedItems] at h
      · cases h
      · intro tag pairs hcontra
        cases hcontra
  | .scalar tag t :: rest, pairs, h => by
      rw [mergedItems] at h
      · cases h
      · intro tag pairs hcontra
        cases hcontra

end

/-- What is read from a text has no key twice. -/
theorem distinct_of_read {t : Text} {v : Value} (h : read t = .ok v) : v.Distinct := by
  obtain ⟨tokens, -, h⟩ := bind_eq_ok_iff.mp h
  obtain ⟨root, -, h⟩ := bind_eq_ok_iff.mp h
  cases root with
  | none =>
      cases h
      exact .null
  | some root => exact distinct_value h

end Yaml

/-! ### Configurations -/

namespace Config

open Project

theorem distinct_defaults : (Value.map defaults).Distinct := by
  refine .map (by decide) (List.forall_mem_cons.mpr ⟨?_, List.forall_mem_singleton.mpr ?_⟩)
  · refine .map (by decide) ?_
    simp only [List.forall_mem_cons]
    refine ⟨.text _, .list ?_, .list (by simp), .null, by simp⟩
    intro v hv
    obtain ⟨t, -, rfl⟩ := List.mem_map.mp hv
    exact .text t
  · refine .map (by decide) ?_
    simp only [List.forall_mem_cons]
    exact ⟨.text _, .bool true, by simp⟩

/-- What is taken of a configuration file has no key twice. -/
theorem distinct_settings {file : Value} {user : Fields} (hfile : file.Distinct)
    (h : settings file = .ok user) : (Value.map user).Distinct := by
  obtain ⟨fields, hfields, h⟩ := bind_eq_ok_iff.mp h
  cases h
  have hdistinct : (Value.map fields).Distinct := by
    cases file with
    | map given =>
        cases hfields
        exact hfile
    | table rows =>
        cases hfields
        exact Value.distinct_textRows hfile
    | _ => cases hfields
  cases hdistinct with
  | map hkeys hvalues =>
      refine .map ?_ (List.forall_mem_map.mpr ?_)
      · rwa [Keyed.keys_mapValues]
      · rintro ⟨key, v⟩ hmem
        have hv := hvalues _ hmem
        cases v with
        | table rows => exact Value.distinct_textRows hv
        | _ => exact hv

/-- What the configuration file of a path sets. -/
def Sets (read : Text → Except Yaml.Error Value) (fs : FileSystem) (path : Text) (user : Fields) :
    Prop :=
  if path.isEmpty then user = []
  else ∃ file, settings file = .ok user ∧
    readDocument fs (Path.ofText path) (fun t => (read t).mapError .yaml) = .ok file

/-- A configuration is what its file sets, laid over the defaults. -/
theorem exists_of_load {read : Text → Except Yaml.Error Value}
    (hread : ∀ t v, read t = .ok v → v.Distinct) {fs : FileSystem} {path : Text} {config : Fields}
    (h : load read fs path = .ok config) : ∃ user, Sets read fs path user ∧
      (Value.map user).Distinct ∧ config = Fields.merge defaults user := by
  have hnil : (Value.map []).Distinct := .map List.nodup_nil (by simp)
  unfold Sets
  unfold load at h
  split_ifs at h ⊢ with hpath
  · cases h
    exact ⟨[], rfl, hnil, rfl⟩
  · obtain ⟨file, hfile, h⟩ := bind_eq_ok_iff.mp h
    obtain ⟨user, huser, rfl⟩ := map_eq_ok_iff.mp h
    rw [mapError_eq_ok_iff] at huser
    refine ⟨user, ⟨file, huser, hfile⟩, distinct_settings ?_ huser, rfl⟩
    unfold readDocument at hfile
    split_ifs at hfile
    · obtain ⟨text, -, hfile⟩ := bind_eq_ok_iff.mp hfile
      obtain ⟨v, hv, hfile⟩ := bind_eq_ok_iff.mp hfile
      cases hfile
      rw [Value.orElse]
      split_ifs
      · exact hread text v (mapError_eq_ok_iff.mp hv)
      · exact hnil
    · cases hfile
      exact hnil

/-- Nothing but maps is added to the values of two maps when one is laid over the other. -/
theorem forall_merge {P : Value → Prop} (hmap : ∀ m, P (.map m)) {update : List (Text × Value)}
    (hupdate : ∀ f ∈ update, P f.2) :
    ∀ {base : Fields}, (∀ f ∈ base, P f.2) → ∀ f ∈ Fields.merge base update, P f.2 := by
  induction update with
  | nil => exact fun hbase => by simpa [Fields.merge] using hbase
  | cons entry rest ih =>
      obtain ⟨key, value⟩ := entry
      obtain ⟨hvalue, hrest⟩ := List.forall_mem_cons.mp hupdate
      intro base hbase
      rw [Fields.merge_cons]
      refine ih hrest fun f hf => ?_
      rcases Keyed.mem_put hf with rfl | hold
      · cases Keyed.get? base key with
        | none => exact hvalue
        | some old =>
            cases value with
            | map update =>
                cases old with
                | map base => exact hmap _
                | _ => exact hvalue
            | _ => exact hvalue
      · exact hbase f hold

/-- A section of a configuration is no table. -/
theorem ne_table_of_load {read : Text → Except Yaml.Error Value} {fs : FileSystem} {path : Text}
    {config : Fields} (h : load read fs path = .ok config) :
    ∀ f ∈ config, ∀ rows, f.2 ≠ .table rows := by
  have hdefaults : ∀ f ∈ defaults, ∀ rows, f.2 ≠ .table rows := by
    simp [defaults]
  unfold load at h
  split_ifs at h
  · cases h
    exact hdefaults
  · obtain ⟨file, -, h⟩ := bind_eq_ok_iff.mp h
    obtain ⟨user, huser, rfl⟩ := map_eq_ok_iff.mp h
    rw [mapError_eq_ok_iff] at huser
    obtain ⟨fields, -, huser⟩ := bind_eq_ok_iff.mp huser
    cases huser
    refine forall_merge (P := fun v => ∀ rows, v ≠ .table rows) (fun m rows => Value.noConfusion)
      (List.forall_mem_map.mpr ?_) hdefaults
    rintro ⟨key, v⟩ - rows
    cases v with
    | _ => exact Value.noConfusion

end Config

/-- **A merged map is told by its key paths.**  Of two nested maps each path is decided by one of
them behind the maps that both have, and laying the same update over the result changes nothing; so
it is for every configuration, which is its file laid over the defaults. -/
theorem merged_along_paths :
    (∀ base update : Fields, (Value.map base).Distinct → (Value.map update).Distinct →
      LaidOver base update (Fields.merge base update) ∧
        Fields.merge (Fields.merge base update) update = Fields.merge base update) ∧
    ∀ read : Text → Except Yaml.Error Value, (∀ t v, read t = .ok v → v.Distinct) →
      ∀ fs path config, Config.load read fs path = .ok config →
        ∃ user, Config.Sets read fs path user ∧
          LaidOver Config.defaults user config ∧ Fields.merge config user = config := by
  refine ⟨fun base update hbase hupdate => ?_, fun read hread fs path config h => ?_⟩
  · exact ⟨laidOver_merge hupdate, Fields.merge_merge hbase hupdate⟩
  · obtain ⟨user, hsets, hdistinct, rfl⟩ := Config.exists_of_load hread h
    exact ⟨user, hsets, laidOver_merge hdistinct,
      Fields.merge_merge Config.distinct_defaults hdistinct⟩

/-- Settings that put a map in place of a text, and a text in place of a map. -/
def swappedShapes : Fields :=
  [("scan", .map [("source_root", .map [("main", .text "src")]), ("depth", .int 2)]),
   ("manifest", .text "none")]

/-- A project whose configuration file holds them. -/
def swappedProject : FileSystem := FileSystem.ofEntries
  [("/etc/project.yml", .file (TypeScript.bytesOf
    "scan:\n  source_root:\n    main: src\n  depth: 2\nmanifest: none\n"))]

theorem merged_along_paths_swapped :
    (Value.map Config.defaults).Distinct ∧ (Value.map swappedShapes).Distinct ∧
    (LaidOver Config.defaults swappedShapes (Fields.merge Config.defaults swappedShapes) ∧
      Fields.merge (Fields.merge Config.defaults swappedShapes) swappedShapes =
        Fields.merge Config.defaults swappedShapes) ∧
    (∀ t v, Yaml.read t = .ok v → v.Distinct) ∧
    ∃ config, Config.load Yaml.read swappedProject "/etc/project.yml" = .ok config ∧
      Keyed.keys config = ["scan", "manifest"] ∧
      ∃ user, Config.Sets Yaml.read swappedProject "/etc/project.yml" user ∧
        LaidOver Config.defaults user config ∧ Fields.merge config user = config := by
  have hshapes : (Value.map swappedShapes).Distinct := by
    refine .map (by decide) (List.forall_mem_cons.mpr ⟨?_, List.forall_mem_singleton.mpr (.text _)⟩)
    refine .map (by decide) (List.forall_mem_cons.mpr ⟨?_, List.forall_mem_singleton.mpr (.int _)⟩)
    exact .map (by decide) (List.forall_mem_singleton.mpr (.text _))
  have hload : (Config.load Yaml.read swappedProject "/etc/project.yml").map Keyed.keys =
      .ok ["scan", "manifest"] := by
    decide +kernel
  have hread : ∀ t v, Yaml.read t = .ok v → v.Distinct := fun _ _ => Yaml.distinct_of_read
  obtain ⟨config, hconfig, hkeys⟩ := map_eq_ok_iff.mp hload
  obtain ⟨hmaps, hconfigs⟩ := merged_along_paths
  exact ⟨Config.distinct_defaults, hshapes, hmaps _ _ Config.distinct_defaults hshapes, hread,
    config, hconfig, hkeys, hconfigs Yaml.read hread _ _ _ hconfig⟩

end PluginManifest
