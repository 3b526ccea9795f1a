import PluginManifest.Proofs.Gathering
import PluginManifest.Proofs.Keyed
import Mathlib.Data.List.Induction
import Mathlib.Data.List.Nodup
import Mathlib.Data.Nat.Find

/-! # Every item is kept or replaced once

A ledger lists items under their ids.  Its laws are stated against the list of the items itself:

* `latest? items id` is the last item with an id;
* `collisionAt? kind items i` is what is recorded of the item at place `i`;
* `IsNext items i j` says that `j` is the place of the next item with the id of the one at `i`.

`Ledger.Holds` is the invariant of `Ledger.record`; `Accounted` says what follows from it for the
map and the collisions that a whole list leaves behind.  A ledger stands for two maps, one of the items
and one of their files, that go in step (`Ledger.record_maps`, `Ledger.foldlM_record`). -/

namespace PluginManifest.Project

open Item

/-- The last of some items with an id. -/
def latest? (items : List Found) (id : Text) : Option Found :=
  (items.filter (·.item.id = id)).getLast?

/-- What is recorded of the item at a place: nothing when it is the first one with its id, else a
collision with the nearest item before it that has its id. -/
def collisionAt? (kind : Item.Kind) (items : List Found) (i : Nat) : Option Collision :=
  match items[i]? with
  | none => none
  | some found =>
    (latest? (items.take i) found.item.id).map fun previous =>
      ⟨kind, found.item.id, previous.file, found.file⟩

/-- The id of the item at a place. -/
def idAt? (items : List Found) (i : Nat) : Option Text := items[i]?.map (·.item.id)

/-- The item at `j` is the next one after the item at `i` with the same id. -/
def IsNext (items : List Found) (i j : Nat) : Prop :=
  i < j ∧ j < items.length ∧ idAt? items j = idAt? items i ∧
    ∀ k, i < k → k < j → idAt? items k ≠ idAt? items i

/-! ### The last item with an id -/

theorem latest?_append (before after : List Found) (id : Text) :
    latest? (before ++ after) id = (latest? after id).or (latest? before id) := by
  unfold latest?
  rw [List.filter_append, List.getLast?_append]

theorem latest?_concat (items : List Found) (found : Found) (id : Text) :
    latest? (items ++ [found]) id = if id = found.item.id then some found else latest? items id := by
  rw [latest?_append]
  by_cases h : id = found.item.id
  · simp [latest?, h]
  · have h' : ¬ found.item.id = id := fun e => h e.symm
    simp [latest?, h, h']

theorem latest?_eq_none_iff {items : List Found} {id : Text} :
    latest? items id = none ↔ id ∉ items.map (·.item.id) := by
  unfold latest?
  rw [List.getLast?_eq_none_iff, List.filter_eq_nil_iff]
  simp

/-- An item without a later one of its id is the last one with its id. -/
theorem latest?_of_forall_ne {before after : List Found} {found : Found}
    (h : ∀ f ∈ after, f.item.id ≠ found.item.id) :
    latest? (before ++ found :: after) found.item.id = some found := by
  rw [List.append_cons, latest?_append, latest?_concat, if_pos rfl]
  have hn : latest? after found.item.id = none := by
    rw [latest?_eq_none_iff, List.mem_map]
    rintro ⟨f, hf, he⟩
    exact h f hf he
  rw [hn]
  rfl

/-! ### What is recorded of one more item -/

theorem collisionAt?_concat_of_lt (kind : Item.Kind) (items : List Found) (found : Found) {i : Nat}
    (hi : i < items.length) :
    collisionAt? kind (items ++ [found]) i = collisionAt? kind items i := by
  unfold collisionAt?
  rw [List.getElem?_append_left hi, List.take_append_of_le_length (Nat.le_of_lt hi)]

theorem collisionAt?_concat_length (kind : Item.Kind) (items : List Found) (found : Found) :
    collisionAt? kind (items ++ [found]) items.length =
      (latest? items found.item.id).map fun previous =>
        ⟨kind, found.item.id, previous.file, found.file⟩ := by
  unfold collisionAt?
  rw [List.getElem?_concat_length, List.take_left]

theorem filterMap_collisionAt?_concat (kind : Item.Kind) (items : List Found) (found : Found) :
    (List.range (items ++ [found]).length).filterMap (collisionAt? kind (items ++ [found])) =
      (List.range items.length).filterMap (collisionAt? kind items) ++
        ((latest? items found.item.id).map fun previous =>
          ⟨kind, found.item.id, previous.file, found.file⟩).toList := by
  rw [List.length_append, List.length_singleton, List.range_succ, List.filterMap_append]
  congr 1
  · apply List.filterMap_congr
    intro i hi
    exact collisionAt?_concat_of_lt kind items found (List.mem_range.mp hi)
  · rw [List.filterMap_cons, collisionAt?_concat_length]
    cases latest? items found.item.id with
    | none => rfl
    | some previous => rfl

/-! ### The invariant of a ledger -/

/-- A new id comes last among the first occurrences. -/
theorem eraseDups_concat (ids : List Text) (id : Text) :
    (ids ++ [id]).eraseDups = if id ∈ ids then ids.eraseDups else ids.eraseDups ++ [id] := by
  rw [List.eraseDups_append]
  by_cases h : id ∈ ids
  · have hnil : List.removeAll [id] ids = [] := by simp [List.removeAll, h]
    rw [if_pos h, hnil, List.eraseDups_nil, List.append_nil]
  · have hid : List.removeAll [id] ids = [id] := by simp [List.removeAll, h]
    rw [if_neg h, hid]
    rfl

/-- What a ledger holds after some items of a kind. -/
structure Ledger.Holds (kind : Item.Kind) (items : List Found) (ledger : Ledger) : Prop where
  keys : Keyed.keys ledger.entries = (items.map (·.item.id)).eraseDups
  entries : ∀ id, Keyed.get? ledger.entries id = latest? items id
  collisions : ledger.collisions = (List.range items.length).filterMap (collisionAt? kind items)
  count : ledger.entries.length + ledger.collisions.length = items.length

/-- One more item keeps the invariant. -/
theorem Ledger.Holds.record {kind : Item.Kind} {items : List Found} {ledger : Ledger}
    (h : ledger.Holds kind items) (found : Found) :
    (ledger.record kind found).Holds kind (items ++ [found]) := by
  have hlatest := h.entries found.item.id
  have hmem : found.item.id ∈ Keyed.keys ledger.entries ↔ found.item.id ∈ items.map (·.item.id) := by
    rw [h.keys, List.mem_eraseDups]
  refine ⟨?_, ?_, ?_, ?_⟩
  · show Keyed.keys (Keyed.put _ _ _) = _
    rw [Keyed.keys_put, List.map_append, List.map_singleton, eraseDups_concat, ← h.keys]
    exact if_congr hmem rfl rfl
  · intro id
    show Keyed.get? (Keyed.put _ _ _) id = _
    rw [Keyed.get?_put, latest?_concat, h.entries]
  · rw [filterMap_collisionAt?_concat, ← h.collisions, ← hlatest]
    unfold Ledger.record
    cases Keyed.get? ledger.entries found.item.id with
    | none => simp
    | some previous => rfl
  · have hkeys : (Keyed.put found.item.id found ledger.entries).length =
        (Keyed.keys (Keyed.put found.item.id found ledger.entries)).length :=
      (Keyed.length_keys _).symm
    rw [Keyed.keys_put] at hkeys
    have hcount := h.count
    have hlength := Keyed.length_keys ledger.entries
    unfold Ledger.record
    cases hget : Keyed.get? ledger.entries found.item.id with
    | none =>
        rw [if_neg (Keyed.get?_eq_none_iff.mp hget)] at hkeys
        simp only [List.length_append, List.length_singleton] at hkeys ⊢
        omega
    | some previous =>
        rw [if_pos (Keyed.mem_keys_of_get? hget)] at hkeys
        simp only [List.length_append, List.length_singleton]
        omega

theorem Ledger.ofItems_concat (kind : Item.Kind) (items : List Found) (found : Found) :
    Ledger.ofItems kind (items ++ [found]) = (Ledger.ofItems kind items).record kind found :=
  List.foldl_concat _ _ _ _

/-- The ledger of a list of items holds what the list says. -/
theorem Ledger.holds_ofItems (kind : Item.Kind) (items : List Found) :
    (Ledger.ofItems kind items).Holds kind items := by
  induction items using List.reverseRecOn with
  | nil => exact ⟨rfl, fun _ => rfl, rfl, rfl⟩
  | append_singleton items found ih =>
      rw [Ledger.ofItems_concat]
      exact ih.record found

/-! ### Items and files in two maps -/

/-- Items of a kind under their ids in one map, and the file of each in another. -/
structure Maps where
  /-- The last item of each id. -/
  keyed : Keyed Descriptor
  /-- The file of the last item of each id. -/
  origin : Keyed Text
  /-- The collisions in order. -/
  collisions : List Collision

/-- The maps with one more item.  An id with an item must have a file as well. -/
def Maps.record (kind : Item.Kind) (maps : Maps) (found : Found) : Option Maps := do
  let collisions ←
    if found.item.id ∈ Keyed.keys maps.keyed then do
      let previous ← Keyed.get? maps.origin found.item.id
      pure (maps.collisions ++ [⟨kind, found.item.id, previous, found.file⟩])
    else pure maps.collisions
  pure ⟨Keyed.put found.item.id found.item maps.keyed,
    Keyed.put found.item.id found.file maps.origin, collisions⟩

/-- The maps that a ledger amounts to. -/
def Ledger.maps (ledger : Ledger) : Maps :=
  ⟨ledger.items, ledger.entries.map fun (id, found) => (id, found.file), ledger.collisions⟩

/-- One more item keeps the maps and the ledger in step; its id misses no file. -/
theorem Ledger.record_maps (kind : Item.Kind) (ledger : Ledger) (found : Found) :
    ledger.maps.record kind found = some (ledger.record kind found).maps := by
  have hkeys : Keyed.keys ledger.maps.keyed = Keyed.keys ledger.entries := Keyed.keys_mapValues _ _
  have horigin : Keyed.get? ledger.maps.origin found.item.id =
      (Keyed.get? ledger.entries found.item.id).map (·.file) := Keyed.get?_mapValues _ _ _
  have hmaps : (ledger.record kind found).maps =
      ⟨Keyed.put found.item.id found.item ledger.maps.keyed,
        Keyed.put found.item.id found.file ledger.maps.origin, (ledger.record kind found).collisions⟩ :=
    congrArg₂ (Maps.mk · · _) (Keyed.put_mapValues _ _ _ _) (Keyed.put_mapValues _ _ _ _)
  rw [hmaps]
  unfold Maps.record Ledger.record
  rw [hkeys, horigin]
  cases hget : Keyed.get? ledger.entries found.item.id with
  | none =>
      rw [if_neg (Keyed.get?_eq_none_iff.mp hget)]
      rfl
  | some previous =>
      rw [if_pos (Keyed.mem_keys_of_get? hget)]
      rfl

/-- Any list of items leaves the maps behind that its ledger amounts to. -/
theorem Ledger.foldlM_record (kind : Item.Kind) (items : List Found) :
    items.foldlM (Maps.record kind) ⟨[], [], []⟩ = some (Ledger.ofItems kind items).maps := by
  induction items using List.reverseRecOn with
  | nil => rfl
  | append_singleton items found ih =>
      rw [List.foldlM_append, ih, ofItems_concat]
      show List.foldlM (Maps.record kind) (Ledger.ofItems kind items).maps [found] = _
      rw [List.foldlM_cons, Ledger.record_maps]
      rfl

/-! ### The next item with an id -/

theorem IsNext.unique {items : List Found} {i j k : Nat} (hj : IsNext items i j)
    (hk : IsNext items i k) : j = k := by
  obtain ⟨hij, -, ej, nj⟩ := hj
  obtain ⟨hik, -, ek, nk⟩ := hk
  rcases Nat.lt_trichotomy j k with h | h | h
  · exact absurd ej (nk j hij h)
  · exact h
  · exact absurd ek (nj k hik h)

/-- A place with a later item of its id has a next one. -/
theorem exists_isNext {items : List Found} {i j : Nat} (hij : i < j) (hj : j < items.length)
    (e : idAt? items j = idAt? items i) : ∃ k, IsNext items i k := by
  classical
  have hex : ∃ k, i < k ∧ k < items.length ∧ idAt? items k = idAt? items i := ⟨j, hij, hj, e⟩
  obtain ⟨h1, h2, h3⟩ := Nat.find_spec hex
  refine ⟨Nat.find hex, h1, h2, h3, ?_⟩
  intro k hik hk he
  exact Nat.find_min hex hk ⟨hik, by omega, he⟩

/-- An item that has no next one is the last one with its id. -/
theorem latest?_of_forall_not_isNext {items : List Found} {i : Nat} {found : Found}
    (hi : items[i]? = some found) (h : ∀ j, ¬ IsNext items i j) :
    latest? items found.item.id = some found := by
  obtain ⟨hlt, hget⟩ := List.getElem?_eq_some_iff.mp hi
  have hsplit : items = items.take i ++ found :: items.drop (i + 1) := by
    rw [← hget, List.getElem_cons_drop, List.take_append_drop]
  rw [hsplit]
  apply latest?_of_forall_ne
  intro f hf he
  obtain ⟨m, hm, rfl⟩ := List.mem_iff_getElem.mp hf
  rw [List.length_drop] at hm
  rw [List.getElem_drop] at he
  have hlater : idAt? items (i + 1 + m) = idAt? items i := by
    simp [idAt?, hi, List.getElem?_eq_getElem (show i + 1 + m < items.length by omega), he]
  obtain ⟨k, hk⟩ := exists_isNext (by omega) (by omega) hlater
  exact h k hk

/-- The collision of the next item with an id names the file of the item that it replaces. -/
theorem IsNext.collisionAt? {items : List Found} {i j : Nat} {found later : Found}
    (h : IsNext items i j) (hi : items[i]? = some found) (hj : items[j]? = some later)
    (kind : Item.Kind) :
    collisionAt? kind items j = some ⟨kind, found.item.id, found.file, later.file⟩ := by
  obtain ⟨hij, hlt, e, hne⟩ := h
  have hid : later.item.id = found.item.id := by simpa [idAt?, hi, hj] using e
  obtain ⟨hlti, hget⟩ := List.getElem?_eq_some_iff.mp hi
  have hlen : i < (items.take j).length := by rw [List.length_take]; omega
  have hsplit : items.take j = items.take i ++ found :: (items.take j).drop (i + 1) := by
    have hgi : (items.take j)[i] = found := by rw [List.getElem_take, hget]
    rw [← hgi, List.getElem_cons_drop, show items.take i = (items.take j).take i by
      rw [List.take_take, Nat.min_eq_left (Nat.le_of_lt hij)], List.take_append_drop]
  have hlatest : latest? (items.take j) found.item.id = some found := by
    rw [hsplit]
    apply latest?_of_forall_ne
    intro f hf he
    obtain ⟨m, hm, rfl⟩ := List.mem_iff_getElem.mp hf
    rw [List.length_drop, List.length_take] at hm
    rw [List.getElem_drop, List.getElem_take] at he
    refine hne (i + 1 + m) (by omega) (by omega) ?_
    simp [idAt?, hi, List.getElem?_eq_getElem (show i + 1 + m < items.length by omega), he]
  unfold Project.collisionAt?
  rw [hj]
  simp only [hid, hlatest, Option.map_some]

/-- Nothing is recorded of items with different ids. -/
theorem filterMap_collisionAt?_eq_nil_iff (kind : Item.Kind) (items : List Found) :
    (List.range items.length).filterMap (collisionAt? kind items) = [] ↔
      (items.map (·.item.id)).Nodup := by
  induction items using List.reverseRecOn with
  | nil => simp
  | append_singleton items found ih =>
      rw [filterMap_collisionAt?_concat, List.append_eq_nil_iff, ih, List.map_append,
        List.map_singleton, List.nodup_append_comm, List.singleton_append, List.nodup_cons,
        Option.toList_eq_nil_iff, Option.map_eq_none_iff, latest?_eq_none_iff, and_comm]

/-! ### Whole lists -/

/-- Items of a kind, and the map and the collisions that they leave behind: the map has their ids
in the order of their first occurrences and under each id the last item with it; each item but the
first with its id is recorded as a collision with the one before it. -/
structure Accounted (kind : Item.Kind) (items : List Found) (map : Keyed Descriptor)
    (collisions : List Collision) : Prop where
  keys : Keyed.keys map = (items.map (·.item.id)).eraseDups
  values : ∀ id, Keyed.get? map id = (latest? items id).map (·.item)
  recorded : collisions = (List.range items.length).filterMap (collisionAt? kind items)
  count : map.length + collisions.length = items.length
  kept_or_replaced : ∀ i found, items[i]? = some found →
    ((∀ j, ¬ IsNext items i j) ∧ Keyed.get? map found.item.id = some found.item) ∨
      ∃! j, IsNext items i j ∧ ∃ later, items[j]? = some later ∧
        collisionAt? kind items j = some ⟨kind, found.item.id, found.file, later.file⟩
  none_iff : collisions = [] ↔ (items.map (·.item.id)).Nodup

theorem Ledger.Holds.get?_items {kind : Item.Kind} {items : List Found} {ledger : Ledger}
    (h : ledger.Holds kind items) (id : Text) :
    Keyed.get? ledger.items id = (latest? items id).map (·.item) := by
  rw [← h.entries]
  exact Keyed.get?_mapValues _ _ _

theorem Ledger.Holds.accounted {kind : Item.Kind} {items : List Found} {ledger : Ledger}
    (h : ledger.Holds kind items) : Accounted kind items ledger.items ledger.collisions where
  keys := by rw [← h.keys]; exact Keyed.keys_mapValues _ _
  values := h.get?_items
  recorded := h.collisions
  count := by rw [← h.count]; simp [Ledger.items]
  kept_or_replaced := by
    intro i found hi
    by_cases hex : ∃ j, IsNext items i j
    · right
      obtain ⟨j, hj⟩ := hex
      have hlt : j < items.length := hj.2.1
      have hget : items[j]? = some items[j] := List.getElem?_eq_getElem hlt
      refine ⟨j, ⟨hj, items[j], hget, hj.collisionAt? hi hget kind⟩, ?_⟩
      rintro k ⟨hk, -⟩
      exact hk.unique hj
    · left
      have hnone : ∀ j, ¬ IsNext items i j := fun j hj => hex ⟨j, hj⟩
      refine ⟨hnone, ?_⟩
      rw [h.get?_items, latest?_of_forall_not_isNext hi hnone]
      rfl
  none_iff := by rw [h.collisions]; exact filterMap_collisionAt?_eq_nil_iff kind items

theorem kind_of_mem_collisions {kind : Item.Kind} {items : List Found} {map : Keyed Descriptor}
    {collisions : List Collision} (h : Accounted kind items map collisions) :
    ∀ c ∈ collisions, c.kind = kind := by
  intro c hc
  rw [h.recorded, List.mem_filterMap] at hc
  obtain ⟨i, -, hi⟩ := hc
  unfold collisionAt? at hi
  cases hget : items[i]? with
  | none => rw [hget] at hi; cases hi
  | some found =>
      rw [hget] at hi
      obtain ⟨previous, -, rfl⟩ := Option.map_eq_some_iff.mp hi
      rfl

/-- **Listing items loses none.**  The ledger of any list of items accounts for all of them, and a
scan lists the widgets and the payment gateways of all files that way, the collisions of widgets
before those of payment gateways. -/
theorem listing_accounts_for_all :
    (∀ (kind : Item.Kind) (items : List Found),
      Accounted kind items (Ledger.ofItems kind items).items
        (Ledger.ofItems kind items).collisions) ∧
    ∀ (parse : Source.Parser) (fs : FileSystem) (root : Path) (options : Options),
      match itemsByFile parse fs root options with
      | .error e => (scan parse fs root options).result = .error e
      | .ok byFile => ∃ catalog ofWidgets ofGateways,
          (scan parse fs root options).result = .ok catalog ∧
          catalog.collisions = ofWidgets ++ ofGateways ∧
          (∀ c ∈ ofWidgets, c.kind = .widget) ∧ (∀ c ∈ ofGateways, c.kind = .paymentGateway) ∧
          Accounted .widget (widgetsIn byFile) catalog.widgets ofWidgets ∧
          Accounted .paymentGateway (gatewaysIn byFile) catalog.paymentGateways ofGateways := by
  have hledger := fun kind items => (Ledger.holds_ofItems kind items).accounted
  refine ⟨hledger, ?_⟩
  intro parse fs root options
  rw [scan_result]
  cases itemsByFile parse fs root options with
  | error e => rfl
  | ok byFile =>
      have hw := hledger .widget (widgetsIn byFile)
      have hg := hledger .paymentGateway (gatewaysIn byFile)
      exact ⟨_, _, _, rfl, rfl, kind_of_mem_collisions hw, kind_of_mem_collisions hg, hw, hg⟩

end PluginManifest.Project
