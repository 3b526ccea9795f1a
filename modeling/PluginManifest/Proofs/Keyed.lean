import PluginManifest.Keyed
import Mathlib.Data.List.Induction
import Mathlib.Data.List.Nodup
import Mathlib.Tactic.SplitIfs

/-! # Laws of values under keys

What `Keyed.put` does to the keys, to the number of entries and to every look-up.  Proofs about
maps that keep the order of their keys cite these laws and do not open `put`. -/

namespace PluginManifest.Keyed

variable {α β : Type}

@[simp] theorem keys_nil : keys ([] : Keyed α) = [] := rfl

@[simp] theorem get?_nil (key : Text) : get? ([] : Keyed α) key = none := rfl

theorem get?_cons (k key : Text) (v : α) (rest : Keyed α) :
    get? ((k, v) :: rest) key = if key = k then some v else get? rest key := by
  unfold get?
  by_cases h : key = k
  · subst h; simp
  · have hb : (key == k) = false := by simpa using h
    simp [List.lookup_cons, hb, h]

/-- A look-up fails exactly on the keys that are not there. -/
theorem get?_eq_none_iff {entries : Keyed α} {key : Text} :
    get? entries key = none ↔ key ∉ keys entries := by
  induction entries with
  | nil => simp
  | cons entry rest ih =>
      obtain ⟨k, v⟩ := entry
      rw [get?_cons]
      by_cases h : key = k
      · simp [h, keys]
      · rw [if_neg h, ih]
        simp [keys, h]

/-- The value under a key after a value was set. -/
theorem get?_put (key : Text) (value : α) (entries : Keyed α) (other : Text) :
    get? (put key value entries) other = if other = key then some value else get? entries other := by
  induction entries with
  | nil => simp [put, get?_cons]
  | cons entry rest ih =>
      obtain ⟨k, v⟩ := entry
      unfold put
      by_cases hk : k = key
      · rw [if_pos hk, get?_cons, get?_cons]
        subst hk
        by_cases ho : other = k
        · rw [if_pos ho, if_pos ho]
        · rw [if_neg ho, if_neg ho, if_neg ho]
      · rw [if_neg hk, get?_cons, get?_cons, ih]
        by_cases ho : other = k
        · rw [if_pos ho, if_pos ho, if_neg (fun h => hk (ho ▸ h))]
        · rw [if_neg ho, if_neg ho]

/-- What is found is there. -/
theorem mem_of_get? {entries : Keyed α} {key : Text} {value : α}
    (h : get? entries key = some value) : (key, value) ∈ entries := by
  induction entries with
  | nil => cases h
  | cons entry rest ih =>
      obtain ⟨k, v⟩ := entry
      rw [get?_cons] at h
      by_cases hk : key = k
      · rw [if_pos hk] at h
        cases h
        rw [hk]
        exact List.mem_cons_self
      · rw [if_neg hk] at h
        exact List.mem_cons_of_mem _ (ih h)

theorem mem_keys_of_get? {entries : Keyed α} {key : Text} {value : α}
    (h : get? entries key = some value) : key ∈ keys entries :=
  List.mem_map_of_mem (mem_of_get? h)

/-- Entries under different keys are told by their keys and by what is found under them. -/
theorem eq_of_get?_eq {entries others : Keyed α} (hkeys : keys entries = keys others)
    (hnodup : (keys entries).Nodup) (h : ∀ key, get? entries key = get? others key) :
    entries = others := by
  induction entries generalizing others with
  | nil =>
      rw [keys_nil, eq_comm, keys, List.map_eq_nil_iff] at hkeys
      exact hkeys.symm
  | cons entry rest ih =>
      cases others with
      | nil => cases hkeys
      | cons other more =>
          obtain ⟨k, v⟩ := entry
          obtain ⟨l, w⟩ := other
          obtain ⟨rfl, hrest⟩ : k = l ∧ keys rest = keys more := List.cons.inj hkeys
          obtain ⟨hnew, hnodup⟩ := List.nodup_cons.mp hnodup
          have hv := h k
          rw [get?_cons, get?_cons, if_pos rfl, if_pos rfl] at hv
          have htail : rest = more := by
            refine ih hrest hnodup fun key => ?_
            have hkey := h key
            rw [get?_cons, get?_cons] at hkey
            by_cases hk : key = k
            · have hmore : key ∉ keys more := by rwa [hk, ← hrest]
              rw [get?_eq_none_iff.mpr (hk ▸ hnew), get?_eq_none_iff.mpr hmore]
            · rwa [if_neg hk, if_neg hk] at hkey
          rw [Option.some.inj hv, htail]

/-- Of the values under one key the last one is found. -/
theorem get?_ofPairs (pairs : List (Text × α)) (key : Text) :
    get? (ofPairs pairs) key = ((pairs.filter (·.1 = key)).map Prod.snd).getLast? := by
  induction pairs using List.reverseRecOn with
  | nil => rfl
  | append_singleton pairs pair ih =>
      obtain ⟨k, v⟩ := pair
      rw [ofPairs, List.foldl_append, List.foldl_cons, List.foldl_nil, get?_put, List.filter_append]
      by_cases hk : key = k
      · rw [if_pos hk, List.filter_cons_of_pos (by simp [hk])]
        simp
      · rw [if_neg hk, List.filter_cons_of_neg (by simpa using Ne.symm hk), List.filter_nil,
          List.append_nil]
        exact ih

/-- What is found among pairs is one of them. -/
theorem mem_of_get?_ofPairs {pairs : List (Text × α)} {key : Text} {value : α}
    (h : get? (ofPairs pairs) key = some value) : (key, value) ∈ pairs := by
  rw [get?_ofPairs] at h
  obtain ⟨pair, hpair, rfl⟩ := List.mem_map.mp (List.mem_of_getLast? h)
  obtain ⟨hmem, hkey⟩ := List.mem_filter.mp hpair
  rwa [← of_decide_eq_true hkey]

/-- An old key keeps its place, a new one comes last. -/
theorem keys_put (key : Text) (value : α) (entries : Keyed α) :
    keys (put key value entries) =
      if key ∈ keys entries then keys entries else keys entries ++ [key] := by
  induction entries with
  | nil => simp [put, keys]
  | cons entry rest ih =>
      obtain ⟨k, v⟩ := entry
      unfold put
      by_cases hk : k = key
      · simp [hk, keys]
      · rw [if_neg hk]
        simp only [keys, List.map_cons] at ih ⊢
        rw [ih]
        have hne : ¬ key = k := fun h => hk h.symm
        by_cases hm : key ∈ rest.map Prod.fst
        · simp [hm]
        · simp [hm, hne]

/-- What is there after a value was set is that value or was there before. -/
theorem mem_put {key : Text} {value : α} {entries : Keyed α} {entry : Text × α}
    (h : entry ∈ put key value entries) : entry = (key, value) ∨ entry ∈ entries := by
  induction entries with
  | nil => exact .inl (List.mem_singleton.mp h)
  | cons first rest ih =>
      obtain ⟨k, v⟩ := first
      unfold put at h
      by_cases hk : k = key
      · rw [if_pos hk, hk] at h
        rcases List.mem_cons.mp h with rfl | h
        · exact .inl rfl
        · exact .inr (List.mem_cons_of_mem _ h)
      · rw [if_neg hk] at h
        rcases List.mem_cons.mp h with rfl | h
        · exact .inr List.mem_cons_self
        · exact (ih h).imp id (List.mem_cons_of_mem _)

/-- Setting a value makes no key occur twice. -/
theorem nodup_keys_put {entries : Keyed α} (h : (keys entries).Nodup) (key : Text) (value : α) :
    (keys (put key value entries)).Nodup := by
  rw [keys_put]
  split_ifs with hk
  · exact h
  · rw [List.nodup_append_comm, List.singleton_append, List.nodup_cons]
    exact ⟨hk, h⟩

/-- Among pairs no key is kept twice, and nothing is kept but the pairs. -/
theorem nodup_keys_ofPairs (pairs : List (Text × α)) :
    (keys (ofPairs pairs)).Nodup ∧ ∀ entry ∈ ofPairs pairs, entry ∈ pairs := by
  induction pairs using List.reverseRecOn with
  | nil => exact ⟨List.nodup_nil, fun _ h => h⟩
  | append_singleton pairs pair ih =>
      obtain ⟨hnodup, hmem⟩ := ih
      rw [ofPairs, List.foldl_append, List.foldl_cons, List.foldl_nil]
      refine ⟨nodup_keys_put hnodup _ _, ?_⟩
      intro entry hentry
      rcases mem_put hentry with rfl | hold
      · simp
      · exact List.mem_append_left _ (hmem entry hold)

/-- A value under a new key comes last. -/
theorem put_of_not_mem {key : Text} {entries : Keyed α} (h : key ∉ keys entries) (value : α) :
    put key value entries = entries ++ [(key, value)] := by
  induction entries with
  | nil => rfl
  | cons entry rest ih =>
      obtain ⟨k, v⟩ := entry
      rw [keys, List.map_cons, List.mem_cons, not_or] at h
      rw [put, if_neg (Ne.symm h.1), ih h.2]
      rfl

/-- Pairs under different keys stay as they are. -/
theorem ofPairs_eq_self {pairs : List (Text × α)} (h : (keys pairs).Nodup) :
    ofPairs pairs = pairs := by
  induction pairs using List.reverseRecOn with
  | nil => rfl
  | append_singleton pairs pair ih =>
      obtain ⟨key, value⟩ := pair
      rw [keys, List.map_append, List.nodup_append_comm] at h
      obtain ⟨hnew, hrest⟩ := List.nodup_cons.mp h
      have hpairs := ih hrest
      rw [ofPairs] at hpairs
      rw [ofPairs, List.foldl_append, hpairs]
      exact put_of_not_mem hnew value

theorem length_keys (entries : Keyed α) : (keys entries).length = entries.length := by
  simp [keys]

/-- A look-up in entries whose values were changed one by one. -/
theorem get?_mapValues (f : α → β) (entries : Keyed α) (key : Text) :
    get? (entries.map fun (k, v) => (k, f v)) key = (get? entries key).map f := by
  induction entries with
  | nil => rfl
  | cons entry rest ih =>
      obtain ⟨k, v⟩ := entry
      rw [List.map_cons, get?_cons, get?_cons, ih]
      by_cases h : key = k
      · rw [if_pos h, if_pos h]; rfl
      · rw [if_neg h, if_neg h]

theorem keys_mapValues (f : α → β) (entries : Keyed α) :
    keys (entries.map fun (k, v) => (k, f v)) = keys entries := by
  simp [keys]

theorem put_mapValues (f : α → β) (key : Text) (value : α) (entries : Keyed α) :
    (put key value entries).map (fun (k, v) => (k, f v)) =
      put key (f value) (entries.map fun (k, v) => (k, f v)) := by
  induction entries with
  | nil => rfl
  | cons entry rest ih =>
      obtain ⟨k, v⟩ := entry
      rw [put, List.map_cons, put]
      by_cases h : k = key
      · rw [if_pos h, if_pos h]; rfl
      · rw [if_neg h, if_neg h, List.map_cons, ih]

end PluginManifest.Keyed
