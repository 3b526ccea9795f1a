import PluginManifest.Proofs.Discovery
import PluginManifest.Proofs.Ledger
import Mathlib.Data.List.Pairwise

/-! # Widgets of different files with one id

A listing keeps one widget of each id, so two files that use one id show only in the collisions.
`SharedId` says of the files themselves that two of them use one id, and `FirstRepeat` names the
first file that uses an id again.  The first collision of a listing is the one of that file
(`exists_collisions_cons_of_firstRepeat`), and without a repeated id there is none. -/

namespace PluginManifest.Project

open Item

variable {byFile before : List (Path × FileItems)} {path : Path} {items : FileItems} {id : Text}

/-- The ids of the widgets of some files, in the order of the files. -/
def widgetIds (byFile : List (Path × FileItems)) : List Text := (widgetsIn byFile).map (·.item.id)

/-- The widget of a file has the id of a widget of an earlier file. -/
def Repeats (before : List (Path × FileItems)) (items : FileItems) : Prop :=
  ∃ widget ∈ items.widget, ∃ earlier ∈ before, ∃ other ∈ earlier.2.widget, other.id = widget.id

/-- The first file whose widget repeats an id repeats this one. -/
def FirstRepeat (byFile : List (Path × FileItems)) (id : Text) : Prop :=
  ∃ before path items after, byFile = before ++ (path, items) :: after ∧
    Repeats before items ∧ (∃ widget ∈ items.widget, widget.id = id) ∧
    ∀ start p i rest, before = start ++ (p, i) :: rest → ¬ Repeats start i

/-- Two different files have widgets with one id. -/
def SharedId (byFile : List (Path × FileItems)) : Prop :=
  ∃ file ∈ byFile, ∃ other ∈ byFile, file.1 ≠ other.1 ∧
    ∃ widget ∈ file.2.widget, ∃ same ∈ other.2.widget, widget.id = same.id

/-! ### Ids of the widgets of files -/

theorem widgetsIn_append (before after : List (Path × FileItems)) :
    widgetsIn (before ++ after) = widgetsIn before ++ widgetsIn after := by
  simp [widgetsIn]

theorem widgetsIn_singleton (path : Path) (items : FileItems) :
    widgetsIn [(path, items)] = items.widget.toList.map (⟨path.toText, ·⟩) := by
  simp [widgetsIn, FileItems.found]

theorem widgetIds_append (before after : List (Path × FileItems)) :
    widgetIds (before ++ after) = widgetIds before ++ widgetIds after := by
  simp [widgetIds, widgetsIn_append]

theorem widgetIds_eq_flatMap (byFile : List (Path × FileItems)) :
    widgetIds byFile = byFile.flatMap fun file => file.2.widget.toList.map (·.id) := by
  simp [widgetIds, widgetsIn, FileItems.found, List.map_flatMap, Function.comp_def]

theorem mem_widgetIds :
    id ∈ widgetIds byFile ↔ ∃ file ∈ byFile, ∃ widget ∈ file.2.widget, widget.id = id := by
  rw [widgetIds_eq_flatMap]
  simp only [List.mem_flatMap, List.mem_map, Option.mem_toList, Option.mem_def]

theorem widgetsIn_eq_nil_iff : widgetsIn byFile = [] ↔ ∀ file ∈ byFile, file.2.widget = none := by
  simp [widgetsIn, FileItems.found, List.flatMap_eq_nil_iff]

/-! ### Repeated ids -/

theorem repeats_iff :
    Repeats before items ↔ ∃ widget ∈ items.widget, widget.id ∈ widgetIds before := by
  simp only [Repeats, mem_widgetIds]

theorem nodup_widgetIds_concat :
    (widgetIds (byFile ++ [(path, items)])).Nodup ↔
      (widgetIds byFile).Nodup ∧ ¬ Repeats byFile items := by
  rw [widgetIds_append, repeats_iff, widgetIds_eq_flatMap [(path, items)], List.flatMap_singleton]
  cases items.widget with
  | none => simp
  | some widget =>
      rw [Option.toList_some, List.map_singleton, List.nodup_append_comm, List.singleton_append,
        List.nodup_cons, and_comm]
      simp

/-- Ids are different exactly when no file repeats one. -/
theorem nodup_widgetIds_iff : (widgetIds byFile).Nodup ↔
    ∀ start p i rest, byFile = start ++ (p, i) :: rest → ¬ Repeats start i := by
  induction byFile using List.reverseRecOn with
  | nil => simp [widgetIds, widgetsIn]
  | append_singleton byFile last ih =>
      obtain ⟨path, items⟩ := last
      rw [nodup_widgetIds_concat, ih]
      constructor
      · rintro ⟨hinit, hlast⟩ start p i rest h
        rcases List.eq_nil_or_concat rest with rfl | ⟨more, x, rfl⟩
        · obtain ⟨rfl, hlasts⟩ := List.append_inj' h rfl
          obtain ⟨rfl, rfl⟩ := Prod.mk.inj (List.singleton_inj.mp hlasts)
          exact hlast
        · rw [List.concat_eq_append, ← List.cons_append, ← List.append_assoc] at h
          exact hinit start p i more (List.append_inj' h rfl).1
      · intro h
        refine ⟨?_, h byFile path items [] rfl⟩
        rintro start p i rest rfl
        exact h start p i (rest ++ [(path, items)]) (by simp)

/-- Where ids are not all different, there is a first file that repeats one. -/
theorem exists_firstRepeat (h : ¬ (widgetIds byFile).Nodup) : ∃ id, FirstRepeat byFile id := by
  induction byFile using List.reverseRecOn with
  | nil => exact absurd List.nodup_nil h
  | append_singleton byFile last ih =>
      obtain ⟨path, items⟩ := last
      -- A repeat among the earlier files comes first; else the last file is the first to repeat.
      by_cases hinit : (widgetIds byFile).Nodup
      · have hlast : Repeats byFile items := by
          by_contra hn
          exact h (nodup_widgetIds_concat.mpr ⟨hinit, hn⟩)
        obtain ⟨widget, hw, hused⟩ := hlast
        exact ⟨widget.id, byFile, path, items, [], rfl, ⟨widget, hw, hused⟩, ⟨widget, hw, rfl⟩,
          nodup_widgetIds_iff.mp hinit⟩
      · obtain ⟨id, before, p, i, after, rfl, hrep, hid, hfirst⟩ := ih hinit
        exact ⟨id, before, p, i, after ++ [(path, items)], by simp, hrep, hid, hfirst⟩

/-- With each file listed once, a shared id is an id that occurs twice. -/
theorem sharedId_iff (hfiles : (byFile.map Prod.fst).Nodup) :
    SharedId byFile ↔ ¬ (widgetIds byFile).Nodup := by
  constructor
  · rintro ⟨file, hfile, other, hother, hne, widget, hw, same, hs, hid⟩ hnodup
    rw [widgetIds_eq_flatMap, List.Nodup, List.pairwise_flatMap] at hnodup
    have hsymm : Std.Symm fun a b : Path × FileItems =>
        ∀ x ∈ a.2.widget.toList.map (·.id), ∀ y ∈ b.2.widget.toList.map (·.id), x ≠ y :=
      ⟨fun a b h x hx y hy e => h y hy x hx e.symm⟩
    have hdiffer := hnodup.2.forall hfile hother fun e => hne (congrArg Prod.fst e)
    exact hdiffer widget.id (List.mem_map_of_mem (Option.mem_toList.mpr hw))
      same.id (List.mem_map_of_mem (Option.mem_toList.mpr hs)) hid
  · intro h
    obtain ⟨-, before, path, items, after, rfl, hrep, -, -⟩ := exists_firstRepeat h
    obtain ⟨widget, hw, earlier, he, other, ho, hid⟩ := hrep
    refine ⟨earlier, List.mem_append_left _ he, (path, items), by simp, ?_, other, ho, widget, hw,
      hid⟩
    rw [List.map_append, List.nodup_append] at hfiles
    exact hfiles.2.2 earlier.1 (List.mem_map_of_mem he) path (by simp)

/-! ### The first collision -/

theorem Ledger.collisions_record_isPrefix (kind : Item.Kind) (ledger : Ledger) (found : Found) :
    ledger.collisions <+: (ledger.record kind found).collisions := by
  unfold Ledger.record
  cases Keyed.get? ledger.entries found.item.id with
  | none => exact List.prefix_refl _
  | some previous => exact List.prefix_append _ _

/-- Collisions stay in their places when more items are listed. -/
theorem Ledger.collisions_ofItems_isPrefix (kind : Item.Kind) (before after : List Found) :
    (Ledger.ofItems kind before).collisions <+:
      (Ledger.ofItems kind (before ++ after)).collisions := by
  induction after using List.reverseRecOn with
  | nil => simp
  | append_singleton after found ih =>
      have e : Ledger.ofItems kind (before ++ (after ++ [found])) =
          (Ledger.ofItems kind (before ++ after)).record kind found := by
        simp [Ledger.ofItems]
      rw [e]
      exact ih.trans (Ledger.collisions_record_isPrefix kind _ found)

/-- An item that repeats an id after items with different ids makes the first collision. -/
theorem Ledger.collisions_ofItems_concat (kind : Item.Kind) {before : List Found} (found : Found)
    (hbefore : (before.map (·.item.id)).Nodup) (hid : found.item.id ∈ before.map (·.item.id)) :
    ∃ previous, (Ledger.ofItems kind (before ++ [found])).collisions =
      [⟨kind, found.item.id, previous, found.file⟩] := by
  rw [(Ledger.holds_ofItems kind _).collisions, filterMap_collisionAt?_concat,
    (filterMap_collisionAt?_eq_nil_iff kind before).mpr hbefore, List.nil_append]
  cases h : latest? before found.item.id with
  | none => exact absurd hid (latest?_eq_none_iff.mp h)
  | some previous => exact ⟨previous.file, rfl⟩

/-- The first collision of widgets is the one of the first file that repeats an id. -/
theorem exists_collisions_cons_of_firstRepeat (h : FirstRepeat byFile id) :
    ∃ c rest, (Ledger.ofItems .widget (widgetsIn byFile)).collisions = c :: rest ∧
      c.kind = .widget ∧ c.id = id := by
  obtain ⟨before, path, items, after, rfl, hrep, ⟨widget, hw, rfl⟩, hfirst⟩ := h
  obtain ⟨widget', hw', hid⟩ := repeats_iff.mp hrep
  obtain rfl : widget' = widget := Option.some.inj (hw'.symm.trans hw)
  have hsplit : widgetsIn (before ++ (path, items) :: after) =
      widgetsIn before ++ [⟨path.toText, widget'⟩] ++ widgetsIn after := by
    rw [List.append_cons, widgetsIn_append, widgetsIn_append, widgetsIn_singleton,
      Option.mem_def.mp hw]
    rfl
  obtain ⟨previous, hhead⟩ := Ledger.collisions_ofItems_concat .widget ⟨path.toText, widget'⟩
    (nodup_widgetIds_iff.mpr hfirst) hid
  obtain ⟨rest, hrest⟩ := Ledger.collisions_ofItems_isPrefix .widget
    (widgetsIn before ++ [⟨path.toText, widget'⟩]) (widgetsIn after)
  rw [hhead] at hrest
  exact ⟨_, rest, by rw [hsplit, ← hrest]; rfl, rfl, rfl⟩

end PluginManifest.Project
