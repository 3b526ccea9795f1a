import PluginManifest.Report
import Mathlib.Data.List.Forall2

/-! # Outcomes of reports

The outcome of a sequence of reports is the sequence of their outcomes: events never decide
anything.  A run over a list (`Report.forEach`) ends with the values of all items, or with the
failure of the first item that fails (`mapM_eq_ok_iff`, `mapM_eq_error_iff`). -/

namespace PluginManifest

/-! ### Outcomes in sequence -/

namespace Report

variable {ε ε' α β : Type}

@[simp] theorem result_pure (a : α) : (pure a : Report ε α).result = .ok a := rfl

@[simp] theorem result_emit (event : Event) : (emit event : Report ε Unit).result = .ok () := rfl

@[simp] theorem result_fail (e : ε) : (fail e : Report ε α).result = .error e := rfl

@[simp] theorem result_ofExcept (x : Except ε α) : (ofExcept x).result = x := rfl

@[simp] theorem result_mapError (f : ε → ε') (r : Report ε α) :
    (r.mapError f).result = r.result.mapError f := rfl

@[simp] theorem result_bind (r : Report ε α) (f : α → Report ε β) :
    (r >>= f).result = r.result >>= fun a => (f a).result := by
  show (r.andThen f).result = _
  unfold andThen
  cases r.result with
  | ok a => rfl
  | error e => rfl

@[simp] theorem result_forEach (f : α → Report ε β) (items : List α) :
    (forEach f items).result = items.mapM fun a => (f a).result := by
  induction items with
  | nil => rfl
  | cons a rest ih =>
      rw [List.mapM_cons, ← ih]
      simp only [forEach, result_bind]
      rfl

/-! ### Warnings in sequence -/

@[simp] theorem warnings_pure (a : α) : (pure a : Report ε α).warnings = [] := rfl

@[simp] theorem warnings_ofExcept (x : Except ε α) : (ofExcept x).warnings = [] := rfl

theorem warnings_bind_ok {r : Report ε α} {a : α} (h : r.result = .ok a) (f : α → Report ε β) :
    (r >>= f).warnings = r.warnings ++ (f a).warnings := by
  show (r.andThen f).warnings = _
  unfold andThen warnings
  rw [h, List.filter_append, List.map_append]

theorem warnings_bind_error {r : Report ε α} {e : ε} (h : r.result = .error e) (f : α → Report ε β) :
    (r >>= f).warnings = r.warnings := by
  show (r.andThen f).warnings = _
  unfold andThen warnings
  rw [h]

/-- The items before the first failure warn one after the other. -/
theorem warnings_forEach_append {f : α → Report ε β} {before : List α}
    (h : ∀ a ∈ before, ∃ b, (f a).result = .ok b) (after : List α) :
    (forEach f (before ++ after)).warnings =
      before.flatMap (fun a => (f a).warnings) ++ (forEach f after).warnings := by
  induction before with
  | nil => rfl
  | cons a before ih =>
      obtain ⟨⟨b, hb⟩, hbefore⟩ := List.forall_mem_cons.mp h
      rw [List.cons_append, forEach, warnings_bind_ok hb, List.flatMap_cons, List.append_assoc,
        ← ih hbefore]
      cases hrest : (forEach f (before ++ after)).result with
      | ok bs => rw [warnings_bind_ok hrest, warnings_pure, List.append_nil]
      | error e => rw [warnings_bind_error hrest]

theorem warnings_forEach_cons_error {f : α → Report ε β} {a : α} {e : ε} (h : (f a).result = .error e)
    (after : List α) : (forEach f (a :: after)).warnings = (f a).warnings := by
  rw [forEach, warnings_bind_error h]

end Report

/-! ### The first failure -/

section Except

variable {ε ε' α β γ : Type} {f : α → Except ε β}

@[simp] theorem ok_bind (a : α) (f : α → Except ε β) : (Except.ok a >>= f) = f a := rfl

@[simp] theorem error_bind (e : ε) (f : α → Except ε β) : (Except.error e >>= f) = .error e := rfl

theorem bind_eq_ok_iff {x : Except ε α} {f : α → Except ε β} {b : β} :
    (x >>= f) = .ok b ↔ ∃ a, x = .ok a ∧ f a = .ok b := by
  cases x with
  | ok a => simp
  | error e => simp

theorem mapError_eq_ok_iff {x : Except ε α} {f : ε → ε'} {a : α} :
    x.mapError f = .ok a ↔ x = .ok a := by
  cases x with
  | ok b => simp [Except.mapError]
  | error e => simp [Except.mapError]

theorem mapError_eq_error_iff {x : Except ε α} {f : ε → ε'} {e' : ε'} :
    x.mapError f = .error e' ↔ ∃ e, x = .error e ∧ f e = e' := by
  cases x with
  | ok b => simp [Except.mapError]
  | error e => simp [Except.mapError]

theorem map_eq_ok_iff {x : Except ε α} {f : α → β} {b : β} :
    x.map f = .ok b ↔ ∃ a, x = .ok a ∧ f a = b := by
  cases x with
  | ok a => simp [Except.map]
  | error e => simp [Except.map]

theorem map_eq_error_iff {x : Except ε α} {f : α → β} {e : ε} :
    x.map f = .error e ↔ x = .error e := by
  cases x with
  | ok a => simp [Except.map]
  | error e' => simp [Except.map]

/-- A run over a list succeeds exactly when it succeeds on every item. -/
theorem mapM_eq_ok_iff {items : List α} {bs : List β} :
    items.mapM f = .ok bs ↔ List.Forall₂ (fun a b => f a = .ok b) items bs := by
  induction items generalizing bs with
  | nil =>
      rw [List.mapM_nil, List.forall₂_nil_left_iff]
      constructor
      · intro h; cases h; rfl
      · rintro rfl; rfl
  | cons a rest ih =>
      rw [List.mapM_cons, bind_eq_ok_iff, List.forall₂_cons_left_iff]
      constructor
      · rintro ⟨b, hb, h⟩
        obtain ⟨bs', hbs, h⟩ := bind_eq_ok_iff.mp h
        cases h
        exact ⟨b, bs', hb, ih.mp hbs, rfl⟩
      · rintro ⟨b, bs', hb, hbs, rfl⟩
        exact ⟨b, hb, bind_eq_ok_iff.mpr ⟨bs', ih.mpr hbs, rfl⟩⟩

theorem exists_mapM_eq_ok_iff {items : List α} :
    (∃ bs, items.mapM f = .ok bs) ↔ ∀ a ∈ items, ∃ b, f a = .ok b := by
  induction items with
  | nil => exact ⟨fun _ a ha => (List.not_mem_nil ha).elim, fun _ => ⟨[], rfl⟩⟩
  | cons a rest ih =>
      rw [List.forall_mem_cons, ← ih]
      constructor
      · rintro ⟨bs, h⟩
        obtain ⟨b, bs', hb, hbs, -⟩ := List.forall₂_cons_left_iff.mp (mapM_eq_ok_iff.mp h)
        exact ⟨⟨b, hb⟩, bs', mapM_eq_ok_iff.mpr hbs⟩
      · rintro ⟨⟨b, hb⟩, bs, hbs⟩
        exact ⟨b :: bs, mapM_eq_ok_iff.mpr (.cons hb (mapM_eq_ok_iff.mp hbs))⟩

theorem exists_of_mem_mapM {items : List α} {bs : List β} (h : items.mapM f = .ok bs) {b : β}
    (hb : b ∈ bs) : ∃ a ∈ items, f a = .ok b := by
  have hall := mapM_eq_ok_iff.mp h
  clear h
  induction hall with
  | nil => cases hb
  | cons hfirst _ ih =>
      rcases List.mem_cons.mp hb with rfl | hb
      · exact ⟨_, List.mem_cons_self, hfirst⟩
      · obtain ⟨a, ha, hf⟩ := ih hb
        exact ⟨a, List.mem_cons_of_mem _ ha, hf⟩

theorem mem_of_mapM {items : List α} {bs : List β} (h : items.mapM f = .ok bs) {a : α} {b : β}
    (ha : a ∈ items) (hb : f a = .ok b) : b ∈ bs := by
  have hall := mapM_eq_ok_iff.mp h
  clear h
  induction hall with
  | nil => cases ha
  | cons hfirst _ ih =>
      rcases List.mem_cons.mp ha with rfl | ha
      · rw [hfirst] at hb
        cases hb
        exact List.mem_cons_self
      · exact List.mem_cons_of_mem _ (ih ha)

theorem mapM_congr {items : List α} {g : α → Except ε β} (h : ∀ a ∈ items, f a = g a) :
    items.mapM f = items.mapM g := by
  induction items with
  | nil => rfl
  | cons a rest ih =>
      obtain ⟨ha, hrest⟩ := List.forall_mem_cons.mp h
      rw [List.mapM_cons, List.mapM_cons, ha, ih hrest]

/-- A run over a list fails with the failure of the first item that fails. -/
theorem mapM_eq_error_iff {items : List α} {e : ε} :
    items.mapM f = .error e ↔ ∃ before a after, items = before ++ a :: after ∧
      (∀ b ∈ before, ∃ c, f b = .ok c) ∧ f a = .error e := by
  induction items with
  | nil =>
      constructor
      · intro h; cases h
      · rintro ⟨before, a, after, h, -⟩
        exact absurd h (by simp)
  | cons a rest ih =>
      rw [List.mapM_cons]
      cases ha : f a with
      | error e' =>
          rw [error_bind]
          constructor
          · intro h
            cases h
            exact ⟨[], a, rest, rfl, by simp, ha⟩
          · rintro ⟨before, b, after, h, hbefore, hb⟩
            cases before with
            | nil =>
                obtain ⟨rfl, -⟩ := List.cons.inj h
                rw [Except.error.inj (ha.symm.trans hb)]
            | cons c before =>
                obtain ⟨rfl, -⟩ := List.cons.inj h
                obtain ⟨d, hd⟩ := hbefore a List.mem_cons_self
                rw [ha] at hd
                cases hd
      | ok b =>
          have hrest : (do let bs ← rest.mapM f; pure (b :: bs)) = .error e ↔
              rest.mapM f = .error e := by
            cases rest.mapM f with
            | ok bs =>
                constructor
                · intro h; cases h
                · intro h; cases h
            | error e' => exact Iff.rfl
          rw [ok_bind, hrest, ih]
          constructor
          · rintro ⟨before, c, after, rfl, hbefore, hc⟩
            exact ⟨a :: before, c, after, rfl, List.forall_mem_cons.mpr ⟨⟨b, ha⟩, hbefore⟩, hc⟩
          · rintro ⟨before, c, after, h, hbefore, hc⟩
            cases before with
            | nil =>
                obtain ⟨rfl, -⟩ := List.cons.inj h
                rw [ha] at hc
                cases hc
            | cons d before =>
                obtain ⟨-, rfl⟩ := List.cons.inj h
                exact ⟨before, c, after, rfl, (List.forall_mem_cons.mp hbefore).2, hc⟩

end Except

/-! ### Runs without failure -/

/-- What is given for each item of a list is given for the list. -/
theorem mapM_map_eq_some {α β γ : Type} {f : α → β} {g : β → Option γ} {k : α → γ} {items : List α}
    (h : ∀ a ∈ items, g (f a) = some (k a)) : (items.map f).mapM g = some (items.map k) := by
  induction items with
  | nil => rfl
  | cons a rest ih =>
      obtain ⟨ha, hrest⟩ := List.forall_mem_cons.mp h
      rw [List.map_cons, List.mapM_cons, ha, ih hrest]
      rfl

end PluginManifest
