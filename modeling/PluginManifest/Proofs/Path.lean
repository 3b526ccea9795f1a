import PluginManifest.Path.Basic
import Mathlib.Data.List.Basic

/-! # Paths and their texts

A path whose components are names (`Path.Normal`) is read back from its text (`ofText_toText`), and
every path that was read is of this kind (`normal_ofText`).  So the text of a path is its own
normal form, and different paths have different texts. -/

namespace PluginManifest

namespace Text

theorem splitOn_cons (sep c : CodePoint) (rest : Text) :
    splitOn sep (c :: rest) = if c = sep then [] :: splitOn sep rest else
      match splitOn sep rest with
      | [] => [[c]]
      | part :: parts => (c :: part) :: parts := rfl

theorem splitOn_eq (sep : CodePoint) (t : Text) : Text.splitOn sep t = List.splitOn sep t := by
  induction t with
  | nil => rfl
  | cons c rest ih =>
      rw [List.splitOn_cons_eq_if_modifyHead, splitOn_cons, ih]
      by_cases h : c = sep
      · simp [h]
      · simp only [h, if_false, beq_iff_eq]
        cases hs : List.splitOn sep rest with
        | nil => exact absurd hs (List.splitOn_ne_nil sep rest)
        | cons part parts => rfl

theorem join_eq (sep : Text) (parts : List Text) : join sep parts = sep.intercalate parts := by
  induction parts with
  | nil => rfl
  | cons t parts ih =>
      cases parts with
      | nil => simp [join]
      | cons u rest => simp [join, ih]

theorem not_mem_of_mem_splitOn {sep : CodePoint} {t part : Text} (h : part ∈ splitOn sep t) :
    sep ∉ part := by
  induction t generalizing part with
  | nil =>
      simp only [splitOn, List.mem_singleton] at h
      simp [h]
  | cons c rest ih =>
      rw [splitOn_cons] at h
      by_cases hc : c = sep
      · rw [if_pos hc] at h
        rcases List.mem_cons.mp h with rfl | h
        · simp
        · exact ih h
      · rw [if_neg hc] at h
        cases hs : splitOn sep rest with
        | nil =>
            rw [hs, List.mem_singleton] at h
            simpa [h] using Ne.symm hc
        | cons first more =>
            rw [hs] at h ih
            rcases List.mem_cons.mp h with rfl | h
            · have := ih List.mem_cons_self
              simp [this, Ne.symm hc]
            · exact ih (List.mem_cons_of_mem _ h)

end Text

namespace Path

/-- A name of a file or directory: it says something and holds no slash. -/
def IsName (part : Text) : Prop := counts part = true ∧ CodePoint.ofChar '/' ∉ part

/-- All components of the path are names. -/
def Normal (p : Path) : Prop := ∀ part ∈ p.parts, IsName part

theorem IsName.ne_nil {part : Text} (h : IsName part) : part ≠ [] := by
  rintro rfl
  exact absurd h.1 (by decide)

theorem normal_ofText (t : Text) : (ofText t).Normal := by
  intro part hp
  obtain ⟨hs, hc⟩ := List.mem_filter.mp hp
  exact ⟨hc, Text.not_mem_of_mem_splitOn hs⟩

theorem Normal.append {p : Path} {parts : List Text} (h : p.Normal)
    (hparts : ∀ part ∈ parts, IsName part) : (p.append parts).Normal := by
  intro part hp
  rcases List.mem_append.mp hp with hp | hp
  · exact h part hp
  · exact hparts part hp

/-! ### Reading a text back -/

/-- Names joined by slashes do not start with a slash. -/
theorem takeWhile_join {parts : List Text} (h : ∀ part ∈ parts, IsName part) :
    (Text.join "/" parts).takeWhile (fun c : CodePoint => c = '/') = [] := by
  cases parts with
  | nil => rfl
  | cons part rest =>
      have hpart := h part List.mem_cons_self
      cases hp : part with
      | nil => exact absurd hp hpart.ne_nil
      | cons c more =>
          have hc : ¬ c = '/' := by
            intro hc
            exact hpart.2 (by rw [hp, hc]; exact List.mem_cons_self)
          cases rest with
          | nil => simp [Text.join, hc]
          | cons next rest => simp [Text.join, hc]

theorem slash_eq : Text.ofString "/" = [CodePoint.ofChar '/'] := rfl

theorem rootText_absolute : rootText .absolute = [CodePoint.ofChar '/'] := rfl

theorem rootText_double : rootText .double = [CodePoint.ofChar '/', CodePoint.ofChar '/'] := rfl

theorem rootOf_rootText (root : PathRoot) {t : Text}
    (h : t.takeWhile (fun c : CodePoint => c = '/') = []) : rootOf (rootText root ++ t) = root := by
  unfold rootOf
  cases root with
  | relative =>
      rw [rootText, List.nil_append, h]
      rfl
  | absolute =>
      rw [rootText_absolute, List.singleton_append, List.takeWhile_cons_of_pos (by decide), h]
      rfl
  | double =>
      rw [rootText_double, List.cons_append, List.takeWhile_cons_of_pos (by decide),
        List.singleton_append, List.takeWhile_cons_of_pos (by decide), h]
      rfl

/-- The components of joined names are the names. -/
theorem filter_splitOn_join {parts : List Text} (h : ∀ part ∈ parts, IsName part) :
    (Text.splitOn '/' (Text.join "/" parts)).filter counts = parts := by
  by_cases hne : parts = []
  · subst hne; decide
  · rw [Text.splitOn_eq, Text.join_eq, slash_eq,
      List.splitOn_intercalate _ (fun part hp => (h part hp).2) hne, List.filter_eq_self]
    exact fun part hp => (h part hp).1

/-- The root that is written before joined names adds only empty components. -/
theorem filter_splitOn_rootText (root : PathRoot) (t : Text) :
    (Text.splitOn '/' (rootText root ++ t)).filter counts =
      (Text.splitOn '/' t).filter counts := by
  cases root with
  | relative => rfl
  | absolute =>
      rw [rootText_absolute, List.singleton_append, Text.splitOn_cons, if_pos rfl,
        List.filter_cons_of_neg (by decide)]
  | double =>
      rw [rootText_double, List.cons_append, List.singleton_append, Text.splitOn_cons, if_pos rfl,
        Text.splitOn_cons, if_pos rfl, List.filter_cons_of_neg (by decide),
        List.filter_cons_of_neg (by decide)]

/-- A path of names is read back from its text. -/
theorem ofText_toText {p : Path} (h : p.Normal) : ofText p.toText = p := by
  obtain ⟨root, parts⟩ := p
  by_cases hdot : root = .relative ∧ parts = []
  · obtain ⟨rfl, rfl⟩ := hdot
    decide
  · have e : toText ⟨root, parts⟩ = rootText root ++ Text.join "/" parts := by
      unfold toText
      split
      · rename_i h1 h2
        exact absurd ⟨h1, h2⟩ hdot
      · rfl
    rw [e, ofText, rootOf_rootText root (takeWhile_join h), filter_splitOn_rootText,
      filter_splitOn_join h]

/-- The text of a path of names is in normal form. -/
theorem normalize_toText {p : Path} (h : p.Normal) : normalize p.toText = p.toText := by
  rw [normalize, ofText_toText h]

/-- Different paths of names have different texts. -/
theorem eq_of_toText_eq {p q : Path} (hp : p.Normal) (hq : q.Normal) (h : p.toText = q.toText) :
    p = q := by
  rw [← ofText_toText hp, h, ofText_toText hq]

end Path
end PluginManifest
