import PluginManifest.Text.Blank
import Mathlib.Data.List.Basic

/-! # Trimmed texts and words

A text is trimmed when no blank stands at its ends; trimming leaves it as it is (`trim_eq_self`),
and takes away a blank that is put before it (`trim_cons_blank`).  A word is cut off at the first
blank (`takeWhile_word`). -/

namespace PluginManifest.Text

/-- No blank stands at either end of the text. -/
def Trimmed (t : Text) : Prop :=
  (∀ c ∈ t.head?, c.isBlank = false) ∧ ∀ c ∈ t.getLast?, c.isBlank = false

/-- A word is not empty and holds no blank. -/
def IsWord (w : Text) : Prop := w ≠ [] ∧ ∀ c ∈ w, c.isBlank = false

/-- What follows a word: nothing, or a blank. -/
def BlankFirst (t : Text) : Prop := ∀ c ∈ t.head?, c.isBlank = true

instance (t : Text) : Decidable (Trimmed t) := inferInstanceAs (Decidable (_ ∧ _))

instance (w : Text) : Decidable (IsWord w) := inferInstanceAs (Decidable (_ ∧ _))

instance (t : Text) : Decidable (BlankFirst t) := inferInstanceAs (Decidable (∀ c ∈ t.head?, _))

theorem isBlank_space : (CodePoint.ofChar ' ').isBlank = true := by decide

/-! ### Trimming -/

theorem trimmed_nil : Trimmed [] := by simp [Trimmed]

theorem IsWord.trimmed {w : Text} (h : IsWord w) : Trimmed w :=
  ⟨fun c hc => h.2 c (List.mem_of_mem_head? hc), fun c hc => h.2 c (List.mem_of_getLast? hc)⟩

theorem trimmed_between {c d : CodePoint} (hc : c.isBlank = false) (hd : d.isBlank = false)
    (t : Text) : Trimmed (c :: (t ++ [d])) := by
  refine ⟨by simpa using hc, ?_⟩
  rw [List.getLast?_cons_of_ne_nil (by simp), List.getLast?_concat]
  simpa using hd

theorem dropWhile_blank_eq_self {t : Text} (h : ∀ c ∈ t.head?, c.isBlank = false) :
    t.dropWhile CodePoint.isBlank = t := by
  cases t with
  | nil => rfl
  | cons c t => rw [List.dropWhile_cons_of_neg (by simpa using h c rfl)]

theorem trimStart_eq_self {t : Text} (h : Trimmed t) : trimStart t = t :=
  dropWhile_blank_eq_self h.1

theorem trimEnd_eq_self {t : Text} (h : Trimmed t) : trimEnd t = t := by
  unfold trimEnd
  have hlast : ∀ c ∈ t.reverse.head?, c.isBlank = false := by
    rw [List.head?_reverse]
    exact h.2
  rw [dropWhile_blank_eq_self hlast, List.reverse_reverse]

theorem trim_eq_self {t : Text} (h : Trimmed t) : trim t = t := by
  unfold trim
  rw [trimStart_eq_self h, trimEnd_eq_self h]

theorem trimStart_cons_blank {c : CodePoint} (hc : c.isBlank = true) (t : Text) :
    trimStart (c :: t) = trimStart t := List.dropWhile_cons_of_pos hc

theorem trim_cons_blank {c : CodePoint} (hc : c.isBlank = true) (t : Text) :
    trim (c :: t) = trim t := by
  unfold trim
  rw [trimStart_cons_blank hc]

/-- Blanks are trimmed off behind the last character that is none. -/
theorem trimEnd_append_cons {c : CodePoint} (hc : c.isBlank = false) (t more : Text) :
    trimEnd (t ++ c :: more) = t ++ c :: trimEnd more := by
  unfold trimEnd
  have hrev : (t ++ c :: more).reverse = more.reverse ++ c :: t.reverse := by simp
  have hdrop : ∀ u : Text, (u ++ c :: t.reverse).dropWhile CodePoint.isBlank =
      u.dropWhile CodePoint.isBlank ++ c :: t.reverse := by
    intro u
    induction u with
    | nil => exact List.dropWhile_cons_of_neg (by simp [hc])
    | cons d u ih =>
        rw [List.cons_append, List.dropWhile_cons, List.dropWhile_cons]
        cases d.isBlank with
        | true => exact ih
        | false => rfl
  rw [hrev, hdrop]
  simp

/-! ### Words -/

theorem takeWhile_word {w more : Text} (hw : ∀ c ∈ w, c.isBlank = false) (hmore : BlankFirst more) :
    (w ++ more).takeWhile (!·.isBlank) = w := by
  have hstop : more.takeWhile (!·.isBlank) = [] := by
    cases more with
    | nil => rfl
    | cons c more => exact List.takeWhile_cons_of_neg (by simp [hmore c rfl])
  rw [List.takeWhile_append_of_pos (by simpa using hw), hstop, List.append_nil]

theorem dropWhile_word {w more : Text} (hw : ∀ c ∈ w, c.isBlank = false) (hmore : BlankFirst more) :
    (w ++ more).dropWhile (!·.isBlank) = more := by
  rw [List.dropWhile_append_of_pos (by simpa using hw)]
  cases more with
  | nil => rfl
  | cons c more => exact List.dropWhile_cons_of_neg (by simp [hmore c rfl])

/-! ### Parts with a space between them -/

/-- A text behind a space; nothing where there is no text. -/
def spaced (t : Text) : Text := if t = [] then [] else ' ' :: t

theorem spaced_nil : spaced [] = [] := rfl

theorem spaced_of_ne_nil {t : Text} (h : t ≠ []) : spaced t = CodePoint.ofChar ' ' :: t := if_neg h

theorem blankFirst_spaced (t : Text) : BlankFirst (spaced t) := by
  unfold spaced
  split_ifs
  · simp [BlankFirst]
  · simpa [BlankFirst] using isBlank_space

theorem trim_spaced {t : Text} (h : Trimmed t) : trim (spaced t) = t := by
  by_cases hne : t = []
  · rw [hne]
    rfl
  · rw [spaced_of_ne_nil hne, trim_cons_blank isBlank_space, trim_eq_self h]

theorem trimStart_spaced {t : Text} (h : Trimmed t) : trimStart (spaced t) = t := by
  by_cases hne : t = []
  · rw [hne]
    rfl
  · rw [spaced_of_ne_nil hne, trimStart_cons_blank isBlank_space, trimStart_eq_self h]

theorem Trimmed.append_spaced {t u : Text} (ht : Trimmed t) (hne : t ≠ []) (hu : Trimmed u) :
    Trimmed (t ++ spaced u) := by
  refine ⟨?_, ?_⟩
  · rw [List.head?_append_of_ne_nil _ hne]
    exact ht.1
  · by_cases hu' : u = []
    · rw [hu', spaced_nil, List.append_nil]
      exact ht.2
    · rw [spaced_of_ne_nil hu', List.getLast?_append_cons, List.getLast?_cons_of_ne_nil hu']
      exact hu.2

end PluginManifest.Text
