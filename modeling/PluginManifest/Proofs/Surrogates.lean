import PluginManifest.Json.Writer
import PluginManifest.Proofs.Utf8Encoding
import Mathlib.Tactic.SplitIfs

/-! # Surrogates in documents

A text can be encoded exactly when none of its code points is a surrogate (`encode?_eq_none_iff`).
The writer of documents adds ASCII only: a document holds a surrogate exactly when one of the texts
of its value does (`noSurrogate_write`). -/

namespace PluginManifest

/-! ### Texts -/

/-- None of the code points of the text is a surrogate. -/
def Text.NoSurrogate (t : Text) : Prop := ∀ c ∈ t, c.isSurrogate = false

instance (t : Text) : Decidable t.NoSurrogate := inferInstanceAs (Decidable (∀ c ∈ t, _))

namespace Text

@[simp] theorem noSurrogate_nil : NoSurrogate [] := by simp [NoSurrogate]

@[simp] theorem noSurrogate_cons {c : CodePoint} {t : Text} :
    NoSurrogate (c :: t) ↔ c.isSurrogate = false ∧ t.NoSurrogate := by simp [NoSurrogate]

@[simp] theorem noSurrogate_append {t u : Text} :
    NoSurrogate (t ++ u) ↔ t.NoSurrogate ∧ u.NoSurrogate := by
  simp only [NoSurrogate, List.mem_append, or_imp, forall_and]

theorem NoSurrogate.of_subset {t u : Text} (h : u.NoSurrogate) (hsub : t ⊆ u) : t.NoSurrogate :=
  fun c hc => h c (hsub hc)

@[simp] theorem isSurrogate_ofChar (c : Char) : (CodePoint.ofChar c).isSurrogate = false := by
  have hvalid := c.valid
  simp only [UInt32.isValidChar, Nat.isValidChar] at hvalid
  have hval : (CodePoint.ofChar c).val = c.val.toNat := rfl
  rw [CodePoint.isSurrogate, hval, Bool.and_eq_false_iff, decide_eq_false_iff_not,
    decide_eq_false_iff_not]
  omega

theorem noSurrogate_ite {p : Prop} [Decidable p] {t u : Text} (ht : t.NoSurrogate)
    (hu : u.NoSurrogate) : NoSurrogate (if p then t else u) := by
  split_ifs
  · exact ht
  · exact hu

/-- A string is a text without surrogates. -/
@[simp] theorem noSurrogate_ofString (s : String) : NoSurrogate s := by
  intro c hc
  obtain ⟨x, -, rfl⟩ := List.mem_map.mp hc
  exact isSurrogate_ofChar x

@[simp] theorem noSurrogate_replicate (n : Nat) (c : Char) :
    NoSurrogate (List.replicate n (CodePoint.ofChar c)) := by
  intro x hx
  rw [List.eq_of_mem_replicate hx]
  exact isSurrogate_ofChar c

@[simp] theorem noSurrogate_ofNat (n : Nat) : NoSurrogate (ofNat n) := noSurrogate_ofString _

@[simp] theorem noSurrogate_ofInt (n : Int) : NoSurrogate (ofInt n) := by
  cases n with
  | ofNat n => exact noSurrogate_ofNat n
  | negSucc n => simp [ofInt]

end Text

/-! ### Encoding -/

namespace Utf8

/-- A text can be encoded unless it holds a surrogate. -/
theorem encode?_eq_none_iff (t : Text) : encode? t = none ↔ ¬ t.NoSurrogate := by
  have hmap : t.mapM encodePoint? = none ↔ ¬ t.NoSurrogate := by
    induction t with
    | nil => simp
    | cons c t ih =>
        rw [List.mapM_cons, Text.noSurrogate_cons]
        cases hc : encodePoint? c with
        | none => simp [(encodePoint?_eq_none_iff c).mp hc]
        | some bytes =>
            have hplain : c.isSurrogate = false := by
              rw [← Bool.not_eq_true, ← encodePoint?_eq_none_iff, hc]
              simp
            cases ht : t.mapM encodePoint? with
            | none => simpa [hplain] using ih.mp ht
            | some rest => simpa [hplain, ht] using ih
  rw [encode?, Option.map_eq_none_iff, hmap]

end Utf8

/-! ### Documents -/

namespace Value

mutual

/-- The texts in a value as JSON writes it, the keys of its maps included. -/
def texts : Value → List Text
  | .text t => [t]
  | .list items => itemTexts items
  | .map fields => fieldTexts fields
  | .table rows => rowTexts rows
  | _ => []

/-- The texts in the items of a list. -/
def itemTexts : List Value → List Text
  | [] => []
  | v :: rest => v.texts ++ itemTexts rest

/-- The texts in the fields of a map. -/
def fieldTexts : List (Text × Value) → List Text
  | [] => []
  | (k, v) :: rest => k :: (v.texts ++ fieldTexts rest)

/-- The texts in the rows of a table. -/
def rowTexts : List (Value × Value) → List Text
  | [] => []
  | (k, v) :: rest => Json.keyText k :: (v.texts ++ rowTexts rest)

end

end Value

namespace Json

open Text

theorem noSurrogate_formatDecimal (digits : Nat) (exponent : Int) :
    (Binary64.formatDecimal digits exponent).NoSurrogate := by
  have htake : ∀ n, NoSurrogate ((ofNat digits).take n) := fun n =>
    (noSurrogate_ofNat digits).of_subset (List.take_subset _ _)
  have hdrop : ∀ n, NoSurrogate ((ofNat digits).drop n) := fun n =>
    (noSurrogate_ofNat digits).of_subset (List.drop_subset _ _)
  unfold Binary64.formatDecimal Binary64.zeros
  dsimp only
  refine noSurrogate_ite ?_ (noSurrogate_ite ?_ (noSurrogate_ite ?_ ?_))
  · simp only [noSurrogate_append, htake, noSurrogate_replicate, noSurrogate_ofNat,
      noSurrogate_ofString, and_true, true_and]
    split
    · exact noSurrogate_nil
    · exact noSurrogate_append.mpr ⟨noSurrogate_ofString _, hdrop 1⟩
  · simp
  · simp
  · simp [htake, hdrop]

theorem noSurrogate_format (x : Binary64) : x.format.NoSurrogate := by
  cases x with
  | nan => exact noSurrogate_ofString _
  | infinite negative => exact noSurrogate_ite (noSurrogate_ofString _) (noSurrogate_ofString _)
  | finite negative m e =>
      exact noSurrogate_append.mpr ⟨noSurrogate_ite (noSurrogate_ofString _) noSurrogate_nil,
        noSurrogate_ite (noSurrogate_ofString _) (noSurrogate_formatDecimal _ _)⟩

theorem noSurrogate_writeFloat (x : Binary64) : (writeFloat x).NoSurrogate := by
  cases x with
  | nan => exact noSurrogate_ofString _
  | infinite negative => exact noSurrogate_ite (noSurrogate_ofString _) (noSurrogate_ofString _)
  | finite negative m e => exact noSurrogate_format (.finite negative m e)

/-- Only ASCII characters are escaped, and by ASCII characters. -/
@[simp] theorem noSurrogate_writeCharacter (c : CodePoint) :
    (writeCharacter c).NoSurrogate ↔ c.isSurrogate = false := by
  unfold writeCharacter
  split_ifs with h1 h2 h3 h4 h5 h6 h7 h8
  · simp [h1]
  · simp [h2]
  · simp [h3]
  · simp [h4]
  · simp [h5]
  · simp [h6]
  · simp [h7]
  · have hplain : c.isSurrogate = false := by
      rw [CodePoint.isSurrogate, Bool.and_eq_false_iff, decide_eq_false_iff_not]
      omega
    simp [hplain, hexDigit]
  · simp

@[simp] theorem noSurrogate_writeString (t : Text) : (writeString t).NoSurrogate ↔ t.NoSurrogate := by
  have hall : NoSurrogate (t.flatMap writeCharacter) ↔ t.NoSurrogate := by
    induction t with
    | nil => simp
    | cons c t ih => simp [ih]
  simp [writeString, hall]

@[simp] theorem noSurrogate_newline (level : Nat) : (newline level).NoSurrogate := by
  simp [newline]

mutual

theorem noSurrogate_writeAt (level : Nat) : ∀ v : Value,
    (writeAt level v).NoSurrogate ↔ ∀ t ∈ v.texts, t.NoSurrogate
  | .null => by simp [writeAt, Value.texts]
  | .bool b => by
      cases b with
      | false => simp [writeAt, Value.texts]
      | true => simp [writeAt, Value.texts]
  | .int n => by simp [writeAt, Value.texts]
  | .float x => by simp [writeAt, Value.texts, noSurrogate_writeFloat]
  | .text t => by simp [writeAt, Value.texts]
  | .list [] => by simp [writeAt, Value.texts, Value.itemTexts]
  | .list (v :: rest) => by
      simp [writeAt, Value.texts, Value.itemTexts, noSurrogate_writeAt (level + 1) v,
        noSurrogate_writeItems (level + 1) rest, or_imp, forall_and]
  | .map [] => by simp [writeAt, Value.texts, Value.fieldTexts]
  | .map ((k, v) :: rest) => by
      simp [writeAt, Value.texts, Value.fieldTexts, noSurrogate_writeAt (level + 1) v,
        noSurrogate_writeFields (level + 1) rest, or_imp, forall_and]
  | .timestamp t => by simp [writeAt, Value.texts]
  | .binary bytes => by simp [writeAt, Value.texts]
  | .set items => by simp [writeAt, Value.texts]
  | .table [] => by simp [writeAt, Value.texts, Value.rowTexts]
  | .table ((k, v) :: rest) => by
      simp [writeAt, Value.texts, Value.rowTexts, noSurrogate_writeAt (level + 1) v,
        noSurrogate_writeRows (level + 1) rest, or_imp, forall_and]

theorem noSurrogate_writeItems (level : Nat) : ∀ items : List Value,
    (writeItems level items).NoSurrogate ↔ ∀ t ∈ Value.itemTexts items, t.NoSurrogate
  | [] => by simp [writeItems, Value.itemTexts]
  | v :: rest => by
      simp [writeItems, Value.itemTexts, noSurrogate_writeAt level v,
        noSurrogate_writeItems level rest, or_imp, forall_and]

theorem noSurrogate_writeFields (level : Nat) : ∀ fields : List (Text × Value),
    (writeFields level fields).NoSurrogate ↔ ∀ t ∈ Value.fieldTexts fields, t.NoSurrogate
  | [] => by simp [writeFields, Value.fieldTexts]
  | (k, v) :: rest => by
      simp [writeFields, Value.fieldTexts, noSurrogate_writeAt level v,
        noSurrogate_writeFields level rest, or_imp, forall_and]

theorem noSurrogate_writeRows (level : Nat) : ∀ rows : List (Value × Value),
    (writeRows level rows).NoSurrogate ↔ ∀ t ∈ Value.rowTexts rows, t.NoSurrogate
  | [] => by simp [writeRows, Value.rowTexts]
  | (k, v) :: rest => by
      simp [writeRows, Value.rowTexts, noSurrogate_writeAt level v,
        noSurrogate_writeRows level rest, or_imp, forall_and]

end

/-- A document holds a surrogate only if a text of its value does. -/
theorem noSurrogate_write (v : Value) : (write v).NoSurrogate ↔ ∀ t ∈ v.texts, t.NoSurrogate :=
  noSurrogate_writeAt 0 v

end Json

end PluginManifest
