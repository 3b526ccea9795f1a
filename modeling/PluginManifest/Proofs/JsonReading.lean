import PluginManifest.Json.Reader
import PluginManifest.Json.Writer
import PluginManifest.Proofs.Keyed
import PluginManifest.Proofs.Report
import PluginManifest.Value.Shape

/-! # Reading what was written

A value without numbers whose maps have no key twice (`Value.Plain`) is read back from its document
(`read_write`).  A string is read back whatever it holds (`string?_writeString`).  Lists and maps are
read back if the values in them are (`ReadsBack`), at every level of indentation, whatever follows. -/

namespace PluginManifest

/-- Values without numbers, in which no map has a key twice. -/
inductive Value.Plain : Value → Prop
  /-- No value. -/
  | null : Plain .null
  /-- A truth value. -/
  | bool (b : Bool) : Plain (.bool b)
  /-- A text. -/
  | text (t : Text) : Plain (.text t)
  /-- Plain values in order. -/
  | list {items : List Value} : (∀ v ∈ items, Plain v) → Plain (.list items)
  /-- Plain values under different keys. -/
  | map {fields : List (Text × Value)} : (Keyed.keys fields).Nodup → (∀ f ∈ fields, Plain f.2) →
      Plain (.map fields)

namespace Json

open Text

/-! ### Strings -/

/-- Digits of base 16 are read back. -/
theorem digitIn?_hexDigit {n : Nat} (h : n < 16) : (hexDigit n).digitIn? 16 = some n := by
  revert n
  decide

theorem hex4?_control {n : Nat} (h : n < 0x20) (rest : Text) :
    hex4? (Text.ofString "00" ++ [hexDigit (n / 16), hexDigit (n % 16)] ++ rest) =
      some (n, rest) := by
  have hzero : (CodePoint.ofChar '0').digitIn? 16 = some 0 := by decide
  have hhigh := digitIn?_hexDigit (n := n / 16) (by omega)
  have hlow := digitIn?_hexDigit (n := n % 16) (Nat.mod_lt n (by decide))
  have hvalue : n / 16 * 16 + n % 16 = n := by omega
  have hread : Text.toNat? 16 [CodePoint.ofChar '0', CodePoint.ofChar '0', hexDigit (n / 16),
      hexDigit (n % 16)] = some n := by
    simp only [Text.toNat?, Text.readDigits, hzero, hhigh, hlow, Nat.zero_mul, Nat.zero_add, hvalue]
  have hfour : Text.ofString "00" ++ [hexDigit (n / 16), hexDigit (n % 16)] ++ rest =
      CodePoint.ofChar '0' :: CodePoint.ofChar '0' :: hexDigit (n / 16) :: hexDigit (n % 16) ::
        rest := rfl
  rw [hfour, hex4?, hread]
  rfl

/-- Only a high surrogate is completed by what follows. -/
theorem completion?_eq_none {n : Nat} (h : n < 0xD800) (rest : Text) :
    completion? n rest = none := by
  have hpair : ∀ low, pair? n low = none := by
    intro low
    rw [pair?, if_neg]
    simp only [Bool.and_eq_true, decide_eq_true_eq, not_and]
    omega
  match rest with
  | [] => rfl
  | [_] => rfl
  | a :: b :: rest =>
      rw [completion?]
      split_ifs
      · cases hex4? rest with
        | none => rfl
        | some found => simp [hpair]
      · rfl

theorem character?_escape {d c : CodePoint} (hd : d ≠ 'u') (h : simpleEscape? d = some c)
    (rest : Text) : character? (CodePoint.ofChar '\\' :: d :: rest) = some (c, rest) := by
  have hslash : ¬ (CodePoint.ofChar '\\').val < 0x20 := by decide
  rw [character?, if_neg hslash, if_pos rfl, if_neg hd, h]
  rfl

theorem character?_control {c : CodePoint} (h : c.val < 0x20) (rest : Text) :
    character? (Text.ofString "\\u00" ++ [hexDigit (c.val / 16), hexDigit (c.val % 16)] ++ rest) =
      some (c, rest) := by
  have hslash : ¬ (CodePoint.ofChar '\\').val < 0x20 := by decide
  have hwritten : Text.ofString "\\u00" ++ [hexDigit (c.val / 16), hexDigit (c.val % 16)] ++ rest =
      CodePoint.ofChar '\\' :: CodePoint.ofChar 'u' ::
        (Text.ofString "00" ++ [hexDigit (c.val / 16), hexDigit (c.val % 16)] ++ rest) := rfl
  rw [hwritten, character?, if_neg hslash, if_pos rfl, if_pos rfl, hex4?_control h]
  dsimp only
  rw [completion?_eq_none (by omega), CodePoint.ofNat?, dif_pos c.isLt]
  rfl

/-- The ways that a character is written: by one letter, by its number, or as it is. -/
theorem writeCharacter_cases (c : CodePoint) :
    (∃ d : CodePoint, d ≠ 'u' ∧ simpleEscape? d = some c ∧ 0x20 ≤ d.val ∧
      writeCharacter c = [CodePoint.ofChar '\\', d]) ∨
    (c.val < 0x20 ∧ writeCharacter c =
      Text.ofString "\\u00" ++ [hexDigit (c.val / 16), hexDigit (c.val % 16)]) ∨
    (0x20 ≤ c.val ∧ c ≠ '\"' ∧ c ≠ '\\' ∧ writeCharacter c = [c]) := by
  unfold writeCharacter
  split_ifs with h1 h2 h3 h4 h5 h6 h7 h8
  · exact .inl ⟨'\"', by decide, by rw [h1]; decide, by decide, rfl⟩
  · exact .inl ⟨'\\', by decide, by rw [h2]; decide, by decide, rfl⟩
  · exact .inl ⟨'n', by decide, by rw [h3]; decide, by decide, rfl⟩
  · exact .inl ⟨'r', by decide, by rw [h4]; decide, by decide, rfl⟩
  · exact .inl ⟨'t', by decide, by rw [h5]; decide, by decide, rfl⟩
  · exact .inl ⟨'b', by decide, by rw [h6]; decide, by decide, rfl⟩
  · exact .inl ⟨'f', by decide, by rw [h7]; decide, by decide, rfl⟩
  · exact .inr (.inl ⟨h8, rfl⟩)
  · exact .inr (.inr ⟨Nat.not_lt.mp h8, h1, h2, rfl⟩)

/-- A character is read back from what is written for it. -/
theorem character?_writeCharacter (c : CodePoint) (rest : Text) :
    character? (writeCharacter c ++ rest) = some (c, rest) := by
  obtain ⟨d, hd, hescape, -, hc⟩ | ⟨hcontrol, hc⟩ | ⟨hcontrol, -, hslash, hc⟩ :=
    writeCharacter_cases c
  · rw [hc]
    exact character?_escape hd hescape rest
  · rw [hc]
    exact character?_control hcontrol rest
  · rw [hc, List.singleton_append, character?.eq_def]
    dsimp only
    rw [if_neg (Nat.not_lt.mpr hcontrol), if_neg hslash]

/-- What is written for a character does not start with a quote. -/
theorem writeCharacter_eq_cons (c : CodePoint) :
    ∃ d more, writeCharacter c = d :: more ∧ d ≠ '\"' := by
  obtain ⟨d, -, -, -, hc⟩ | ⟨-, hc⟩ | ⟨-, hquote, -, hc⟩ := writeCharacter_cases c
  · exact ⟨_, _, hc, by decide⟩
  · exact ⟨_, _, hc, by decide⟩
  · exact ⟨c, [], hc, hquote⟩

theorem length_le_flatMap_writeCharacter (t : Text) :
    t.length ≤ (t.flatMap writeCharacter).length := by
  induction t with
  | nil => exact Nat.le_refl _
  | cons c t ih =>
      obtain ⟨d, more, hd, -⟩ := writeCharacter_eq_cons c
      rw [List.flatMap_cons, hd, List.length_append, List.length_cons, List.length_cons]
      omega

theorem string?_flatMap (rest : Text) : ∀ (t : Text) (fuel : Nat), t.length < fuel →
    string? fuel (t.flatMap writeCharacter ++ CodePoint.ofChar '\"' :: rest) = some (t, rest)
  | [], fuel + 1, _ => by rw [List.flatMap_nil, List.nil_append, string?, if_pos rfl]
  | c :: t, fuel + 1, hfuel => by
      have htail := string?_flatMap rest t fuel (by simpa using hfuel)
      have hchar := character?_writeCharacter c
        (t.flatMap writeCharacter ++ CodePoint.ofChar '\"' :: rest)
      obtain ⟨d, more, hd, hquote⟩ := writeCharacter_eq_cons c
      rw [hd] at hchar
      rw [List.flatMap_cons, List.append_assoc, hd, List.cons_append, string?, if_neg hquote]
      rw [List.cons_append] at hchar
      rw [hchar]
      dsimp only
      rw [htail]
      rfl

theorem writeString_append (t rest : Text) : writeString t ++ rest =
    CodePoint.ofChar '\"' :: (t.flatMap writeCharacter ++ CodePoint.ofChar '\"' :: rest) := by
  have hquote : Text.ofString "\"" = [CodePoint.ofChar '\"'] := rfl
  rw [writeString, hquote, List.append_assoc, List.append_assoc]
  rfl

/-- A string is read back, with as much fuel as the text is long. -/
theorem string?_writeString (t rest : Text) :
    string? ((t.flatMap writeCharacter ++ CodePoint.ofChar '\"' :: rest).length + 1)
      (t.flatMap writeCharacter ++ CodePoint.ofChar '\"' :: rest) = some (t, rest) := by
  apply string?_flatMap
  have := length_le_flatMap_writeCharacter t
  rw [List.length_append]
  omega

/-! ### Gaps -/

theorem skipGap_cons {c : CodePoint} (h : isGap c = false) (t : Text) : skipGap (c :: t) = c :: t :=
  List.dropWhile_cons_of_neg (by simp [h])

theorem skipGap_newline (level : Nat) {c : CodePoint} (h : isGap c = false) (t : Text) :
    skipGap (newline level ++ c :: t) = c :: t := by
  have hgap : ∀ d ∈ newline level, isGap d = true := by
    intro d hd
    rcases List.mem_append.mp hd with hd | hd
    · rw [List.mem_singleton.mp hd]
      decide
    · rw [List.eq_of_mem_replicate hd]
      decide
  rw [skipGap, List.dropWhile_append_of_pos hgap]
  exact skipGap_cons h t

/-! ### Values -/

/-- The value is read back from its text, at every level and whatever follows. -/
def ReadsBack (v : Value) : Prop := ∀ level fuel rest, (writeAt level v).length ≤ fuel →
  value fuel (writeAt level v ++ rest) = .ok (v, rest)

/-- The text of a plain value starts with a character that is no gap and closes nothing. -/
theorem writeAt_eq_cons {v : Value} (h : v.Plain) (level : Nat) :
    ∃ c more, writeAt level v = c :: more ∧ isGap c = false ∧ c ≠ ']' := by
  cases h with
  | null => exact ⟨_, _, rfl, by decide, by decide⟩
  | bool b =>
      cases b with
      | false => exact ⟨_, _, rfl, by decide, by decide⟩
      | true => exact ⟨_, _, rfl, by decide, by decide⟩
  | text t => exact ⟨_, _, rfl, by decide, by decide⟩
  | @list items h =>
      cases items with
      | nil => exact ⟨_, _, rfl, by decide, by decide⟩
      | cons v vs => exact ⟨_, _, rfl, by decide, by decide⟩
  | @map fields hkeys h =>
      cases fields with
      | nil => exact ⟨_, _, rfl, by decide, by decide⟩
      | cons f fs => exact ⟨_, _, rfl, by decide, by decide⟩

theorem skipGap_newline_writeAt {v : Value} (h : v.Plain) (level : Nat) (rest : Text) :
    skipGap (newline level ++ (writeAt level v ++ rest)) = writeAt level v ++ rest := by
  obtain ⟨c, more, hc, hgap, -⟩ := writeAt_eq_cons h level
  rw [hc, List.cons_append, skipGap_newline level hgap]

theorem skipGap_writeAt {v : Value} (h : v.Plain) (level : Nat) (rest : Text) :
    skipGap (writeAt level v ++ rest) = writeAt level v ++ rest := by
  obtain ⟨c, more, hc, hgap, -⟩ := writeAt_eq_cons h level
  rw [hc, List.cons_append, skipGap_cons hgap]

theorem writeItems_append (level : Nat) (v : Value) (vs : List Value) (rest : Text) :
    writeItems level (v :: vs) ++ rest = CodePoint.ofChar ',' ::
      (newline level ++ (writeAt level v ++ (writeItems level vs ++ rest))) := by
  have hcomma : Text.ofString "," = [CodePoint.ofChar ','] := rfl
  rw [writeItems, hcomma]
  simp only [List.append_assoc, List.cons_append, List.nil_append]

/-- The items of a list are read back up to its bracket. -/
theorem items_written (level outer : Nat) (rest : Text) : ∀ (vs : List Value) (v : Value)
    (fuel : Nat), (∀ u ∈ v :: vs, u.Plain ∧ ReadsBack u) →
    (writeAt level v).length + (writeItems level vs).length < fuel →
    items fuel (writeAt level v ++ (writeItems level vs ++
      (newline outer ++ CodePoint.ofChar ']' :: rest))) = .ok (v :: vs, rest)
  | [], v, fuel + 1, h, hfuel => by
      have hv := (h v List.mem_cons_self).2
      rw [items, hv level fuel _ (by omega)]
      dsimp only
      rw [writeItems, List.nil_append, skipGap_newline outer (by decide)]
      rfl
  | u :: us, v, fuel + 1, h, hfuel => by
      obtain ⟨-, hv⟩ := h v List.mem_cons_self
      have hplain := (h u (List.mem_cons_of_mem _ List.mem_cons_self)).1
      have hlength : (writeItems level (u :: us)).length =
          (writeAt level u).length + (writeItems level us).length + (newline level).length + 1 := by
        have := congrArg List.length (writeItems_append level u us [])
        simp only [List.append_nil, List.length_cons, List.length_append] at this
        omega
      have htail := items_written level outer rest us u fuel
        (fun w hw => h w (List.mem_cons_of_mem _ hw)) (by omega)
      rw [items, hv level fuel _ (by omega)]
      dsimp only
      rw [writeItems_append, skipGap_cons (by decide)]
      dsimp only
      rw [if_pos rfl, skipGap_newline_writeAt hplain, htail]
      rfl

theorem writeFields_append (level : Nat) (key : Text) (v : Value) (fields : List (Text × Value))
    (rest : Text) :
    writeFields level ((key, v) :: fields) ++ rest = CodePoint.ofChar ',' ::
      (newline level ++ (writeString key ++ (Text.ofString ": " ++ (writeAt level v ++
        (writeFields level fields ++ rest))))) := by
  have hcomma : Text.ofString "," = [CodePoint.ofChar ','] := rfl
  rw [writeFields, hcomma]
  simp only [List.append_assoc, List.cons_append, List.nil_append]

/-- The fields of a map are read back up to its brace. -/
theorem pairs_written (level outer : Nat) (rest : Text) : ∀ (fields : List (Text × Value))
    (key : Text) (v : Value) (fuel : Nat),
    (∀ f ∈ (key, v) :: fields, f.2.Plain ∧ ReadsBack f.2) →
    (writeAt level v).length + (writeFields level fields).length < fuel →
    pairs fuel (writeString key ++ (Text.ofString ": " ++ (writeAt level v ++
      (writeFields level fields ++ (newline outer ++ CodePoint.ofChar '\x7d' :: rest))))) =
      .ok ((key, v) :: fields, rest)
  | fields, key, v, fuel + 1, h, hfuel => by
      obtain ⟨hplain, hv⟩ : v.Plain ∧ ReadsBack v := h _ List.mem_cons_self
      have hcolon : ∀ t : Text, Text.ofString ": " ++ t =
          CodePoint.ofChar ':' :: CodePoint.ofChar ' ' :: t := fun _ => rfl
      have hspace : ∀ t : Text, skipGap (CodePoint.ofChar ' ' :: t) = skipGap t :=
        fun t => List.dropWhile_cons_of_pos (by decide)
      rw [writeString_append, pairs, if_pos rfl, string?_writeString]
      dsimp only
      rw [hcolon, skipGap_cons (by decide)]
      dsimp only
      rw [if_pos rfl, hspace, skipGap_writeAt hplain, hv level fuel _ (by omega)]
      dsimp only
      cases fields with
      | nil =>
          rw [writeFields, List.nil_append, skipGap_newline outer (by decide)]
          rfl
      | cons f fields =>
          obtain ⟨next, u⟩ := f
          have hlength : (writeAt level u).length + (writeFields level fields).length <
              (writeFields level ((next, u) :: fields)).length := by
            have := congrArg List.length (writeFields_append level next u fields [])
            simp only [List.append_nil, List.length_cons, List.length_append] at this
            omega
          have htail := pairs_written level outer rest fields next u fuel
            (fun w hw => h w (List.mem_cons_of_mem _ hw)) (by omega)
          rw [writeFields_append, skipGap_cons (by decide)]
          dsimp only
          rw [if_pos rfl, writeString_append, skipGap_newline level (by decide),
            ← writeString_append, htail]
          rfl

theorem writeAt_list_append (level : Nat) (v : Value) (vs : List Value) (rest : Text) :
    writeAt level (.list (v :: vs)) ++ rest = CodePoint.ofChar '[' :: (newline (level + 1) ++
      (writeAt (level + 1) v ++ (writeItems (level + 1) vs ++
        (newline level ++ CodePoint.ofChar ']' :: rest)))) := by
  have hopen : Text.ofString "[" = [CodePoint.ofChar '['] := rfl
  have hclose : Text.ofString "]" = [CodePoint.ofChar ']'] := rfl
  rw [writeAt, hopen, hclose]
  simp only [List.append_assoc, List.cons_append, List.nil_append]

theorem writeAt_map_append (level : Nat) (key : Text) (v : Value) (fields : List (Text × Value))
    (rest : Text) :
    writeAt level (.map ((key, v) :: fields)) ++ rest = CodePoint.ofChar '\x7b' ::
      (newline (level + 1) ++ (writeString key ++ (Text.ofString ": " ++ (writeAt (level + 1) v ++
        (writeFields (level + 1) fields ++
          (newline level ++ CodePoint.ofChar '\x7d' :: rest)))))) := by
  have hopen : Text.ofString "\x7b" = [CodePoint.ofChar '\x7b'] := rfl
  have hclose : Text.ofString "\x7d" = [CodePoint.ofChar '\x7d'] := rfl
  rw [writeAt, hopen, hclose]
  simp only [List.append_assoc, List.cons_append, List.nil_append]

theorem fuel_eq_succ {v : Value} (h : v.Plain) {level fuel : Nat}
    (hfuel : (writeAt level v).length ≤ fuel) : ∃ f, fuel = f + 1 := by
  obtain ⟨c, more, hc, -⟩ := writeAt_eq_cons h level
  rw [hc, List.length_cons] at hfuel
  exact ⟨fuel - 1, by omega⟩

theorem readsBack_list {items : List Value} (h : ∀ v ∈ items, v.Plain ∧ ReadsBack v) :
    ReadsBack (.list items) := by
  intro level fuel rest hfuel
  obtain ⟨fuel, rfl⟩ := fuel_eq_succ (.list fun v hv => (h v hv).1) hfuel
  cases items with
  | nil => rfl
  | cons v vs =>
      have hplain := (h v List.mem_cons_self).1
      have hlength : (writeAt (level + 1) v).length + (writeItems (level + 1) vs).length < fuel := by
        have := congrArg List.length (writeAt_list_append level v vs [])
        simp only [List.append_nil, List.length_cons, List.length_append] at this
        omega
      have hitems := items_written (level + 1) level rest vs v fuel h hlength
      obtain ⟨c, more, hc, -, hclose⟩ := writeAt_eq_cons hplain (level + 1)
      rw [writeAt_list_append, value, if_neg (by decide), if_pos rfl, skipGap_newline_writeAt hplain]
      rw [hc, List.cons_append] at hitems ⊢
      dsimp only
      rw [if_neg hclose, hitems]
      rfl

theorem readsBack_map {fields : List (Text × Value)} (hkeys : (Keyed.keys fields).Nodup)
    (h : ∀ f ∈ fields, f.2.Plain ∧ ReadsBack f.2) : ReadsBack (.map fields) := by
  intro level fuel rest hfuel
  obtain ⟨fuel, rfl⟩ := fuel_eq_succ (.map hkeys fun f hf => (h f hf).1) hfuel
  cases fields with
  | nil => rfl
  | cons f fields =>
      obtain ⟨key, v⟩ := f
      have hlength : (writeAt (level + 1) v).length + (writeFields (level + 1) fields).length <
          fuel := by
        have := congrArg List.length (writeAt_map_append level key v fields [])
        simp only [List.append_nil, List.length_cons, List.length_append] at this
        omega
      have hpairs := pairs_written (level + 1) level rest fields key v fuel h hlength
      rw [writeAt_map_append, value, if_neg (by decide), if_neg (by decide), if_pos rfl]
      rw [writeString_append] at hpairs ⊢
      rw [skipGap_newline (level + 1) (by decide)]
      dsimp only
      rw [if_neg (by decide), hpairs]
      exact congrArg (fun ps => Except.ok (Value.map ps, rest)) (Keyed.ofPairs_eq_self hkeys)

/-- A plain value is read back. -/
theorem readsBack_of_plain {v : Value} (h : v.Plain) : ReadsBack v := by
  induction h with
  | null =>
      intro level fuel rest hfuel
      obtain ⟨fuel, rfl⟩ := fuel_eq_succ .null hfuel
      rfl
  | bool b =>
      intro level fuel rest hfuel
      obtain ⟨fuel, rfl⟩ := fuel_eq_succ (.bool b) hfuel
      cases b with
      | false => rfl
      | true => rfl
  | text t =>
      intro level fuel rest hfuel
      obtain ⟨fuel, rfl⟩ := fuel_eq_succ (.text t) hfuel
      rw [writeAt, writeString_append, value, if_pos rfl, string?_writeString]
  | list h ih => exact readsBack_list fun v hv => ⟨h v hv, ih v hv⟩
  | map hkeys h ih => exact readsBack_map hkeys fun f hf => ⟨h f hf, ih f hf⟩

/-- The document of a plain value reads as the value. -/
theorem read_write {v : Value} (h : v.Plain) : read (write v) = .ok v := by
  have hvalue := readsBack_of_plain h 0 (2 * (write v).length + 2) [] (by rw [write]; omega)
  have hstart := skipGap_writeAt h 0 []
  rw [List.append_nil] at hvalue hstart
  rw [read, write, hstart]
  rw [write] at hvalue
  rw [hvalue]
  rfl

/-! ### Line ends -/

/-- The text holds no carriage return. -/
def NoReturn (t : Text) : Prop := CodePoint.ofChar '\r' ∉ t

instance (t : Text) : Decidable (NoReturn t) := inferInstanceAs (Decidable (¬ _))

theorem noReturn_append {t u : Text} : NoReturn (t ++ u) ↔ NoReturn t ∧ NoReturn u := by
  simp [NoReturn]

theorem noReturn_writeString (t : Text) : NoReturn (writeString t) := by
  have hdigit : ∀ n < 16, CodePoint.ofChar '\r' ≠ hexDigit n := by decide
  have hchar : ∀ c, NoReturn (writeCharacter c) := by
    intro c
    obtain ⟨d, -, -, hd, hc⟩ | ⟨hcontrol, hc⟩ | ⟨hcontrol, -, -, hc⟩ := writeCharacter_cases c
    · have hne : CodePoint.ofChar '\r' ≠ d := by
        rintro rfl
        exact absurd hd (by decide)
      rw [hc, NoReturn, List.mem_cons, List.mem_singleton, not_or]
      exact ⟨by decide, hne⟩
    · rw [hc, noReturn_append, NoReturn, NoReturn, List.mem_cons, List.mem_singleton, not_or]
      exact ⟨by decide, hdigit _ (by omega), hdigit _ (by omega)⟩
    · rw [hc, NoReturn, List.mem_singleton]
      rintro rfl
      exact absurd hcontrol (by decide)
  have hall : NoReturn (t.flatMap writeCharacter) := by
    intro hmem
    obtain ⟨c, -, hc⟩ := List.mem_flatMap.mp hmem
    exact hchar c hc
  have hquote : NoReturn (Text.ofString "\"") := by decide
  rw [writeString, noReturn_append, noReturn_append]
  exact ⟨⟨hquote, hall⟩, hquote⟩

theorem noReturn_newline (level : Nat) : NoReturn (newline level) := by
  rw [newline, noReturn_append]
  refine ⟨by decide, ?_⟩
  intro hmem
  exact absurd (List.eq_of_mem_replicate hmem) (by decide)

theorem noReturn_writeItems (level : Nat) {items : List Value}
    (h : ∀ v ∈ items, NoReturn (writeAt level v)) : NoReturn (writeItems level items) := by
  induction items with
  | nil => exact List.not_mem_nil
  | cons v vs ih =>
      have hcomma : NoReturn (Text.ofString ",") := by decide
      simp only [writeItems, noReturn_append, noReturn_newline, hcomma, true_and]
      exact ⟨h v List.mem_cons_self, ih fun u hu => h u (List.mem_cons_of_mem _ hu)⟩

theorem noReturn_writeFields (level : Nat) {fields : List (Text × Value)}
    (h : ∀ f ∈ fields, NoReturn (writeAt level f.2)) : NoReturn (writeFields level fields) := by
  induction fields with
  | nil => exact List.not_mem_nil
  | cons f fields ih =>
      obtain ⟨key, v⟩ := f
      have hcomma : NoReturn (Text.ofString ",") := by decide
      have hcolon : NoReturn (Text.ofString ": ") := by decide
      simp only [writeFields, noReturn_append, noReturn_newline, noReturn_writeString, hcomma, hcolon,
        true_and]
      exact ⟨h _ List.mem_cons_self, ih fun u hu => h u (List.mem_cons_of_mem _ hu)⟩

/-- Carriage returns are escaped, and none stands at the end of a line. -/
theorem noReturn_writeAt {v : Value} (h : v.Plain) : ∀ level, NoReturn (writeAt level v) := by
  induction h with
  | null =>
      intro level
      rw [writeAt]
      decide
  | bool b =>
      intro level
      cases b with
      | false => rw [writeAt]; decide
      | true => rw [writeAt]; decide
  | text t => exact fun level => noReturn_writeString t
  | @list items h ih =>
      intro level
      cases items with
      | nil => rw [writeAt]; decide
      | cons v vs =>
          have hopen : NoReturn (Text.ofString "[") := by decide
          have hclose : NoReturn (Text.ofString "]") := by decide
          simp only [writeAt, noReturn_append, noReturn_newline, hopen, hclose, true_and, and_true]
          exact ⟨ih v List.mem_cons_self _,
            noReturn_writeItems _ fun u hu => ih u (List.mem_cons_of_mem _ hu) _⟩
  | @map fields hkeys h ih =>
      intro level
      cases fields with
      | nil => rw [writeAt]; decide
      | cons f fields =>
          obtain ⟨key, v⟩ := f
          have hopen : NoReturn (Text.ofString "\x7b") := by decide
          have hcolon : NoReturn (Text.ofString ": ") := by decide
          have hclose : NoReturn (Text.ofString "\x7d") := by decide
          simp only [writeAt, noReturn_append, noReturn_newline, noReturn_writeString, hopen, hcolon,
            hclose, true_and, and_true]
          exact ⟨ih _ List.mem_cons_self _,
            noReturn_writeFields _ fun u hu => ih u (List.mem_cons_of_mem _ hu) _⟩

/-! ### No tables

A document holds maps, whose keys are texts, and never a table. -/

theorem number_ne_table {negative : Bool} {t rest : Text} {v : Value} {rows : List (Value × Value)}
    (h : number negative t = .ok (v, rest)) : v ≠ .table rows := by
  unfold number at h
  split at h
  · cases h
  · dsimp only at h
    split at h
    · split at h
      · cases h
      · cases h
        exact Value.noConfusion
    · split at h
      · cases h
        exact Value.noConfusion
      · cases h

theorem scalar_ne_table {t rest : Text} {v : Value} {rows : List (Value × Value)}
    (h : scalar t = .ok (v, rest)) : v ≠ .table rows := by
  unfold scalar at h
  split at h
  · rename_i found hfound
    cases h
    obtain ⟨⟨word, v'⟩, hword, hrest⟩ := List.exists_of_findSome?_eq_some hfound
    obtain ⟨rest', -, heq⟩ := Option.map_eq_some_iff.mp hrest
    cases heq
    rintro rfl
    simp [constants] at hword
  · split at h
    · cases h
    · split_ifs at h
      · exact number_ne_table h
      · exact number_ne_table h

theorem value_ne_table {fuel : Nat} {t rest : Text} {v : Value} {rows : List (Value × Value)}
    (h : value fuel t = .ok (v, rest)) : v ≠ .table rows := by
  unfold value at h
  split at h
  · cases h
  · split at h
    · cases h
    · split_ifs at h
      · split at h
        · cases h
          exact Value.noConfusion
        · cases h
      · split at h
        · cases h
        · split_ifs at h
          · cases h
            exact Value.noConfusion
          · obtain ⟨⟨vs, after⟩, -, heq⟩ := map_eq_ok_iff.mp h
            cases heq
            exact Value.noConfusion
      · split at h
        · cases h
        · split_ifs at h
          · cases h
            exact Value.noConfusion
          · obtain ⟨⟨ps, after⟩, -, heq⟩ := map_eq_ok_iff.mp h
            cases heq
            exact Value.noConfusion
      · exact scalar_ne_table h

/-- The fields of a document are those of a map. -/
theorem eq_map_of_read {t : Text} {v : Value} {fields : Fields} (h : read t = .ok v)
    (hfields : v.fields = .ok fields) : v = .map fields := by
  unfold read at h
  split at h
  · cases h
  · rename_i found rest hvalue
    split_ifs at h
    cases h
    cases v with
    | map given =>
        cases hfields
        rfl
    | table rows => exact absurd rfl (value_ne_table hvalue)
    | _ => cases hfields

/-! ### Writing -/

/-- What is plain has no fault. -/
theorem fault?_of_plain {v : Value} (h : v.Plain) : fault? v = none := by
  induction h with
  | null => rfl
  | bool b => rfl
  | text t => rfl
  | @list items h ih =>
      rw [fault?]
      clear h
      induction items with
      | nil => rfl
      | cons v vs ihs =>
          rw [itemsFault?, ih v List.mem_cons_self,
            ihs fun u hu => ih u (List.mem_cons_of_mem _ hu)]
          rfl
  | @map fields hkeys h ih =>
      rw [fault?]
      clear h hkeys
      induction fields with
      | nil => rfl
      | cons f fields ihs =>
          obtain ⟨key, v⟩ := f
          rw [fieldsFault?, ih (key, v) List.mem_cons_self,
            ihs fun u hu => ih u (List.mem_cons_of_mem _ hu)]
          rfl

end Json

end PluginManifest
