import PluginManifest.Proofs.Blank
import PluginManifest.Proofs.DocBlocks
import Mathlib.Data.List.Infix
import Mathlib.Tactic.MkIffOfInductiveProp

/-! # Written tag lines

A tag line is written from its parts: the name behind an at sign, a type in braces, a value, and text
after the value, each behind one space.  `openTag?_text` reads the parts back.  The braces of a type
and the brackets of a value may hold further ones if these are balanced (`closing?_of_balanced`). -/

namespace PluginManifest

/-! ### Balanced brackets -/

namespace Text

/-- Every bracket is closed after it was opened. -/
def Balanced (opener closer : CodePoint) (t : Text) : Prop :=
  t.count opener = t.count closer ∧ ∀ start, start <+: t → start.count closer ≤ start.count opener

variable {opener closer : CodePoint}

instance (t : Text) : Decidable (Balanced opener closer t) :=
  decidable_of_iff (t.count opener = t.count closer ∧
    ∀ start ∈ t.inits, start.count closer ≤ start.count opener) (by simp [Balanced, List.mem_inits])

theorem balanced_of_not_mem {t : Text} (ho : opener ∉ t) (hc : closer ∉ t) :
    Balanced opener closer t := by
  refine ⟨by rw [List.count_eq_zero.mpr ho, List.count_eq_zero.mpr hc], ?_⟩
  intro start hstart
  have hnone : closer ∉ start := fun h => hc (hstart.subset h)
  rw [List.count_eq_zero.mpr hnone]
  exact Nat.zero_le _

theorem Balanced.append {t u : Text} (ht : Balanced opener closer t)
    (hu : Balanced opener closer u) : Balanced opener closer (t ++ u) := by
  refine ⟨by rw [List.count_append, List.count_append, ht.1, hu.1], ?_⟩
  intro start hstart
  rcases List.prefix_or_prefix_of_prefix hstart (List.prefix_append t u) with h | ⟨more, rfl⟩
  · exact ht.2 start h
  · rw [List.count_append, List.count_append]
    have hall := ht.1
    have hpart := hu.2 more ((List.prefix_append_right_inj t).mp hstart)
    omega

end Text

namespace Doc

open Text

/-- Behind balanced text, with `depth` brackets open besides, the next bracket that is closed is the
one that was opened before the text. -/
theorem closing?_of_depth {opener closer : CodePoint} (hne : opener ≠ closer) (rest : Text) :
    ∀ (t : Text) (depth : Nat),
      (∀ start, start <+: t → start.count closer ≤ start.count opener + depth) →
      t.count closer = t.count opener + depth →
      closing? opener closer (depth + 1) (t ++ closer :: rest) = some (t, rest)
  | [], depth, _, htotal => by
      obtain rfl : depth = 0 := by simpa using htotal.symm
      rw [List.nil_append, closing?, if_neg hne.symm, if_pos rfl, if_pos (Nat.le_refl _)]
  | c :: t, depth, hstart, htotal => by
      have htail : ∀ start, start <+: t →
          (c :: start).count closer ≤ (c :: start).count opener + depth :=
        fun start h => hstart _ (List.cons_prefix_cons.mpr ⟨rfl, h⟩)
      rw [List.cons_append, closing?]
      by_cases ho : c = opener
      · -- One more bracket is open behind this one.
        subst ho
        have hinner := closing?_of_depth hne rest t (depth + 1)
          (fun start h => by
            have := htail start h
            rw [List.count_cons_self, List.count_cons_of_ne hne] at this
            omega)
          (by
            rw [List.count_cons_self, List.count_cons_of_ne hne] at htotal
            omega)
        rw [if_pos rfl, hinner]
        rfl
      · rw [if_neg ho]
        by_cases hc : c = closer
        · -- This one closes a bracket of the text, as otherwise it would close too many.
          subst hc
          have hopen : 1 ≤ depth := by
            have := htail [] (List.nil_prefix)
            rw [List.count_cons_self, List.count_cons_of_ne ho] at this
            simpa using this
          obtain ⟨depth, rfl⟩ : ∃ d, depth = d + 1 := ⟨depth - 1, by omega⟩
          have hinner := closing?_of_depth hne rest t depth
            (fun start h => by
              have := htail start h
              rw [List.count_cons_self, List.count_cons_of_ne ho] at this
              omega)
            (by
              rw [List.count_cons_self, List.count_cons_of_ne ho] at htotal
              omega)
          rw [if_pos rfl, if_neg (by omega), Nat.add_sub_cancel, hinner]
          rfl
        · have hinner := closing?_of_depth hne rest t depth
            (fun start h => by
              have := htail start h
              rwa [List.count_cons_of_ne hc, List.count_cons_of_ne ho] at this)
            (by rwa [List.count_cons_of_ne hc, List.count_cons_of_ne ho] at htotal)
          rw [if_neg hc, hinner]
          rfl

theorem closing?_of_balanced {opener closer : CodePoint} (hne : opener ≠ closer) {t : Text}
    (h : Balanced opener closer t) (rest : Text) :
    closing? opener closer 1 (t ++ closer :: rest) = some (t, rest) :=
  closing?_of_depth hne rest t 0 h.2 h.1.symm

/-- A bracket with balanced text in it is split off. -/
theorem takeBalanced_of_balanced {opener closer : CodePoint} (hne : opener ≠ closer) {t : Text}
    (h : Balanced opener closer t) (rest : Text) :
    takeBalanced opener closer (t ++ closer :: rest) = (trim t, trim rest) := by
  unfold takeBalanced
  rw [closing?_of_balanced hne h]

/-! ### Values -/

/-- The value of a tag as it is written. -/
inductive Operand
  /-- A word. -/
  | word (w : Text)
  /-- A text between two quotes. -/
  | quoted (quote : CodePoint) (t : Text)
  /-- A name in brackets. -/
  | optional (n : Text)
  /-- A name and a default in brackets. -/
  | defaulted (n default : Text)

namespace Operand

/-- How a value is written. -/
def text : Operand → Text
  | word w => w
  | quoted quote t => quote :: (t ++ [quote])
  | optional n => "[" ++ (n ++ "]")
  | defaulted n default => "[" ++ (n ++ "=" ++ default ++ "]")

/-- The value that is written. -/
def value : Operand → Text
  | word w => w
  | quoted _ t => t
  | optional n => n
  | defaulted n _ => n

/-- The characters that start something else than a word. -/
def marks : List CodePoint := ['\x7b', '[', '\"', '\x27']

/-- A name that can stand in brackets. -/
def IsBracketName (n : Text) : Prop :=
  n.Trimmed ∧ CodePoint.ofChar '[' ∉ n ∧ CodePoint.ofChar ']' ∉ n ∧ CodePoint.ofChar '=' ∉ n

instance (n : Text) : Decidable (IsBracketName n) := inferInstanceAs (Decidable (_ ∧ _))

/-- The value can be told from what is written. -/
def WellFormed : Operand → Prop
  | word w => w.IsWord ∧ ∀ c ∈ w.head?, c ∉ marks
  | quoted quote t => (quote = '\"' ∨ quote = '\x27') ∧ quote ∉ t
  | optional n => IsBracketName n
  | defaulted n default => IsBracketName n ∧ Balanced '[' ']' default

instance : DecidablePred WellFormed
  | word _ => inferInstanceAs (Decidable (_ ∧ _))
  | quoted _ _ => inferInstanceAs (Decidable (_ ∧ _))
  | optional n => inferInstanceAs (Decidable (IsBracketName n))
  | defaulted _ _ => inferInstanceAs (Decidable (_ ∧ _))

/-- A value that is written is not empty and has no blanks at its ends. -/
theorem trimmed_text {v : Operand} (h : v.WellFormed) : v.text ≠ [] ∧ v.text.Trimmed := by
  cases v with
  | word w => exact ⟨h.1.1, h.1.trimmed⟩
  | quoted quote t =>
      have hquote : quote.isBlank = false := by
        rcases h.1 with rfl | rfl
        · decide
        · decide
      exact ⟨List.cons_ne_nil _ _, trimmed_between hquote hquote t⟩
  | optional n =>
      have hopen : (CodePoint.ofChar '[').isBlank = false := by decide
      exact ⟨List.cons_ne_nil _ _, trimmed_between hopen (by decide) n⟩
  | defaulted n default =>
      have hopen : (CodePoint.ofChar '[').isBlank = false := by decide
      exact ⟨List.cons_ne_nil _ _, trimmed_between hopen (by decide) (n ++ "=" ++ default)⟩

end Operand

theorem takeWhile_bracketName {n : Text} (h : Operand.IsBracketName n) (default : Text) :
    trim ((trim (n ++ "=" ++ default)).takeWhile fun d : CodePoint => d ≠ '=') = n := by
  obtain ⟨htrimmed, -, -, heq⟩ := h
  have hmark : Text.ofString "=" = [CodePoint.ofChar '='] := rfl
  have hstart : trimStart (n ++ "=" ++ default) = n ++ "=" ++ default := by
    apply dropWhile_blank_eq_self
    cases n with
    | nil => simp [hmark]; decide
    | cons c n => exact htrimmed.1
  have hcut : trim (n ++ "=" ++ default) = n ++ CodePoint.ofChar '=' :: trimEnd default := by
    rw [trim, hstart, hmark, List.append_assoc]
    exact trimEnd_append_cons (by decide) n default
  have htake : (n ++ CodePoint.ofChar '=' :: trimEnd default).takeWhile
      (fun d : CodePoint => d ≠ '=') = n := by
    rw [List.takeWhile_append_of_pos, List.takeWhile_cons_of_neg (by simp), List.append_nil]
    intro c hc
    have hne : c ≠ CodePoint.ofChar '=' := by
      rintro rfl
      exact heq hc
    simpa using hne
  rw [hcut, htake, trim_eq_self htrimmed]

/-- Of a bracket the part before an equals sign is taken. -/
theorem takeValue_bracket {inside : Text} (h : Balanced '[' ']' inside) {rest : Text}
    (hrest : rest.Trimmed) :
    takeValue ("[" ++ (inside ++ "]") ++ spaced rest) =
      (trim ((trim inside).takeWhile fun d : CodePoint => d ≠ '='), rest) := by
  have hsplit : takeBalanced '[' ']' (inside ++ CodePoint.ofChar ']' :: spaced rest) =
      (trim inside, rest) := by
    rw [takeBalanced_of_balanced (by decide) h, trim_spaced hrest]
  have hwritten : Text.ofString "[" ++ (inside ++ Text.ofString "]") ++ spaced rest =
      CodePoint.ofChar '[' :: (inside ++ CodePoint.ofChar ']' :: spaced rest) := by
    rw [List.append_assoc, List.append_assoc]
    rfl
  rw [hwritten, takeValue, if_pos rfl, hsplit]

theorem takeWhile_ne_of_not_mem {n : Text} (h : CodePoint.ofChar '=' ∉ n) :
    (n.takeWhile fun d : CodePoint => d ≠ '=') = n := by
  rw [List.takeWhile_eq_self_iff]
  intro c hc
  have hne : c ≠ CodePoint.ofChar '=' := by
    rintro rfl
    exact h hc
  simpa using hne

/-- A value is read back, and so is the text behind it. -/
theorem takeValue_text {v : Operand} (h : v.WellFormed) {rest : Text} (hrest : rest.Trimmed) :
    takeValue (v.text ++ spaced rest) = (v.value, rest) := by
  cases v with
  | word w =>
      obtain ⟨⟨hne, hsolid⟩, hfirst⟩ := h
      have hcut : cutWord (w ++ spaced rest) = (w, rest) := by
        unfold cutWord
        rw [takeWhile_word hsolid (blankFirst_spaced rest),
          dropWhile_word hsolid (blankFirst_spaced rest), trimStart_spaced hrest]
      obtain ⟨c, more, rfl⟩ := List.exists_cons_of_ne_nil hne
      have hmarks := hfirst c rfl
      simp only [Operand.marks, List.mem_cons, List.not_mem_nil, or_false, not_or] at hmarks
      obtain ⟨-, hbracket, hdouble, hsingle⟩ := hmarks
      have hquote : ¬ ((decide (c = '\"') || decide (c = '\x27')) = true) := by
        simp [hdouble, hsingle]
      rw [Operand.text, Operand.value, List.cons_append, takeValue, if_neg hbracket, if_neg hquote]
      exact hcut
  | quoted quote t =>
      obtain ⟨hquote, hinside⟩ := h
      have hsplit : breakOn? [quote] (t ++ ([quote] ++ spaced rest)) = some (t, spaced rest) := by
        apply breakOn?_append (List.cons_ne_nil _ _)
        rw [List.dropLast_singleton, List.append_nil, List.singleton_infix_iff]
        exact hinside
      have hkind : ((decide (quote = '\"') || decide (quote = '\x27')) = true) := by
        simpa using hquote
      have hbracket : ¬ quote = '[' := by
        rcases hquote with rfl | rfl
        · decide
        · decide
      rw [Operand.text, Operand.value, List.cons_append, takeValue, if_neg hbracket, if_pos hkind,
        List.append_assoc, hsplit]
      dsimp only
      rw [trim_spaced hrest]
  | optional n =>
      obtain ⟨htrimmed, hopen, hclose, heq⟩ := h
      rw [Operand.text, takeValue_bracket (balanced_of_not_mem hopen hclose) hrest,
        trim_eq_self htrimmed, takeWhile_ne_of_not_mem heq, trim_eq_self htrimmed]
      rfl
  | defaulted n default =>
      obtain ⟨hname, hdefault⟩ := h
      have hmark : Balanced '[' ']' (Text.ofString "=") :=
        balanced_of_not_mem (by decide) (by decide)
      have hinside : Balanced '[' ']' (n ++ "=" ++ default) :=
        ((balanced_of_not_mem hname.2.1 hname.2.2.1).append hmark).append hdefault
      rw [Operand.text, takeValue_bracket hinside hrest, takeWhile_bracketName hname]
      rfl

/-! ### Tag lines -/

/-- A tag as its line is written. -/
structure TagLine where
  /-- The word behind the at sign. -/
  name : Text
  /-- The text in the braces, if there are any. -/
  type : Option Text
  /-- The value. -/
  value : Option Operand
  /-- The text after the value. -/
  rest : Text

namespace TagLine

/-- The value and the text after it. -/
def operands (t : TagLine) : Text :=
  match t.value with
  | none => []
  | some v => v.text ++ spaced t.rest

/-- What is written behind the name. -/
def arguments (t : TagLine) : Text :=
  match t.type with
  | none => t.operands
  | some type => "\x7b" ++ (type ++ "\x7d") ++ spaced t.operands

/-- The line. -/
def text (t : TagLine) : Text := "@" ++ t.name ++ spaced t.arguments

/-- The parts of the line can be told apart. -/
@[mk_iff]
structure WellFormed (t : TagLine) : Prop where
  name : t.name.IsWord
  type : ∀ type ∈ t.type, type.Trimmed ∧ Balanced '\x7b' '\x7d' type
  value : ∀ v ∈ t.value, v.WellFormed
  rest : t.rest.Trimmed
  /-- Only a value is followed by text. -/
  behind : t.rest ≠ [] → t.value ≠ none

instance (t : TagLine) : Decidable t.WellFormed := decidable_of_iff' _ (wellFormed_iff t)

variable {t : TagLine}

theorem WellFormed.trimmed_operands (h : t.WellFormed) : t.operands.Trimmed := by
  unfold operands
  cases hv : t.value with
  | none => exact trimmed_nil
  | some v =>
      obtain ⟨hne, htrimmed⟩ := Operand.trimmed_text (h.value v hv)
      exact htrimmed.append_spaced hne h.rest

theorem WellFormed.trimmed_arguments (h : t.WellFormed) : t.arguments.Trimmed := by
  unfold arguments
  cases ht : t.type with
  | none => exact h.trimmed_operands
  | some type =>
      have hbraces : Trimmed ("\x7b" ++ (type ++ "\x7d")) :=
        trimmed_between (by decide) (by decide) type
      exact hbraces.append_spaced (List.cons_ne_nil _ _) h.trimmed_operands

/-- A tag line is trimmed. -/
theorem WellFormed.trimmed_text (h : t.WellFormed) : t.text ≠ [] ∧ t.text.Trimmed := by
  have hne : Text.ofString "@" ++ t.name ≠ [] := List.cons_ne_nil _ _
  have hword : IsWord (Text.ofString "@" ++ t.name) := by
    refine ⟨hne, ?_⟩
    intro c hc
    rcases List.mem_append.mp hc with hc | hc
    · rw [List.mem_singleton.mp hc]
      decide
    · exact h.name.2 c hc
  exact ⟨List.cons_ne_nil _ _, hword.trimmed.append_spaced hne h.trimmed_arguments⟩

/-- Where there are no braces, nothing is taken for a type. -/
theorem WellFormed.takeType_operands (h : t.WellFormed) :
    takeType t.operands = ([], t.operands) := by
  unfold operands
  cases hv : t.value with
  | none => rfl
  | some v =>
      dsimp only
      have hfirst : ∀ c ∈ v.text.head?, c ≠ CodePoint.ofChar '\x7b' := by
        cases v with
        | word w =>
            intro c hc e
            exact (h.value _ hv).2 c hc (by rw [e]; decide)
        | quoted quote u =>
            rintro c hc rfl
            obtain rfl : quote = '\x7b' := by simpa [Operand.text] using hc
            exact absurd (h.value _ hv).1 (by decide)
        | optional n =>
            rintro c hc rfl
            exact absurd (Option.some.inj hc) (by decide)
        | defaulted n default =>
            rintro c hc rfl
            exact absurd (Option.some.inj hc) (by decide)
      obtain ⟨c, more, hc⟩ := List.exists_cons_of_ne_nil (Operand.trimmed_text (h.value v hv)).1
      rw [hc, List.cons_append, takeType, if_neg (hfirst c (by rw [hc]; rfl))]

theorem WellFormed.takeType_arguments (h : t.WellFormed) :
    takeType t.arguments = (t.type.getD [], t.operands) := by
  unfold arguments
  cases ht : t.type with
  | none => exact h.takeType_operands
  | some type =>
      obtain ⟨htrimmed, hbalanced⟩ := h.type type ht
      have hsplit : takeBalanced '\x7b' '\x7d'
          (type ++ CodePoint.ofChar '\x7d' :: spaced t.operands) = (type, t.operands) := by
        rw [takeBalanced_of_balanced (by decide) hbalanced, trim_eq_self htrimmed,
          trim_spaced h.trimmed_operands]
      have hwritten : Text.ofString "\x7b" ++ (type ++ Text.ofString "\x7d") ++ spaced t.operands =
          CodePoint.ofChar '\x7b' :: (type ++ CodePoint.ofChar '\x7d' :: spaced t.operands) := by
        rw [List.append_assoc, List.append_assoc]
        rfl
      dsimp only
      rw [hwritten, takeType, if_pos rfl, hsplit]
      rfl

/-- The value that is written; a tag without one has the empty value. -/
def valueText (t : TagLine) : Text := (t.value.map Operand.value).getD []

theorem WellFormed.takeValue_operands (h : t.WellFormed) :
    takeValue t.operands = (t.valueText, t.rest) := by
  unfold operands valueText
  cases hv : t.value with
  | none =>
      have hrest : t.rest = [] := by
        by_contra hne
        exact h.behind hne hv
      rw [hrest]
      rfl
  | some v => exact takeValue_text (h.value v hv) h.rest

/-- The text after the value as the first line of the description. -/
def restLines (t : TagLine) : List Text := if t.rest.isEmpty then [] else [t.rest]

/-- **A written tag line is read back.** -/
theorem WellFormed.openTag?_text (h : t.WellFormed) :
    openTag? t.text = some ⟨⟨t.name, t.type.getD [], t.valueText, []⟩, t.restLines⟩ := by
  have hwritten : t.text = CodePoint.ofChar '@' :: (t.name ++ spaced t.arguments) := rfl
  have hname : (t.name ++ spaced t.arguments).takeWhile (!·.isBlank) = t.name :=
    takeWhile_word h.name.2 (blankFirst_spaced _)
  have hdrop : (t.name ++ spaced t.arguments).dropWhile (!·.isBlank) = spaced t.arguments :=
    dropWhile_word h.name.2 (blankFirst_spaced _)
  have hopens : (decide True && !t.name.isEmpty) = true := by simpa using h.name.1
  rw [hwritten, openTag?]
  simp only [hname, hdrop, trim_spaced h.trimmed_arguments, h.takeType_arguments,
    h.takeValue_operands, trim_eq_self h.rest]
  rw [if_pos hopens]
  rfl

end TagLine

end Doc

end PluginManifest
