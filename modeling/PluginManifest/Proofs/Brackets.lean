import PluginManifest.Proofs.TagLines

/-! # Where a bracket ends

A bracket is split off at the first place where as many brackets have been closed as opened.  With
`depth` brackets open, a text in which no start closes more of them than there are is `Within` the
brackets; `closing?` reads on as long as the text is within them and stops behind the bracket that
closes the last one (`closing?_spec`).  Before an opening bracket this is the shortest start of the
text with as many closing as opening brackets (`IsShortest`), and `takeBalanced_at_shortest` says
so of the split.  Only the two brackets count: all other characters can be exchanged
(`takeBalanced_map`). -/

namespace PluginManifest.Doc

open Text

/-- The kinds of brackets: what opens them and what closes them. -/
def brackets : List (CodePoint × CodePoint) := [('\x7b', '\x7d'), ('[', ']')]

theorem opener_ne_closer {opener closer : CodePoint} (h : (opener, closer) ∈ brackets) :
    opener ≠ closer := by
  have hall : ∀ pair ∈ brackets, pair.1 ≠ pair.2 := by decide
  exact hall _ h

variable {opener closer : CodePoint}

/-! ### Texts within brackets -/

/-- With `depth` brackets open, no start of the text closes more brackets than are open. -/
def Within (opener closer : CodePoint) (depth : Nat) (t : Text) : Prop :=
  ∀ start, start <+: t → start.count closer ≤ start.count opener + depth

theorem within_nil (depth : Nat) : Within opener closer depth [] := by
  intro start hstart
  rw [List.prefix_nil.mp hstart]
  exact Nat.zero_le _

/-- The first character is weighed with what follows it. -/
theorem within_cons {depth : Nat} {c : CodePoint} {t : Text} :
    Within opener closer depth (c :: t) ↔
      ∀ start, start <+: t → (c :: start).count closer ≤ (c :: start).count opener + depth := by
  constructor
  · intro h start hstart
    exact h _ (List.cons_prefix_cons.mpr ⟨rfl, hstart⟩)
  · intro h start hstart
    rcases List.prefix_cons_iff.mp hstart with rfl | ⟨more, rfl, hmore⟩
    · exact Nat.zero_le _
    · exact h more hmore

theorem within_opener (hne : opener ≠ closer) {depth : Nat} {t : Text} :
    Within opener closer depth (opener :: t) ↔ Within opener closer (depth + 1) t := by
  rw [within_cons]
  refine forall₂_congr fun start _ => ?_
  rw [List.count_cons_self, List.count_cons_of_ne hne]
  omega

theorem within_closer (hne : opener ≠ closer) {depth : Nat} {t : Text} :
    Within opener closer (depth + 1) (closer :: t) ↔ Within opener closer depth t := by
  rw [within_cons]
  refine forall₂_congr fun start _ => ?_
  rw [List.count_cons_self, List.count_cons_of_ne hne.symm]
  omega

theorem within_other {depth : Nat} {c : CodePoint} {t : Text} (ho : c ≠ opener) (hc : c ≠ closer) :
    Within opener closer depth (c :: t) ↔ Within opener closer depth t := by
  rw [within_cons]
  refine forall₂_congr fun start _ => ?_
  rw [List.count_cons_of_ne hc, List.count_cons_of_ne ho]

/-! ### The closing bracket -/

/-- With `depth` brackets open inside it, a bracket ends before `after`: the text up to there is within
the brackets and closes all of them but the last. -/
structure Ends (opener closer : CodePoint) (depth : Nat) (t inside after : Text) : Prop where
  split : t = inside ++ closer :: after
  within : Within opener closer depth inside
  closes : inside.count closer = inside.count opener + depth

theorem Ends.cons_opener (hne : opener ≠ closer) {depth : Nat} {t inside after : Text}
    (h : Ends opener closer (depth + 1) t inside after) :
    Ends opener closer depth (opener :: t) (opener :: inside) after where
  split := congrArg _ h.split
  within := (within_opener hne).mpr h.within
  closes := by
    rw [List.count_cons_self, List.count_cons_of_ne hne, h.closes]
    omega

theorem Ends.cons_closer (hne : opener ≠ closer) {depth : Nat} {t inside after : Text}
    (h : Ends opener closer depth t inside after) :
    Ends opener closer (depth + 1) (closer :: t) (closer :: inside) after where
  split := congrArg _ h.split
  within := (within_closer hne).mpr h.within
  closes := by
    rw [List.count_cons_self, List.count_cons_of_ne hne.symm, h.closes]
    omega

theorem Ends.cons_other {depth : Nat} {c : CodePoint} {t inside after : Text} (ho : c ≠ opener)
    (hc : c ≠ closer) (h : Ends opener closer depth t inside after) :
    Ends opener closer depth (c :: t) (c :: inside) after where
  split := congrArg _ h.split
  within := (within_other ho hc).mpr h.within
  closes := by
    rw [List.count_cons_of_ne hc, List.count_cons_of_ne ho, h.closes]

/-- Either the whole text is within the brackets, or the end of the outer one is found. -/
theorem closing?_spec (hne : opener ≠ closer) (t : Text) : ∀ depth,
    closing? opener closer (depth + 1) t = none ∧ Within opener closer depth t ∨
      ∃ inside after, closing? opener closer (depth + 1) t = some (inside, after) ∧
        Ends opener closer depth t inside after := by
  induction t with
  | nil => exact fun depth => .inl ⟨rfl, within_nil depth⟩
  | cons c t ih =>
      intro depth
      rw [closing?]
      by_cases ho : c = opener
      · subst ho
        rw [if_pos rfl]
        rcases ih (depth + 1) with ⟨hnone, hwithin⟩ | ⟨inside, after, hsome, hends⟩
        · exact .inl ⟨by rw [hnone]; rfl, (within_opener hne).mpr hwithin⟩
        · exact .inr ⟨_, _, by rw [hsome]; rfl, hends.cons_opener hne⟩
      rw [if_neg ho]
      by_cases hc : c = closer
      · subst hc
        rw [if_pos rfl]
        cases depth with
        | zero => exact .inr ⟨[], t, rfl, rfl, within_nil 0, rfl⟩
        | succ depth =>
            rw [if_neg (by omega), Nat.add_sub_cancel]
            rcases ih depth with ⟨hnone, hwithin⟩ | ⟨inside, after, hsome, hends⟩
            · exact .inl ⟨by rw [hnone]; rfl, (within_closer hne).mpr hwithin⟩
            · exact .inr ⟨_, _, by rw [hsome]; rfl, hends.cons_closer hne⟩
      · rw [if_neg hc]
        rcases ih depth with ⟨hnone, hwithin⟩ | ⟨inside, after, hsome, hends⟩
        · exact .inl ⟨by rw [hnone]; rfl, (within_other ho hc).mpr hwithin⟩
        · exact .inr ⟨_, _, by rw [hsome]; rfl, hends.cons_other ho hc⟩

theorem Ends.balanced {t inside after : Text} (h : Ends opener closer 0 t inside after) :
    Balanced opener closer inside := ⟨h.closes.symm, h.within⟩

/-- A bracket is split at its end. -/
theorem takeBalanced_spec (hne : opener ≠ closer) (t : Text) :
    takeBalanced opener closer t = (trim t, []) ∧ Within opener closer 0 t ∨
      ∃ inner rest, takeBalanced opener closer t = (trim inner, trim rest) ∧
        t = inner ++ closer :: rest ∧ Balanced opener closer inner := by
  unfold takeBalanced
  rcases closing?_spec hne t 0 with ⟨hnone, hwithin⟩ | ⟨inner, rest, hsome, hends⟩
  · exact .inl ⟨by rw [hnone], hwithin⟩
  · exact .inr ⟨inner, rest, by rw [hsome], hends.split, hends.balanced⟩

/-! ### The shortest even start -/

/-- A start of a text, not the empty one, with as many closing as opening brackets. -/
structure IsEven (opener closer : CodePoint) (t start : Text) : Prop where
  isPrefix : start <+: t
  ne_nil : start ≠ []
  even : start.count closer = start.count opener

/-- The shortest of these starts. -/
structure IsShortest (opener closer : CodePoint) (t start : Text) : Prop
    extends IsEven opener closer t start where
  shortest : ∀ other, IsEven opener closer t other → start.length ≤ other.length

/-- Behind the bracket that it opens with, an even start closes one more than it opens. -/
theorem IsEven.exists_behind (hne : opener ≠ closer) {t start : Text}
    (h : IsEven opener closer (opener :: t) start) :
    ∃ more, start = opener :: more ∧ more <+: t ∧ more.count closer = more.count opener + 1 := by
  rcases List.prefix_cons_iff.mp h.isPrefix with hnil | ⟨more, rfl, hmore⟩
  · exact absurd hnil h.ne_nil
  · have heven := h.even
    rw [List.count_cons_self, List.count_cons_of_ne hne] at heven
    exact ⟨more, rfl, hmore, heven⟩

/-- A text within a bracket has no even start. -/
theorem Within.not_isEven (hne : opener ≠ closer) {t : Text} (h : Within opener closer 0 t)
    (start : Text) : ¬ IsEven opener closer (opener :: t) start := by
  intro heven
  obtain ⟨more, -, hmore, hcount⟩ := heven.exists_behind hne
  have hle := h more hmore
  omega

/-- A balanced text between two brackets is the shortest even start. -/
theorem isShortest_of_balanced (hne : opener ≠ closer) {inner : Text}
    (h : Balanced opener closer inner) (rest : Text) :
    IsShortest opener closer (opener :: (inner ++ closer :: rest))
      (opener :: (inner ++ [closer])) where
  isPrefix := ⟨rest, by simp⟩
  ne_nil := List.cons_ne_nil _ _
  even := by
    rw [List.count_cons_of_ne hne, List.count_cons_self, List.count_append, List.count_append,
      List.count_singleton_self, List.count_singleton, if_neg (by simpa using hne.symm), h.1]
  shortest := by
    intro other hother
    obtain ⟨more, rfl, hmore, hcount⟩ := hother.exists_behind hne
    rw [List.length_cons, List.length_cons, List.length_append, List.length_singleton]
    by_contra hlt
    -- A shorter start would end inside the balanced text, which closes no more than it opens.
    have hinside : more <+: inner :=
      List.prefix_of_prefix_length_le hmore (List.prefix_append _ _) (by omega)
    have hle := h.2 more hinside
    omega

/-! ### Other characters -/

theorem closing?_map {f : CodePoint → CodePoint} (ho : ∀ c, f c = opener ↔ c = opener)
    (hc : ∀ c, f c = closer ↔ c = closer) (t : Text) : ∀ depth,
    closing? opener closer depth (t.map f) =
      (closing? opener closer depth t).map fun found => (found.1.map f, found.2.map f) := by
  induction t with
  | nil => exact fun depth => rfl
  | cons c t ih =>
      intro depth
      rw [List.map_cons, closing?, closing?]
      simp only [ho, hc, ih]
      split_ifs <;> simp only [Option.map_map, Option.map_some, List.map_nil] <;> rfl

theorem trim_map {f : CodePoint → CodePoint} (hf : ∀ c, (f c).isBlank = c.isBlank) (t : Text) :
    trim (t.map f) = (trim t).map f := by
  have hblank : CodePoint.isBlank ∘ f = CodePoint.isBlank := funext hf
  unfold trim trimEnd trimStart
  rw [List.dropWhile_map, hblank, ← List.map_reverse, List.dropWhile_map, hblank, List.map_reverse]

/-- Exchanging characters that are no brackets of this kind exchanges them in the two parts. -/
theorem takeBalanced_map {f : CodePoint → CodePoint} (ho : ∀ c, f c = opener ↔ c = opener)
    (hc : ∀ c, f c = closer ↔ c = closer) (hf : ∀ c, (f c).isBlank = c.isBlank) (t : Text) :
    takeBalanced opener closer (t.map f) =
      ((takeBalanced opener closer t).1.map f, (takeBalanced opener closer t).2.map f) := by
  unfold takeBalanced
  rw [closing?_map ho hc]
  cases closing? opener closer 1 t with
  | none => simp only [Option.map_none, trim_map hf, List.map_nil]
  | some found => simp only [Option.map_some, trim_map hf]

/-! ### The split -/

/-- **A bracket ends with the shortest even start.**  A text that opens with a bracket is split behind
its shortest start with as many closing as opening brackets, which is a balanced text between two
brackets, and it is not split if it has no such start.  A balanced text in brackets is thus given back
with what follows it.  Brackets of another kind are characters like all others. -/
theorem takeBalanced_at_shortest (h : (opener, closer) ∈ brackets) (t : Text) :
    ((∃ start, IsEven opener closer (opener :: t) start) →
      ∃ inner rest, IsShortest opener closer (opener :: t) (opener :: (inner ++ [closer])) ∧
        opener :: t = opener :: (inner ++ [closer]) ++ rest ∧ Balanced opener closer inner ∧
        takeBalanced opener closer t = (trim inner, trim rest)) ∧
    ((¬ ∃ start, IsEven opener closer (opener :: t) start) →
      takeBalanced opener closer t = (trim t, [])) ∧
    (∀ inner rest, Balanced opener closer inner →
      takeBalanced opener closer (inner ++ closer :: rest) = (trim inner, trim rest)) ∧
    ∀ f : CodePoint → CodePoint, (∀ c, f c = opener ↔ c = opener) → (∀ c, f c = closer ↔ c = closer) →
      (∀ c, (f c).isBlank = c.isBlank) → takeBalanced opener closer (t.map f) =
        ((takeBalanced opener closer t).1.map f, (takeBalanced opener closer t).2.map f) := by
  have hne := opener_ne_closer h
  refine ⟨?_, ?_, fun inner rest hinner => takeBalanced_of_balanced hne hinner rest,
    fun f ho hc hf => takeBalanced_map ho hc hf t⟩
  · rintro ⟨start, hstart⟩
    rcases takeBalanced_spec hne t with ⟨-, hwithin⟩ | ⟨inner, rest, htake, rfl, hinner⟩
    · exact absurd hstart (hwithin.not_isEven hne start)
    · exact ⟨inner, rest, isShortest_of_balanced hne hinner rest, by simp, hinner, htake⟩
  · intro hnone
    rcases takeBalanced_spec hne t with ⟨htake, -⟩ | ⟨inner, rest, -, rfl, hinner⟩
    · exact htake
    · exact absurd ⟨_, (isShortest_of_balanced hne hinner rest).toIsEven⟩ hnone

/-- Braces with a bracket and further braces in them, and a bracket that is not closed. -/
theorem takeBalanced_at_shortest_nested :
    (∃ inner rest, IsShortest '\x7b' '\x7d' (ofString "\x7ba [ \x7bb\x7d\x7d c\x7d")
        (CodePoint.ofChar '\x7b' :: (inner ++ [CodePoint.ofChar '\x7d'])) ∧
      Balanced '\x7b' '\x7d' inner ∧
      takeBalanced '\x7b' '\x7d' "a [ \x7bb\x7d\x7d c\x7d" = (trim inner, trim rest) ∧
      trim inner = "a [ \x7bb\x7d" ∧ trim rest = "c\x7d") ∧
    takeBalanced '[' ']' " a \x7b[b] \x7d" = (ofString "a \x7b[b] \x7d", []) := by
  have hbraces : (CodePoint.ofChar '\x7b', CodePoint.ofChar '\x7d') ∈ brackets := by decide
  have hsquare : (CodePoint.ofChar '[', CodePoint.ofChar ']') ∈ brackets := by decide
  have heven : IsEven '\x7b' '\x7d' (ofString "\x7ba [ \x7bb\x7d\x7d c\x7d")
      (ofString "\x7ba [ \x7bb\x7d\x7d") := ⟨⟨ofString " c\x7d", rfl⟩, by decide, by decide⟩
  have hopen : ∀ start ∈ (ofString "[ a \x7b[b] \x7d").inits, start ≠ [] →
      start.count (CodePoint.ofChar ']') ≠ start.count (CodePoint.ofChar '[') := by decide
  constructor
  · obtain ⟨inner, rest, hshortest, -, hinner, htake⟩ :=
      (takeBalanced_at_shortest hbraces (ofString "a [ \x7bb\x7d\x7d c\x7d")).1 ⟨_, heven⟩
    have hparts : takeBalanced '\x7b' '\x7d' (ofString "a [ \x7bb\x7d\x7d c\x7d") =
        (ofString "a [ \x7bb\x7d", ofString "c\x7d") := by decide
    obtain ⟨hin, hout⟩ := Prod.mk.inj (htake.symm.trans hparts)
    exact ⟨inner, rest, hshortest, hinner, htake, hin, hout⟩
  · refine ((takeBalanced_at_shortest hsquare (ofString " a \x7b[b] \x7d")).2.1 ?_).trans (by decide)
    rintro ⟨start, hstart⟩
    exact hopen start ((List.mem_inits _ _).mpr hstart.isPrefix) hstart.ne_nil hstart.even

end PluginManifest.Doc
