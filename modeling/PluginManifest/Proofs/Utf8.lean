import PluginManifest.Text.Utf8
import Mathlib.Data.List.Infix

/-! # Where decoded text can be cut

Lossy decoding keeps every ASCII byte as it is and makes something beyond ASCII of everything else
(`exists_starts`).  So bytes can be decoded in parts that are cut before an ASCII byte
(`decodeLossy_append`), and ASCII text that stands in the decoded text stands in the bytes at the same
place (`exists_of_ascii_decodeLossy_eq`), however ill-formed the bytes around it are. -/

namespace PluginManifest.Utf8

/-- The bytes are empty or start with an ASCII byte. -/
def AsciiFirst (bs : Bytes) : Prop := ∀ b ∈ bs.head?, b < 0x80

theorem asciiFirst_nil : AsciiFirst [] := by simp [AsciiFirst]

theorem asciiFirst_cons {b : UInt8} (h : b < 0x80) (bs : Bytes) : AsciiFirst (b :: bs) := by
  simpa [AsciiFirst] using h

/-! ### One unit -/

theorem units_ascii {b : UInt8} (h : b < 0x80) (bs : Bytes) :
    units (b :: bs) = some (CodePoint.ofByte b) :: units bs := by
  rw [units, if_pos h]

theorem units_stray {b : UInt8} (h : ¬ b < 0x80) (hl : lead? b = none) (bs : Bytes) :
    units (b :: bs) = none :: units bs := by
  rw [units, if_neg h, hl]

section lead

variable {b c d e : UInt8} {l : Lead} {bs : Bytes} (h : ¬ b < 0x80) (hl : lead? b = some l)
include h hl

/-! A sequence is cut short by the end of the bytes or by a byte that cannot continue it. -/

theorem units_cut_one (hcut : ∀ c ∈ bs.head?, (l.low ≤ c && c ≤ l.high) = false) :
    units (b :: bs) = none :: units bs := by
  rw [units, if_neg h, hl]
  cases bs with
  | nil => rfl
  | cons c bs => simp only [hcut c rfl, Bool.false_eq_true, if_false]

variable (hc : (l.low ≤ c && c ≤ l.high) = true)
include hc

theorem units_two (ht : (l.tails == 1) = true) :
    units (b :: c :: bs) = CodePoint.ofNat? (extend l.bits c) :: units bs := by
  rw [units, if_neg h, hl]
  simp only [hc, ht, if_true]

variable (ht : (l.tails == 1) = false)
include ht

theorem units_cut_two (hcut : ∀ d ∈ bs.head?, isTail d = false) :
    units (b :: c :: bs) = none :: units bs := by
  rw [units, if_neg h, hl]
  cases bs with
  | nil => simp only [hc, ht, if_true, Bool.false_eq_true, if_false, units]
  | cons d bs => simp only [hc, ht, hcut d rfl, if_true, Bool.false_eq_true, if_false]

variable (hd : isTail d = true)
include hd

theorem units_three (ht' : (l.tails == 2) = true) :
    units (b :: c :: d :: bs) =
      CodePoint.ofNat? (extend (extend l.bits c) d) :: units bs := by
  rw [units, if_neg h, hl]
  simp only [hc, ht, hd, ht', if_true, Bool.false_eq_true, if_false]

variable (ht' : (l.tails == 2) = false)
include ht'

theorem units_cut_three (hcut : ∀ e ∈ bs.head?, isTail e = false) :
    units (b :: c :: d :: bs) = none :: units bs := by
  rw [units, if_neg h, hl]
  cases bs with
  | nil => simp only [hc, ht, hd, ht', if_true, Bool.false_eq_true, if_false, units]
  | cons e bs => simp only [hc, ht, hd, ht', hcut e rfl, if_true, Bool.false_eq_true, if_false]

theorem units_four (he : isTail e = true) :
    units (b :: c :: d :: e :: bs) =
      CodePoint.ofNat? (extend (extend (extend l.bits c) d) e) :: units bs := by
  rw [units, if_neg h, hl]
  simp only [hc, ht, hd, ht', he, if_true, Bool.false_eq_true, if_false]

end lead

/-! ### What a unit can be -/

theorem isTail_of_ascii {b : UInt8} (h : b < 0x80) : isTail b = false := by
  simp [isTail, UInt8.not_le.mpr h]

theorem le_extend (bits : Nat) {low : Nat} {c : UInt8} (h : low ≤ c.toNat) :
    bits * 64 + (low - 0x80) ≤ extend bits c := by
  unfold extend
  omega

/-- A lead byte asks for a byte beyond ASCII, and the least one makes up for the missing bits of
the lead byte. -/
theorem lead?_low {b : UInt8} {l : Lead} (h : lead? b = some l) :
    0x80 ≤ l.low.toNat ∧ 2 ≤ l.bits * 64 + (l.low.toNat - 0x80) ∧
      (l.tails = 1 → 0x80 ≤ l.bits * 64 + (l.low.toNat - 0x80)) := by
  unfold lead? at h
  split at h
  · cases h
  rename_i h1
  have hb1 : 0xC2 ≤ b.toNat := UInt8.not_lt.mp h1
  split at h
  · obtain rfl := Option.some.inj h
    clear h h1
    dsimp only [UInt8.reduceToNat]
    omega
  rename_i h2
  have hb2 : 0xE0 ≤ b.toNat := UInt8.not_lt.mp h2
  split at h
  · obtain rfl := Option.some.inj h
    clear h h1 h2
    dsimp only
    by_cases he : b = 0xE0
    · subst he
      decide
    · have hne : b.toNat ≠ 0xE0 := fun e => he (UInt8.toNat_inj.mp e)
      rw [if_neg (by simpa using he)]
      dsimp only [UInt8.reduceToNat]
      omega
  rename_i h3
  have hb3 : 0xF0 ≤ b.toNat := UInt8.not_lt.mp h3
  split at h
  · obtain rfl := Option.some.inj h
    clear h h1 h2 h3
    dsimp only
    by_cases he : b = 0xF0
    · subst he
      decide
    · have hne : b.toNat ≠ 0xF0 := fun e => he (UInt8.toNat_inj.mp e)
      rw [if_neg (by simpa using he)]
      dsimp only [UInt8.reduceToNat]
      omega
  · cases h

/-- What a lead byte asks for lies beyond ASCII, and so does what it then encodes. -/
theorem lead?_bounds {b c : UInt8} {l : Lead} (h : lead? b = some l) (hc : l.low ≤ c) :
    0x80 ≤ c.toNat ∧ 2 ≤ extend l.bits c ∧ (l.tails = 1 → 0x80 ≤ extend l.bits c) := by
  have hlow : l.low.toNat ≤ c.toNat := hc
  have hext := le_extend l.bits hlow
  have := lead?_low h
  omega

theorem le_of_mem_ofNat? {n : Nat} (h : 0x80 ≤ n) : ∀ c ∈ CodePoint.ofNat? n, 0x80 ≤ c.val := by
  intro c hc
  unfold CodePoint.ofNat? at hc
  split_ifs at hc
  · cases hc
    exact h
  · cases hc

/-- The bytes start with a unit beyond ASCII, and they still do when ASCII follows them. -/
structure Starts (bs chunk rest : Bytes) (unit : Option CodePoint) : Prop where
  split : bs = chunk ++ rest
  ne_nil : chunk ≠ []
  beyond : ∀ c ∈ unit, 0x80 ≤ c.val
  units_append : ∀ more, AsciiFirst more → units (bs ++ more) = unit :: units (rest ++ more)

/-- Where ASCII follows, a sequence is cut short as it is at the end. -/
theorem head?_append_cut {p : UInt8 → Bool} {bs more : Bytes} (hbs : ∀ b ∈ bs.head?, p b = false)
    (hmore : AsciiFirst more) (hp : ∀ b : UInt8, b < 0x80 → p b = false) :
    ∀ b ∈ (bs ++ more).head?, p b = false := by
  cases bs with
  | nil => exact fun b hb => hp b (hmore b hb)
  | cons c bs => exact hbs

/-- The bytes do not start as asked for, or they go on behind such a start. -/
theorem head?_cases (p : UInt8 → Bool) (bs : Bytes) :
    (∀ b ∈ bs.head?, p b = false) ∨ ∃ b rest, bs = b :: rest ∧ p b = true := by
  cases bs with
  | nil => exact .inl (by simp)
  | cons b rest =>
      cases hb : p b with
      | false => exact .inl (by simpa using hb)
      | true => exact .inr ⟨b, rest, rfl, hb⟩

theorem low_of_ascii {b c : UInt8} {l : Lead} (hl : lead? b = some l) (hc : c < 0x80) :
    (l.low ≤ c && c ≤ l.high) = false := by
  have hlt : ¬ l.low ≤ c := by
    intro hle
    have := (lead?_bounds hl hle).1
    have : c.toNat < 0x80 := hc
    omega
  simp [hlt]

/-- A byte beyond ASCII starts a unit beyond ASCII. -/
theorem exists_starts {b : UInt8} (h : ¬ b < 0x80) (bs : Bytes) :
    ∃ chunk rest unit, Starts (b :: bs) chunk rest unit := by
  cases hl : lead? b with
  | none => exact ⟨[b], bs, none, rfl, by simp, by simp, fun more _ => units_stray h hl _⟩
  | some l =>
      -- The cases are the bytes of the sequence, read until it is complete or cut short.
      obtain hcut | ⟨c, bs, rfl, hc⟩ := head?_cases (fun c => l.low ≤ c && c ≤ l.high) bs
      · exact ⟨[b], bs, none, rfl, by simp, by simp, fun more hm =>
          units_cut_one h hl (head?_append_cut hcut hm fun c => low_of_ascii hl)⟩
      have hle : l.low ≤ c := by simpa using (Bool.and_eq_true_iff.mp hc).1
      obtain ⟨-, htwo, hone⟩ := lead?_bounds hl hle
      cases ht : l.tails == 1 with
      | true =>
          exact ⟨[b, c], bs, _, rfl, by simp, le_of_mem_ofNat? (hone (by simpa using ht)),
            fun more _ => units_two h hl hc ht⟩
      | false =>
          obtain hcut | ⟨d, bs, rfl, hd⟩ := head?_cases isTail bs
          · exact ⟨[b, c], bs, none, rfl, by simp, by simp, fun more hm =>
              units_cut_two h hl hc ht (head?_append_cut hcut hm fun d => isTail_of_ascii)⟩
          have hthree := le_extend (extend l.bits c) (Nat.zero_le d.toNat)
          cases ht' : l.tails == 2 with
          | true =>
              exact ⟨[b, c, d], bs, _, rfl, by simp, le_of_mem_ofNat? (by omega),
                fun more _ => units_three h hl hc ht hd ht'⟩
          | false =>
              obtain hcut | ⟨e, bs, rfl, he⟩ := head?_cases isTail bs
              · exact ⟨[b, c, d], bs, none, rfl, by simp, by simp, fun more hm =>
                  units_cut_three h hl hc ht hd ht' (head?_append_cut hcut hm fun e => isTail_of_ascii)⟩
              have hfour := le_extend (extend (extend l.bits c) d) (Nat.zero_le e.toNat)
              exact ⟨[b, c, d, e], bs, _, rfl, by simp, le_of_mem_ofNat? (by omega),
                fun more _ => units_four h hl hc ht hd ht' he⟩

/-! ### Text in parts -/

/-- What holds of no bytes, behind an ASCII byte, and behind a unit beyond ASCII, holds of all
bytes. -/
theorem units_induction {motive : Bytes → Prop} (nil : motive [])
    (ascii : ∀ b bs, b < 0x80 → motive bs → motive (b :: bs))
    (beyond : ∀ bs chunk rest unit, Starts bs chunk rest unit → motive rest → motive bs) :
    ∀ bs, motive bs := by
  intro bs
  induction hn : bs.length using Nat.strong_induction_on generalizing bs with
  | _ n ih =>
      cases bs with
      | nil => exact nil
      | cons b bs =>
          by_cases h : b < 0x80
          · exact ascii b bs h (ih bs.length (by rw [← hn]; simp) bs rfl)
          · obtain ⟨chunk, rest, unit, hs⟩ := exists_starts h bs
            refine beyond _ chunk rest unit hs (ih rest.length ?_ rest rfl)
            have hpos := List.length_pos_iff.mpr hs.ne_nil
            rw [← hn, hs.split, List.length_append]
            omega

theorem units_append {more : Bytes} (hmore : AsciiFirst more) (bs : Bytes) :
    units (bs ++ more) = units bs ++ units more := by
  induction bs using units_induction with
  | nil => rfl
  | ascii b bs h ih => rw [List.cons_append, units_ascii h, units_ascii h, ih, List.cons_append]
  | beyond bs chunk rest unit h ih =>
      have halone := h.units_append [] asciiFirst_nil
      rw [List.append_nil, List.append_nil] at halone
      rw [h.units_append more hmore, halone, ih, List.cons_append]

/-- Bytes that are cut before an ASCII byte can be decoded in two parts. -/
theorem decodeLossy_append {more : Bytes} (hmore : AsciiFirst more) (bs : Bytes) :
    decodeLossy (bs ++ more) = decodeLossy bs ++ decodeLossy more := by
  rw [decodeLossy, units_append hmore, List.map_append]
  rfl

theorem decodeLossy_ascii {b : UInt8} (h : b < 0x80) (bs : Bytes) :
    decodeLossy (b :: bs) = CodePoint.ofByte b :: decodeLossy bs := by
  rw [decodeLossy, units_ascii h]
  rfl

theorem Starts.decodeLossy_eq {bs chunk rest : Bytes} {unit : Option CodePoint}
    (h : Starts bs chunk rest unit) :
    decodeLossy bs = unit.getD CodePoint.replacement :: decodeLossy rest := by
  have := h.units_append [] asciiFirst_nil
  rw [List.append_nil, List.append_nil] at this
  rw [decodeLossy, this]
  rfl

/-- Bytes are decoded to at least one character. -/
theorem decodeLossy_eq_nil {bs : Bytes} (h : decodeLossy bs = []) : bs = [] := by
  cases bs with
  | nil => rfl
  | cons b bs =>
      by_cases hb : b < 0x80
      · rw [decodeLossy_ascii hb] at h
        cases h
      · obtain ⟨chunk, rest, unit, hs⟩ := exists_starts hb bs
        rw [hs.decodeLossy_eq] at h
        cases h

theorem Starts.ne_ascii {bs chunk rest : Bytes} {unit : Option CodePoint}
    (h : Starts bs chunk rest unit) {b : UInt8} (hb : b < 0x80) :
    unit.getD CodePoint.replacement ≠ CodePoint.ofByte b := by
  have hlt : (CodePoint.ofByte b).val < 0x80 := hb
  intro he
  rw [← he] at hlt
  cases unit with
  | none => exact absurd hlt (by decide)
  | some c =>
      have := h.beyond c rfl
      exact absurd hlt (by simpa using this)

theorem ofByte_injective {a b : UInt8} (h : CodePoint.ofByte a = CodePoint.ofByte b) : a = b :=
  UInt8.toNat_inj.mp (congrArg CodePoint.val h)

/-- An ASCII character of the decoded text is an ASCII byte of the bytes. -/
theorem exists_of_decodeLossy_eq {b : UInt8} (hb : b < 0x80) (bs : Bytes) :
    ∀ before after, decodeLossy bs = before ++ CodePoint.ofByte b :: after →
      ∃ xs ys, bs = xs ++ b :: ys ∧ decodeLossy xs = before ∧ decodeLossy ys = after := by
  induction bs using units_induction with
  | nil =>
      intro before after h
      exact absurd h.symm (by simp [decodeLossy, units])
  | ascii a bs ha ih =>
      intro before after h
      rw [decodeLossy_ascii ha] at h
      cases before with
      | nil =>
          obtain ⟨hab, hafter⟩ := List.cons.inj h
          obtain rfl := ofByte_injective hab
          exact ⟨[], bs, rfl, rfl, hafter⟩
      | cons c before =>
          obtain ⟨rfl, hbefore⟩ := List.cons.inj h
          obtain ⟨xs, ys, rfl, rfl, rfl⟩ := ih before after hbefore
          exact ⟨a :: xs, ys, rfl, decodeLossy_ascii ha xs, rfl⟩
  | beyond bs chunk rest unit hs ih =>
      intro before after h
      rw [hs.decodeLossy_eq] at h
      cases before with
      | nil => exact absurd (List.cons.inj h).1 (hs.ne_ascii hb)
      | cons c before =>
          obtain ⟨xs, ys, rfl, rfl, rfl⟩ := ih before after (List.cons.inj h).2
          refine ⟨chunk ++ xs, ys, by rw [hs.split, List.append_assoc], ?_, rfl⟩
          -- Both ways of decoding the bytes end with the same text behind the cut.
          have hcut := asciiFirst_cons hb ys
          have hall : decodeLossy (chunk ++ xs) ++ decodeLossy (b :: ys) =
              (c :: decodeLossy xs) ++ decodeLossy (b :: ys) := by
            rw [← decodeLossy_append hcut, List.append_assoc, ← hs.split, hs.decodeLossy_eq, h,
              decodeLossy_ascii hb]
          exact List.append_cancel_right hall

/-- ASCII text that is found in the decoded text is found in the bytes, at the same place. -/
theorem exists_of_ascii_decodeLossy_eq {mark : Bytes} (hmark : ∀ b ∈ mark, b < 0x80) :
    ∀ bs before after, decodeLossy bs = before ++ (mark.map CodePoint.ofByte ++ after) →
      mark ≠ [] → ∃ xs ys, bs = xs ++ (mark ++ ys) ∧ decodeLossy xs = before ∧
        decodeLossy ys = after := by
  induction mark with
  | nil => exact fun _ _ _ _ hne => absurd rfl hne
  | cons b mark ih =>
      intro bs before after h _
      obtain ⟨hb, hrest⟩ := List.forall_mem_cons.mp hmark
      obtain ⟨xs, ys, rfl, hxs, hys⟩ := exists_of_decodeLossy_eq hb bs before _ h
      by_cases hnil : mark = []
      · subst hnil
        exact ⟨xs, ys, rfl, hxs, hys⟩
      · obtain ⟨us, vs, rfl, hus, hvs⟩ := ih hrest ys [] after hys hnil
        obtain rfl := decodeLossy_eq_nil hus
        exact ⟨xs, vs, rfl, hxs, hvs⟩

/-- The decoding of ASCII text. -/
theorem decodeLossy_map {mark : Bytes} (hmark : ∀ b ∈ mark, b < 0x80) (bs : Bytes) :
    decodeLossy (mark ++ bs) = mark.map CodePoint.ofByte ++ decodeLossy bs := by
  induction mark with
  | nil => rfl
  | cons b mark ih =>
      obtain ⟨hb, hrest⟩ := List.forall_mem_cons.mp hmark
      rw [List.cons_append, decodeLossy_ascii hb, ih hrest]
      rfl

/-- ASCII text stands in the decoded text only if it stands in the bytes. -/
theorem isInfix_of_ascii_isInfix {mark bs : Bytes} (hmark : ∀ b ∈ mark, b < 0x80) (hne : mark ≠ [])
    (h : mark.map CodePoint.ofByte <:+: decodeLossy bs) : mark <:+: bs := by
  obtain ⟨before, after, h⟩ := h
  rw [List.append_assoc] at h
  obtain ⟨xs, ys, rfl, -⟩ := exists_of_ascii_decodeLossy_eq hmark bs before after h.symm hne
  exact ⟨xs, ys, List.append_assoc _ _ _⟩

end PluginManifest.Utf8
