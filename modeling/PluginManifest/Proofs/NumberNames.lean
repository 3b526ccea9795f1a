import PluginManifest.Literal.Number
import PluginManifest.Proofs.Blank
import PluginManifest.Proofs.QuotedNames
import Mathlib.Tactic.Ring

/-! # The names of integer literals

A natural number can be spelled in decimal digits or behind the mark of a base, in either letter
case, with leading zeros behind a mark and with separators between the digits (`Spelling`).  A
marked literal is read as an unbounded integer (`numberName_marked`), a decimal one through the
nearest floating point number (`numberName_decimal`).

Rounding leaves an integer as it is exactly when its mantissa has at most 53 bits
(`rounded_eq_self_iff`).  So all spellings of a number name one property exactly below `10 ^ 21`
and for such a mantissa (`spellings_agree_iff`). -/

namespace PluginManifest

/-! ### Rounding integers -/

namespace Binary64

/-- The number is a mantissa below `2 ^ 53` times a power of two. -/
def Exact (n : Nat) : Prop := ∃ m e, m < 2 ^ 53 ∧ n = m * 2 ^ e

/-- No number with such a mantissa is nearer to an integer. -/
structure Nearest (n v : Nat) : Prop where
  isExact : Exact v
  le_distance : ∀ w, Exact w → ((n : Int) - v).natAbs ≤ ((n : Int) - w).natAbs

/-- The integer that the 53 leading bits of a number leave, rounded. -/
def rounded (n : Nat) : Nat :=
  if n.log2 ≤ 52 then n
  else roundQuotient n (2 ^ (n.log2 - 52)) * 2 ^ (n.log2 - 52)

theorem roundQuotient_bounds (num den : Nat) :
    num / den ≤ roundQuotient num den ∧ roundQuotient num den ≤ num / den + 1 := by
  unfold roundQuotient
  dsimp only
  split_ifs
  · omega
  · omega
  · omega

theorem roundQuotient_of_dvd {num den : Nat} (hden : 0 < den) (h : den ∣ num) :
    roundQuotient num den = num / den := by
  unfold roundQuotient
  rw [Nat.mod_eq_zero_of_dvd h, if_pos (by omega)]

theorem roundQuotient_one (n : Nat) : roundQuotient n 1 = n := by
  rw [roundQuotient_of_dvd (by omega) (one_dvd n), Nat.div_one]

section

variable {n k : Nat}

/-- The leading 53 bits of a number. -/
theorem leading_bits (hn : n ≠ 0) (hk : n.log2 = 52 + k) :
    2 ^ 52 ≤ n / 2 ^ k ∧ n / 2 ^ k < 2 ^ 53 := by
  have hpos : 0 < 2 ^ k := Nat.two_pow_pos k
  constructor
  · rw [Nat.le_div_iff_mul_le hpos, ← Nat.pow_add, ← hk]
    exact Nat.log2_self_le hn
  · rw [Nat.div_lt_iff_lt_mul hpos, ← Nat.pow_add]
    have hlt : n < 2 ^ (n.log2 + 1) := Nat.lt_log2_self
    rwa [hk, show 52 + k + 1 = 53 + k by omega] at hlt

theorem lt_of_log2_le (h : n.log2 ≤ 52) : n < 2 ^ 53 := by
  have hlt : n < 2 ^ (n.log2 + 1) := Nat.lt_log2_self
  exact lt_of_lt_of_le hlt (Nat.pow_le_pow_right (by omega) (by omega))

theorem exact_rounded (n : Nat) : Exact (rounded n) := by
  unfold rounded
  split_ifs with h
  · exact ⟨n, 0, lt_of_log2_le h, by omega⟩
  · have hn : n ≠ 0 := by
      rintro rfl
      exact h (by decide)
    have hlead := leading_bits hn (show n.log2 = 52 + (n.log2 - 52) by omega)
    have hround := roundQuotient_bounds n (2 ^ (n.log2 - 52))
    by_cases hcarry : roundQuotient n (2 ^ (n.log2 - 52)) < 2 ^ 53
    · exact ⟨_, _, hcarry, rfl⟩
    · -- Rounding up may carry into a new bit; then the mantissa is a power of two.
      have heq : roundQuotient n (2 ^ (n.log2 - 52)) = 2 ^ 53 := by omega
      exact ⟨1, 53 + (n.log2 - 52), by decide, by rw [heq, Nat.pow_add, Nat.one_mul]⟩

theorem Exact.dvd (h : Exact n) (hn : n ≠ 0) (hk : n.log2 = 52 + k) : 2 ^ k ∣ n := by
  obtain ⟨m, e, hm, rfl⟩ := h
  have hle : 2 ^ (52 + k) ≤ m * 2 ^ e := by
    rw [← hk]
    exact Nat.log2_self_le hn
  have hlt : m * 2 ^ e < 2 ^ (53 + e) := by
    rw [Nat.pow_add]
    exact Nat.mul_lt_mul_of_pos_right hm (Nat.two_pow_pos e)
  have hexp : 52 + k < 53 + e := (Nat.pow_lt_pow_iff_right (by omega)).mp (hle.trans_lt hlt)
  exact Dvd.dvd.mul_left (Nat.pow_dvd_pow 2 (by omega)) m

/-- An integer stays as it is exactly when its mantissa has at most 53 bits. -/
theorem rounded_eq_self_iff : rounded n = n ↔ Exact n := by
  constructor
  · intro h
    rw [← h]
    exact exact_rounded n
  · intro h
    unfold rounded
    split_ifs with hlog
    · rfl
    · have hn : n ≠ 0 := by
        rintro rfl
        exact hlog (by decide)
      have hdvd := h.dvd hn (show n.log2 = 52 + (n.log2 - 52) by omega)
      rw [roundQuotient_of_dvd (Nat.two_pow_pos _) hdvd, Nat.div_mul_cancel hdvd]

end

/-! ### The nearest number to an integer -/

theorem toInt?_finite_of_nonneg {m : Nat} {e : Int} (h : 0 ≤ e) :
    (finite false m e).toInt? = some ((m * 2 ^ e.toNat : Nat) : Int) := by
  simp [toInt?, h]

theorem toInt?_finite_of_neg {m k : Nat} {e : Int} (he : e = -(k : Int)) (hk : 0 < k) :
    (finite false (m * 2 ^ k) e).toInt? = some (m : Int) := by
  have hneg : ¬ 0 ≤ e := by omega
  have hnat : (-e).toNat = k := by omega
  simp [toInt?, hneg, hnat]

/-- Up to 53 bits the nearest number is the integer itself. -/
theorem toInt?_nearest_of_le {n : Nat} (hn : n ≠ 0) (h : n.log2 ≤ 52) :
    (nearest false n 1).toInt? = some (n : Int) := by
  obtain ⟨k, hk⟩ : ∃ k, n.log2 + k = 52 := ⟨52 - n.log2, by omega⟩
  have hguess : ((n.log2 : Int) - (1 : Nat).log2 - 52) = -(k : Int) := by
    rw [show (1 : Nat).log2 = 0 by decide]
    omega
  have hscale : scale n 1 (-(k : Int)) = (n * 2 ^ k, 1) := by
    unfold scale
    split_ifs with h0
    · have : k = 0 := by omega
      subst this
      simp
    · simp
  have hlow : 2 ^ 52 ≤ n * 2 ^ k := by
    calc 2 ^ 52 = 2 ^ n.log2 * 2 ^ k := by rw [← Nat.pow_add, hk]
      _ ≤ n * 2 ^ k := Nat.mul_le_mul_right _ (Nat.log2_self_le hn)
  have hhigh : n * 2 ^ k < 2 ^ 53 := by
    calc n * 2 ^ k < 2 ^ (n.log2 + 1) * 2 ^ k :=
          Nat.mul_lt_mul_of_pos_right Nat.lt_log2_self (Nat.two_pow_pos k)
      _ = 2 ^ 53 := by rw [← Nat.pow_add]; congr 1; omega
  have hmax : max (-(k : Int)) leastExponent = -(k : Int) := by
    unfold leastExponent
    omega
  have hfinite : nearest false n 1 = .finite false (n * 2 ^ k) (-(k : Int)) := by
    have hnot : ¬ n * 2 ^ k < Nat.pow 2 52 := by
      simpa using hlow
    have hsmall : ¬ Nat.pow 2 53 ≤ n * 2 ^ k := by
      simpa using hhigh
    have hexp : ¬ greatestExponent < -(k : Int) := by
      unfold greatestExponent
      omega
    simp only [nearest, hn, if_false, hguess, hscale, Nat.div_one, hnot, hmax, roundQuotient_one,
      hsmall, hexp]
  rw [hfinite]
  by_cases hk0 : k = 0
  · subst hk0
    simp [toInt?]
  · exact toInt?_finite_of_neg rfl (by omega)

/-- Beyond 53 bits the nearest number is the rounded integer, or out of range. -/
theorem nearest_of_lt {n k : Nat} (hk : n.log2 = 52 + k) (hpos : 0 < k) :
    (nearest false n 1).toInt? = some (rounded n : Int) ∨
      nearest false n 1 = .infinite false ∧ 970 < k := by
  have hn : n ≠ 0 := by
    rintro rfl
    rw [show (0 : Nat).log2 = 0 by decide] at hk
    omega
  obtain ⟨hlow, hhigh⟩ := leading_bits hn hk
  have hguess : ((n.log2 : Int) - (1 : Nat).log2 - 52) = (k : Int) := by
    rw [show (1 : Nat).log2 = 0 by decide, hk]
    omega
  have hscale : scale n 1 (k : Int) = (n, 2 ^ k) := by
    simp [scale]
  have hmax : max (k : Int) leastExponent = (k : Int) := by
    unfold leastExponent
    omega
  have hnot : ¬ n / 2 ^ k < Nat.pow 2 52 := by
    simpa using hlow
  have hrounded : rounded n = roundQuotient n (2 ^ k) * 2 ^ k := by
    unfold rounded
    rw [if_neg (by omega), hk, Nat.add_sub_cancel_left]
  have hround := roundQuotient_bounds n (2 ^ k)
  have hnearest : nearest false n 1 =
      if greatestExponent < (if 2 ^ 53 ≤ roundQuotient n (2 ^ k) then (k : Int) + 1 else k) then
        .infinite false
      else .finite false
        (if 2 ^ 53 ≤ roundQuotient n (2 ^ k) then roundQuotient n (2 ^ k) / 2
          else roundQuotient n (2 ^ k))
        (if 2 ^ 53 ≤ roundQuotient n (2 ^ k) then (k : Int) + 1 else k) := by
    simp only [nearest, hn, if_false, hguess, hscale, hnot, hmax]
    rw [show Nat.pow 2 53 = 2 ^ 53 by rfl]
    split_ifs
    all_goals rfl
  rw [hnearest]
  split_ifs with hcarry hinf hinf
  · unfold greatestExponent at hinf
    exact .inr ⟨rfl, by omega⟩
  · refine .inl ?_
    have heq : roundQuotient n (2 ^ k) = 2 ^ 53 := by omega
    have hexp : ((k : Int) + 1).toNat = 1 + k := by omega
    rw [toInt?_finite_of_nonneg (by omega), hrounded, heq, hexp, Nat.pow_add, ← Nat.mul_assoc,
      show (2 : Nat) ^ 53 / 2 * 2 ^ 1 = 2 ^ 53 by decide]
  · unfold greatestExponent at hinf
    exact .inr ⟨rfl, by omega⟩
  · refine .inl ?_
    rw [toInt?_finite_of_nonneg (by omega), hrounded, Int.toNat_natCast]

/-! ### Nothing exact is nearer -/

/-- The quotient is rounded to a nearest multiple. -/
theorem roundQuotient_nearest (num : Nat) {den : Nat} (hden : 0 < den) (k : Nat) :
    ((num : Int) - (roundQuotient num den * den : Nat)).natAbs ≤
      ((num : Int) - (k * den : Nat)).natAbs := by
  have hdiv := Nat.div_add_mod num den
  have hmod := Nat.mod_lt num hden
  have hside : k * den ≤ num / den * den ∨ num / den * den + den ≤ k * den := by
    rcases Nat.lt_or_ge (num / den) k with hk | hk
    · have hmul := Nat.mul_le_mul_right den hk
      rw [Nat.succ_mul] at hmul
      exact .inr hmul
    · exact .inl (Nat.mul_le_mul_right den hk)
  have hcases : (roundQuotient num den = num / den ∧ 2 * (num % den) ≤ den) ∨
      roundQuotient num den = num / den + 1 ∧ den ≤ 2 * (num % den) := by
    unfold roundQuotient
    dsimp only
    split_ifs
    · exact .inl ⟨rfl, by omega⟩
    · exact .inr ⟨rfl, by omega⟩
    · rcases Nat.mod_two_eq_zero_or_one (num / den) with h | h
      · exact .inl ⟨by omega, by omega⟩
      · exact .inr ⟨by omega, by omega⟩
  rw [Nat.mul_comm] at hdiv
  rcases hcases with ⟨heq, hle⟩ | ⟨heq, hle⟩
  · rw [heq]
    omega
  · rw [heq, Nat.succ_mul]
    omega

/-- No integer with a mantissa of 53 bits is nearer than the rounded one. -/
theorem rounded_nearest (n : Nat) {w : Nat} (hw : Exact w) :
    ((n : Int) - rounded n).natAbs ≤ ((n : Int) - w).natAbs := by
  unfold rounded
  split_ifs with hlog
  · omega
  · obtain ⟨k, hk⟩ : ∃ k, n.log2 = 52 + k := ⟨n.log2 - 52, by omega⟩
    have hn : n ≠ 0 := by
      rintro rfl
      exact hlog (by decide)
    rw [hk, Nat.add_sub_cancel_left]
    have hpos : 0 < 2 ^ k := Nat.two_pow_pos k
    by_cases hdvd : 2 ^ k ∣ w
    · obtain ⟨j, rfl⟩ := hdvd
      rw [Nat.mul_comm (2 ^ k) j]
      exact roundQuotient_nearest n hpos j
    · -- A finer mantissa ends before the leading bit of `n`, which is a multiple and nearer.
      have hlead : 2 ^ 52 * 2 ^ k ≤ n := by
        rw [← Nat.pow_add, ← hk]
        exact Nat.log2_self_le hn
      have hbelow : w < 2 ^ 52 * 2 ^ k := by
        obtain ⟨m, e, hm, rfl⟩ := hw
        have he : e < k := by
          by_contra hge
          exact hdvd (Dvd.dvd.mul_left (Nat.pow_dvd_pow 2 (by omega)) m)
        calc m * 2 ^ e < 2 ^ 53 * 2 ^ e := Nat.mul_lt_mul_of_pos_right hm (Nat.two_pow_pos e)
          _ = 2 ^ 52 * 2 ^ (e + 1) := by ring
          _ ≤ 2 ^ 52 * 2 ^ k := Nat.mul_le_mul_left _ (Nat.pow_le_pow_right (by omega) he)
      have hnear := roundQuotient_nearest n hpos (2 ^ 52)
      omega

/-- Rounding keeps the leading bit. -/
theorem lt_two_mul_rounded {n : Nat} (hn : n ≠ 0) : n < 2 * rounded n := by
  unfold rounded
  split_ifs with hlog
  · omega
  · obtain ⟨k, hk⟩ : ∃ k, n.log2 = 52 + k := ⟨n.log2 - 52, by omega⟩
    have hlead := (leading_bits hn hk).1
    have hround := (roundQuotient_bounds n (2 ^ k)).1
    rw [hk, Nat.add_sub_cancel_left]
    calc n < 2 ^ (n.log2 + 1) := Nat.lt_log2_self
      _ = 2 * (2 ^ 52 * 2 ^ k) := by rw [hk]; ring
      _ ≤ 2 * (roundQuotient n (2 ^ k) * 2 ^ k) :=
        Nat.mul_le_mul_left _ (Nat.mul_le_mul_right _ (hlead.trans hround))

theorem toInt?_zero : (zero false).toInt? = some 0 := by
  unfold zero toInt?
  dsimp only
  rw [if_neg (by decide), Nat.zero_mod, if_pos rfl, Nat.zero_div]
  rfl

/-- A decimal integer is read as the rounded one, or it is out of range. -/
theorem ofDecimal_cases (n : Nat) : (ofDecimal false n 0).toInt? = some (rounded n : Int) ∨
    ofDecimal false n 0 = .infinite false ∧ 10 ^ 21 ≤ rounded n := by
  by_cases hn : n = 0
  · subst hn
    exact .inl toInt?_zero
  · have hlead := lt_two_mul_rounded hn
    have hlow : ¬ ((digitCount n : Int) < -330) := by omega
    by_cases hhigh : 310 < digitCount n
    · have hlarge : ¬ n < 10 ^ 22 := by
        rw [← Nat.length_toDigits_le_iff (by omega) (by omega)]
        unfold digitCount at hhigh
        omega
      refine .inr ⟨?_, by omega⟩
      simp [ofDecimal, hn, hlow, hhigh]
    · have hdecimal : ofDecimal false n 0 = nearest false n 1 := by
        simp [ofDecimal, hn, hlow, hhigh]
      rw [hdecimal]
      by_cases hlog : n.log2 ≤ 52
      · rw [toInt?_nearest_of_le hn hlog, rounded, if_pos hlog]
        exact .inl rfl
      · obtain ⟨k, hk⟩ : ∃ k, n.log2 = 52 + k := ⟨n.log2 - 52, by omega⟩
        refine (nearest_of_lt hk (by omega)).imp id ?_
        rintro ⟨hinf, hlarge⟩
        have hpow : 2 ^ 100 ≤ n :=
          (Nat.pow_le_pow_right (by omega) (by omega)).trans (Nat.log2_self_le hn)
        exact ⟨hinf, by omega⟩

end Binary64

/-! ### Spellings -/

namespace Literal

/-- What may stand between two digits: nothing, or one separator. -/
def IsGap (gap : Text) : Prop := gap = [] ∨ gap = "_"

/-- Digits of a base, leading zeros and separators included, and the number that they write. -/
inductive Numeral (base : Nat) : Text → Nat → Prop
  | digit {c : CodePoint} {v : Nat} : HexDigit c v → v < base → Numeral base [c] v
  | more {t gap : Text} {c : CodePoint} {n v : Nat} : Numeral base t n → IsGap gap →
      HexDigit c v → v < base → Numeral base (t ++ gap ++ [c]) (base * n + v)

/-- The letter that marks a base, in either case. -/
inductive Mark : CodePoint → Nat → Prop
  | hexadecimal {c : CodePoint} : c = 'x' ∨ c = 'X' → Mark c 16
  | octal {c : CodePoint} : c = 'o' ∨ c = 'O' → Mark c 8
  | binary {c : CodePoint} : c = 'b' ∨ c = 'B' → Mark c 2

/-- A number in decimal digits without leading zeros. -/
def Decimal (n : Nat) (t : Text) : Prop := Numeral 10 t n ∧ (t.head? = some '0' → t = ['0'])

/-- A number in digits behind the mark of their base. -/
inductive Marked (n : Nat) : Text → Prop
  | behind {c : CodePoint} {base : Nat} {t : Text} : Mark c base → Numeral base t n →
      Marked n ('0' :: c :: t)

/-- An integer literal that denotes a number. -/
def Spelling (n : Nat) (t : Text) : Prop := Decimal n t ∨ Marked n t

/-- A text without separators. -/
def plain (t : Text) : Text := t.filter fun c : CodePoint => c ≠ '_'

/-- All characters are digits of a base. -/
def AllDigits (base : Nat) (t : Text) : Prop := ∀ c ∈ t, ∃ v, v < base ∧ HexDigit c v

section

variable {base n : Nat} {t : Text}

theorem HexDigit.digitIn?_of_lt {c : CodePoint} {v : Nat} (h : HexDigit c v) (hv : v < base) :
    c.digitIn? base = some v := by
  have hdigit := (Option.filter_eq_some_iff.mp h.digitIn?_eq).1
  exact Option.filter_eq_some_iff.mpr ⟨hdigit, by simpa using hv⟩

theorem HexDigit.ne_separator {c : CodePoint} {v : Nat} (h : HexDigit c v) : c ≠ '_' := by
  rintro rfl
  unfold HexDigit at h
  have hval : (CodePoint.ofChar '_').val = 0x5F := rfl
  omega

theorem plain_append (t u : Text) : plain (t ++ u) = plain t ++ plain u := List.filter_append t u

theorem HexDigit.plain_eq {c : CodePoint} {v : Nat} (h : HexDigit c v) : plain [c] = [c] := by
  rw [plain, List.filter_cons_of_pos (by simpa using h.ne_separator), List.filter_nil]

theorem IsGap.plain_eq {gap : Text} (h : IsGap gap) : plain gap = [] := by
  rcases h with rfl | rfl
  · rfl
  · decide

namespace Numeral

theorem allDigits (h : Numeral base t n) : AllDigits base (plain t) := by
  induction h with
  | digit hc hv =>
      rw [hc.plain_eq]
      intro d hd
      exact ⟨_, hv, List.mem_singleton.mp hd ▸ hc⟩
  | more _ hgap hc hv ih =>
      rw [plain_append, plain_append, hgap.plain_eq, hc.plain_eq, List.append_nil]
      intro d hd
      rcases List.mem_append.mp hd with hd | hd
      · exact ih d hd
      · exact ⟨_, hv, List.mem_singleton.mp hd ▸ hc⟩

theorem readDigits_eq (h : Numeral base t n) : Text.readDigits base 0 (plain t) = some n := by
  induction h with
  | digit hc hv => simp [hc.plain_eq, Text.readDigits, hc.digitIn?_of_lt hv]
  | more _ hgap hc hv ih =>
      rw [plain_append, plain_append, hgap.plain_eq, hc.plain_eq, List.append_nil,
        readDigits_append, ih, Option.bind_some]
      simp [Text.readDigits, hc.digitIn?_of_lt hv, Nat.mul_comm]

theorem plain_ne_nil (h : Numeral base t n) : plain t ≠ [] := by
  cases h with
  | digit hc _ => simp [hc.plain_eq]
  | more _ _ hc _ => simp [plain_append, hc.plain_eq]

theorem toNat?_eq (h : Numeral base t n) : Text.toNat? base (plain t) = some n := by
  have hread := h.readDigits_eq
  obtain ⟨c, rest, hc⟩ := List.exists_cons_of_ne_nil h.plain_ne_nil
  rw [hc] at hread ⊢
  exact hread

/-- Digits without separators write the number that is read. -/
theorem of_readDigits (hbase : base ≤ 16) (hne : t ≠ [])
    (h : Text.readDigits base 0 t = some n) : Numeral base t n := by
  induction t using List.reverseRecOn generalizing n with
  | nil => exact absurd rfl hne
  | append_singleton t c ih =>
      rw [readDigits_append] at h
      obtain ⟨m, hm, hc⟩ := Option.bind_eq_some_iff.mp h
      rw [Text.readDigits] at hc
      cases hv : c.digitIn? base with
      | none =>
          rw [hv] at hc
          cases hc
      | some v =>
          rw [hv] at hc
          obtain rfl : m * base + v = n := Option.some.inj hc
          obtain ⟨hdigit, hlt⟩ := Option.filter_eq_some_iff.mp hv
          have hlt : v < base := of_decide_eq_true hlt
          have hhex : HexDigit c v := hexDigit_of_digitIn?
            (Option.filter_eq_some_iff.mpr ⟨hdigit, by simpa using hlt.trans_le hbase⟩)
          by_cases ht : t = []
          · subst ht
            obtain rfl : 0 = m := Option.some.inj hm
            rw [Nat.zero_mul, Nat.zero_add]
            exact .digit hhex hlt
          · have hmore := Numeral.more (ih ht hm) (.inl rfl) hhex hlt
            rwa [List.append_nil, Nat.mul_comm] at hmore

end Numeral

end

/-- Every number has a numeral, without leading zeros. -/
theorem exists_numeral (base : Nat) (hbase : 1 < base) (hten : base ≤ 10) (n : Nat) :
    ∃ t, Numeral base t n ∧ (0 < n → t.head? ≠ some '0') ∧ (n = 0 → t = ['0']) := by
  have hzero : (CodePoint.ofChar '0').val = 0x30 := rfl
  induction n using Nat.strongRecOn with
  | ind n ih =>
      have hdigit : ∀ v, v < base → HexDigit ⟨0x30 + v % 10, by omega⟩ v := by
        intro v hv
        exact .inl ⟨by omega, by simp only; omega⟩
      by_cases hsmall : n < base
      · refine ⟨[⟨0x30 + n % 10, by omega⟩], .digit (hdigit n hsmall) hsmall, ?_, ?_⟩
        · intro hn h
          have hval := congrArg CodePoint.val (Option.some.inj h)
          simp only [hzero] at hval
          omega
        · rintro rfl
          rfl
      · have hpos : 0 < n / base := Nat.div_pos (by omega) (by omega)
        obtain ⟨t, ht, hhead, -⟩ := ih (n / base) (Nat.div_lt_self (by omega) hbase)
        have hlt : n % base < base := Nat.mod_lt _ (by omega)
        refine ⟨t ++ [] ++ [⟨0x30 + n % base % 10, by omega⟩], ?_, ?_, by omega⟩
        · have hmore := Numeral.more ht (.inl rfl) (hdigit _ hlt) hlt
          rwa [Nat.div_add_mod] at hmore
        · intro _
          rw [List.append_nil]
          cases t with
          | nil => exact absurd rfl ht.plain_ne_nil
          | cons c t => exact hhead hpos

/-! ### Digits in texts -/

/-- The letters and digits of ASCII are read as they are, and are no blanks. -/
theorem plainDigits_ascii : ∀ n : Fin 0x80, 0x30 ≤ n.val →
    Text.plainDigits [⟨n.val, by omega⟩] = [⟨n.val, by omega⟩] ∧
      CodePoint.isBlank ⟨n.val, by omega⟩ = false := by
  decide +kernel

theorem HexDigit.bounds {c : CodePoint} {v : Nat} (h : HexDigit c v) :
    0x30 ≤ c.val ∧ c.val < 0x80 := by
  unfold HexDigit at h
  omega

section

variable {base n : Nat} {t : Text}

theorem AllDigits.plainDigits_eq (h : AllDigits base t) : Text.plainDigits t = t := by
  refine List.map_congr_left (g := id) ?_ |>.trans (List.map_id t)
  intro c hc
  obtain ⟨v, -, hv⟩ := h c hc
  obtain ⟨hlow, hhigh⟩ := hv.bounds
  exact (List.cons.inj (plainDigits_ascii ⟨c.val, hhigh⟩ hlow).1).1

theorem AllDigits.isWord (h : AllDigits base t) (hne : t ≠ []) : Text.IsWord t := by
  refine ⟨hne, ?_⟩
  intro c hc
  obtain ⟨v, -, hv⟩ := h c hc
  obtain ⟨hlow, hhigh⟩ := hv.bounds
  exact (plainDigits_ascii ⟨c.val, hhigh⟩ hlow).2

theorem AllDigits.isDigit (h : AllDigits 10 t) : ∀ c ∈ t, c.isDigit = true := by
  intro c hc
  obtain ⟨v, hv, hdigit⟩ := h c hc
  unfold HexDigit at hdigit
  simp only [CodePoint.isDigit, Bool.and_eq_true, decide_eq_true_eq]
  omega

/-- Decimal digits are read as an integer. -/
theorem read?_decimal (h : AllDigits 10 t) (hread : Text.toNat? 10 t = some n) :
    Binary64.read? t = some (Binary64.ofDecimal false n 0) := by
  cases t with
  | nil => cases hread
  | cons c rest =>
      have hdigit := h.isDigit
      obtain ⟨hlow, hhigh⟩ : 0x30 ≤ c.val ∧ c.val ≤ 0x39 := by
        simpa [CodePoint.isDigit] using hdigit c List.mem_cons_self
      have hne : ∀ d : CodePoint, d.val < 0x30 ∨ 0x39 < d.val → ¬ c = d := by
        rintro d hd rfl
        omega
      have hword : ∀ d more, (Text.lower (c :: rest) = d :: more) → 0x39 < d.val → False := by
        intro d more hd hlarge
        have hc : c.lower = d := (List.cons.inj hd).1
        rw [CodePoint.lower, dif_neg (by omega)] at hc
        exact hne d (.inr hlarge) hc
      have htake : (c :: rest).takeWhile CodePoint.isDigit = c :: rest :=
        List.takeWhile_eq_self_iff.mpr hdigit
      have hdrop : (c :: rest).dropWhile CodePoint.isDigit = [] :=
        List.dropWhile_eq_nil_iff.mpr hdigit
      have hparts : Binary64.decimalParts? (c :: rest) = some (n, 0) := by
        simp [Binary64.decimalParts?, htake, hdrop, hread]
      have hinf : ¬ Text.lower (c :: rest) = "inf" := fun e => hword _ _ e (by decide)
      have hinfinity : ¬ Text.lower (c :: rest) = "infinity" := fun e => hword _ _ e (by decide)
      have hnan : ¬ Text.lower (c :: rest) = "nan" := fun e => hword _ _ e (by decide)
      unfold Binary64.read?
      rw [h.plainDigits_eq, Text.trim_eq_self (h.isWord (by simp)).trimmed]
      dsimp only
      rw [if_neg (hne _ (.inl (by decide))), if_neg (hne _ (.inl (by decide)))]
      simp [Binary64.readMagnitude?, hinf, hinfinity, hnan, hparts]

/-! ### Names -/

/-- The name that a floating point number gives. -/
def floatName (x : Binary64) : Text :=
  match x.toInt? with
  | some n => if n.natAbs < Nat.pow 10 21 then Text.ofInt n else x.format
  | none => x.format

theorem Mark.baseOf?_eq {c : CodePoint} (h : Mark c base) (t : Text) :
    baseOf? ('0' :: c :: t) = some base ∧ c ≠ '_' := by
  cases h with
  | hexadecimal h =>
      rcases h with rfl | rfl
      · exact ⟨rfl, by decide⟩
      · exact ⟨rfl, by decide⟩
  | octal h =>
      rcases h with rfl | rfl
      · exact ⟨rfl, by decide⟩
      · exact ⟨rfl, by decide⟩
  | binary h =>
      rcases h with rfl | rfl
      · exact ⟨rfl, by decide⟩
      · exact ⟨rfl, by decide⟩

/-- Behind a mark a number is named by its decimal digits, as far as they can be formed. -/
theorem numberName_marked (h : Marked n t) : numberName t =
    if n < 10 ^ maxDigits then .ok (Text.ofNat n) else .error .badNumber := by
  obtain ⟨hmark, hnumeral⟩ := h
  rename_i c base t
  obtain ⟨hbase, hne⟩ := hmark.baseOf?_eq (plain t)
  have hplain : ((CodePoint.ofChar '0' :: c :: t).filter fun c : CodePoint => c ≠ '_') =
      CodePoint.ofChar '0' :: c :: plain t := by
    rw [List.filter_cons_of_pos (by decide), List.filter_cons_of_pos (by simpa using hne)]
    rfl
  have hdigits := hnumeral.allDigits
  unfold numberName
  simp only [hplain, hbase, List.drop_succ_cons, List.drop_zero, hdigits.plainDigits_eq,
    Text.trimEnd_eq_self (hdigits.isWord hnumeral.plain_ne_nil).trimmed, hnumeral.toNat?_eq,
    Option.bind_some, integerText?, Int.natAbs_natCast, Nat.pow_eq]
  split_ifs
  · rfl
  · rfl

/-- In decimal digits a number is named through the nearest floating point number. -/
theorem numberName_decimal (h : Numeral 10 t n) :
    numberName t = .ok (floatName (Binary64.ofDecimal false n 0)) := by
  have hdigits := h.allDigits
  have hbase : baseOf? (plain t) = none := by
    unfold baseOf?
    split
    · rename_i c d rest hplain
      have hd : d.val ≤ 0x39 := by
        have := hdigits.isDigit d (by rw [hplain]; simp)
        simp only [CodePoint.isDigit, Bool.and_eq_true, decide_eq_true_eq] at this
        omega
      have hlower : d.lower = d := by rw [CodePoint.lower, dif_neg (by omega)]
      have hne : ∀ e : CodePoint, 0x39 < e.val → ¬ d = e := by
        rintro e he rfl
        omega
      rw [hlower, if_neg (hne _ (by decide)), if_neg (hne _ (by decide)),
        if_neg (hne _ (by decide)), ite_self]
    · rfl
  have hread := read?_decimal hdigits h.toNat?_eq
  unfold numberName
  rw [show (t.filter fun c : CodePoint => c ≠ '_') = plain t from rfl]
  simp only [hbase, hread, floatName]
  cases (Binary64.ofDecimal false n 0).toInt? with
  | none => rfl
  | some v => rfl

end

/-! ### Texts of numbers -/

theorem ofNat_eq_map (n : Nat) : Text.ofNat n = (Nat.toDigits 10 n).map CodePoint.ofChar := by
  rw [Text.ofNat, Text.ofString, Nat.toString_eq_ofList_toDigits, String.toList_ofList]

theorem isDigit_of_mem_ofNat {n : Nat} {c : CodePoint} (h : c ∈ Text.ofNat n) :
    c.isDigit = true := by
  rw [ofNat_eq_map] at h
  obtain ⟨d, hd, rfl⟩ := List.mem_map.mp h
  obtain ⟨hlow, hhigh⟩ :=
    Char.isDigit_iff_toNat.mp (Nat.isDigit_of_mem_toDigits (by omega) (by omega) hd)
  simp only [CodePoint.isDigit, Bool.and_eq_true, decide_eq_true_eq]
  exact ⟨hlow, hhigh⟩

theorem ofChar_injective : Function.Injective CodePoint.ofChar := by
  intro c d h
  exact Char.toNat_inj.mp (congrArg CodePoint.val h)

theorem ofNat_injective : Function.Injective Text.ofNat := by
  intro m n h
  rw [ofNat_eq_map, ofNat_eq_map] at h
  have hdigits : Nat.toDigits 10 m = Nat.toDigits 10 n :=
    List.map_injective_iff.mpr ofChar_injective h
  rw [← Nat.ofDigitChars_toDigits (n := m) (b := 10) (by omega) (by omega), hdigits,
    Nat.ofDigitChars_toDigits (by omega) (by omega)]

/-- A decimal that is written with a point or an exponent is no run of digits. -/
theorem exists_not_isDigit_formatDecimal (digits : Nat) (exponent : Int) :
    ∃ c ∈ Binary64.formatDecimal digits exponent, c.isDigit = false := by
  have hpoint : (CodePoint.ofChar '.').isDigit = false := by decide
  have he : (CodePoint.ofChar 'e').isDigit = false := by decide
  unfold Binary64.formatDecimal
  dsimp only
  split_ifs
  · exact ⟨'e', by simp [Text.ofString], he⟩
  · exact ⟨'e', by simp [Text.ofString], he⟩
  · exact ⟨'.', by simp [Text.ofString], hpoint⟩
  · exact ⟨'.', by simp [Text.ofString], hpoint⟩
  · exact ⟨'.', by simp [Text.ofString], hpoint⟩

/-- The text of a floating point number is no run of digits. -/
theorem exists_not_isDigit_format (x : Binary64) : ∃ c ∈ x.format, c.isDigit = false := by
  cases x with
  | nan => exact ⟨'n', by decide, by decide⟩
  | infinite negative =>
      cases negative with
      | true => exact ⟨'i', by decide, by decide⟩
      | false => exact ⟨'i', by decide, by decide⟩
  | finite negative m e =>
      unfold Binary64.format
      by_cases hm : m = 0
      · exact ⟨'.', by simp [hm, Text.ofString], by decide⟩
      · obtain ⟨c, hc, hdigit⟩ := exists_not_isDigit_formatDecimal
          (Binary64.shortest m e).1 (Binary64.shortest m e).2
        exact ⟨c, by simp [hm, hc], hdigit⟩

/-! ### When the spellings agree -/

open Binary64 (Exact rounded)

/-- Below `10 ^ 21` a decimal literal is named by the digits of the rounded number, beyond by a
text that is no run of digits. -/
theorem floatName_ofDecimal (n : Nat) :
    (rounded n < 10 ^ 21 → floatName (Binary64.ofDecimal false n 0) = Text.ofNat (rounded n)) ∧
      (10 ^ 21 ≤ rounded n →
        ∃ c ∈ floatName (Binary64.ofDecimal false n 0), c.isDigit = false) := by
  unfold floatName
  obtain hint | ⟨hinf, hlarge⟩ := Binary64.ofDecimal_cases n
  · simp only [hint, Int.natAbs_natCast]
    constructor
    · intro h
      rw [if_pos (by simpa using h)]
      rfl
    · intro h
      rw [if_neg (by simpa using h)]
      exact exists_not_isDigit_format _
  · refine ⟨fun h => by omega, fun _ => ?_⟩
    rw [hinf]
    exact exists_not_isDigit_format _

theorem floatName_eq_ofNat_iff (n : Nat) :
    floatName (Binary64.ofDecimal false n 0) = Text.ofNat n ↔ n < 10 ^ 21 ∧ Exact n := by
  obtain ⟨hsmall, hlarge⟩ := floatName_ofDecimal n
  rw [← Binary64.rounded_eq_self_iff]
  constructor
  · intro h
    by_cases hlt : rounded n < 10 ^ 21
    · have heq : rounded n = n := ofNat_injective ((hsmall hlt).symm.trans h)
      exact ⟨heq ▸ hlt, heq⟩
    · obtain ⟨c, hc, hdigit⟩ := hlarge (by omega)
      rw [h] at hc
      rw [isDigit_of_mem_ofNat hc] at hdigit
      cases hdigit
  · rintro ⟨hlt, heq⟩
    have hname := hsmall (by rwa [heq])
    rwa [heq] at hname

/-- Every number has a decimal and a marked spelling. -/
theorem exists_spellings (n : Nat) : (∃ t, Decimal n t) ∧ ∃ t, Marked n t := by
  obtain ⟨t, ht, hpos, hzero⟩ := exists_numeral 10 (by omega) (by omega) n
  obtain ⟨u, hu, -, -⟩ := exists_numeral 2 (by omega) (by omega) n
  refine ⟨⟨t, ht, ?_⟩, _, .behind (.binary (.inl rfl)) hu⟩
  intro hhead
  by_cases hn : n = 0
  · exact hzero hn
  · exact absurd hhead (hpos (by omega))

/-- **All spellings of a number name one property exactly below `10 ^ 21` and for a mantissa of at
most 53 bits.**  Marked spellings always agree: they are named by the digits of the number as long
as these can be formed.  Decimal spellings always agree: they are named through the nearest
number with such a mantissa. -/
theorem spellings_agree_iff (n : Nat) :
    (∀ t, Marked n t → numberName t =
      if n < 10 ^ maxDigits then .ok (Text.ofNat n) else .error .badNumber) ∧
    (∃ v name, Binary64.Nearest n v ∧ (∀ t, Decimal n t → numberName t = .ok name) ∧
      (v < 10 ^ 21 → name = Text.ofNat v) ∧ (10 ^ 21 ≤ v → ∃ c ∈ name, c.isDigit = false)) ∧
    ((∀ s t, Spelling n s → Spelling n t → numberName s = numberName t) ↔
      n < 10 ^ 21 ∧ Exact n) := by
  have hdecimal : ∀ t, Decimal n t →
      numberName t = .ok (floatName (Binary64.ofDecimal false n 0)) :=
    fun t ht => numberName_decimal ht.1
  obtain ⟨hsmall, hlarge⟩ := floatName_ofDecimal n
  refine ⟨fun t => numberName_marked, ⟨rounded n, _, ?_, hdecimal, hsmall, hlarge⟩, ?_, ?_⟩
  · exact ⟨Binary64.exact_rounded n, fun w => Binary64.rounded_nearest n⟩
  · intro h
    obtain ⟨⟨t, ht⟩, u, hu⟩ := exists_spellings n
    have hsame := h u t (.inr hu) (.inl ht)
    rw [numberName_marked hu, hdecimal t ht] at hsame
    split_ifs at hsame
    exact (floatName_eq_ofNat_iff n).mp (Except.ok.inj hsame).symm
  · intro h
    have hbound : n < 10 ^ maxDigits :=
      h.1.trans_le (Nat.pow_le_pow_right (by omega) (by decide))
    have hname : ∀ t, Spelling n t → numberName t = .ok (Text.ofNat n) := by
      rintro t (ht | ht)
      · rw [hdecimal t ht, (floatName_eq_ofNat_iff n).mpr h]
      · rw [numberName_marked ht, if_pos hbound]
    intro s t hs ht
    rw [hname s hs, hname t ht]

example : numberName "0xFF" = .ok "255" ∧ numberName "0b1111_1111" = .ok "255" ∧
    numberName "2_55" = .ok "255" := by decide +kernel

/-- Two spellings of `2 ^ 53 + 1` with different names, and two of `10 ^ 21`. -/
theorem spellings_disagree :
    (Marked (2 ^ 53 + 1) "0x20000000000001" ∧ Decimal (2 ^ 53 + 1) "9007199254740993" ∧
      numberName "0x20000000000001" = .ok "9007199254740993" ∧
      numberName "9007199254740993" = .ok "9007199254740992") ∧
    Marked (10 ^ 21) "0x3635C9ADC5DEA00000" ∧ Decimal (10 ^ 21) "1000000000000000000000" ∧
      numberName "0x3635C9ADC5DEA00000" = .ok "1000000000000000000000" ∧
      numberName "1000000000000000000000" = .ok "1e+21" := by
  have hnames : numberName "0x20000000000001" = .ok "9007199254740993" ∧
      numberName "9007199254740993" = .ok "9007199254740992" ∧
      numberName "0x3635C9ADC5DEA00000" = .ok "1000000000000000000000" ∧
      numberName "1000000000000000000000" = .ok "1e+21" := by decide +kernel
  have hmarked : ∀ (digits : Text) {n : Nat}, digits ≠ [] → Text.readDigits 16 0 digits = some n →
      Marked n ('0' :: CodePoint.ofChar 'x' :: digits) := fun _ _ hne hread =>
    .behind (.hexadecimal (.inl rfl)) (.of_readDigits (by omega) hne hread)
  have hodd : Marked (2 ^ 53 + 1) "0x20000000000001" :=
    hmarked "20000000000001" (by decide) (by decide +kernel)
  have hlarge : Marked (10 ^ 21) "0x3635C9ADC5DEA00000" :=
    hmarked "3635C9ADC5DEA00000" (by decide) (by decide +kernel)
  obtain ⟨h1, h2, h3, h4⟩ := hnames
  refine ⟨⟨hodd, ⟨?_, by decide⟩, h1, h2⟩, hlarge, ⟨?_, by decide⟩, h3, h4⟩
  · exact .of_readDigits (by omega) (by decide) (by decide +kernel)
  · exact .of_readDigits (by omega) (by decide) (by decide +kernel)

end Literal

end PluginManifest
