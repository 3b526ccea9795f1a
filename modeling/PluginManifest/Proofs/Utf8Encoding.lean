import PluginManifest.Proofs.Utf8

/-! # Decoding what was encoded

The bytes that are written for a code point are cut off as one unit (`units_encodePoint?`), so strict
decoding gives an encoded text back (`decode?_encode?`). -/

namespace PluginManifest.Utf8

/-! ### Bytes -/

theorem toNat_toUInt8 {n : Nat} (h : n < 256) : n.toUInt8.toNat = n := by
  simpa using h

/-- A byte that carries six bits behind the lead byte. -/
theorem toNat_tail (n : Nat) : (0x80 + n % 64).toUInt8.toNat = 0x80 + n % 64 :=
  toNat_toUInt8 (by omega)

theorem isTail_tail (n : Nat) : isTail (0x80 + n % 64).toUInt8 = true := by
  have hlow : (0x80 : UInt8) ≤ (0x80 + n % 64).toUInt8 := by
    rw [UInt8.le_iff_toNat_le, toNat_tail]
    exact Nat.le_add_right _ _
  have hhigh : (0x80 + n % 64).toUInt8 ≤ 0xBF := by
    rw [UInt8.le_iff_toNat_le, toNat_tail]
    have : (0xBF : UInt8).toNat = 0xBF := rfl
    omega
  rw [isTail, decide_eq_true hlow, decide_eq_true hhigh]
  rfl

theorem extend_tail (bits n : Nat) : extend bits (0x80 + n % 64).toUInt8 = bits * 64 + n % 64 := by
  unfold extend
  rw [toNat_tail]
  omega

/-! ### Lead bytes -/

section lead

variable {b : UInt8}

theorem lead?_of_two (h : 0xC2 ≤ b.toNat) (h' : b.toNat < 0xE0) :
    lead? b = some ⟨1, 0x80, 0xBF, b.toNat - 0xC0⟩ := by
  have hlow : ¬ b < 0xC2 := UInt8.not_lt.mpr h
  have hhigh : b < 0xE0 := h'
  rw [lead?, if_neg hlow, if_pos hhigh]

theorem lead?_of_three (h : 0xE0 ≤ b.toNat) (h' : b.toNat < 0xF0) :
    lead? b = some ⟨2, if b == 0xE0 then 0xA0 else 0x80, if b == 0xED then 0x9F else 0xBF,
      b.toNat - 0xE0⟩ := by
  have htwo : ¬ b < 0xC2 := UInt8.not_lt.mpr (Nat.le_trans (by decide) h)
  have hlow : ¬ b < 0xE0 := UInt8.not_lt.mpr h
  have hhigh : b < 0xF0 := h'
  rw [lead?, if_neg htwo, if_neg hlow, if_pos hhigh]

theorem lead?_of_four (h : 0xF0 ≤ b.toNat) (h' : b.toNat < 0xF5) :
    lead? b = some ⟨3, if b == 0xF0 then 0x90 else 0x80, if b == 0xF4 then 0x8F else 0xBF,
      b.toNat - 0xF0⟩ := by
  have htwo : ¬ b < 0xC2 := UInt8.not_lt.mpr (Nat.le_trans (by decide) h)
  have hthree : ¬ b < 0xE0 := UInt8.not_lt.mpr (Nat.le_trans (by decide) h)
  have hlow : ¬ b < 0xF0 := UInt8.not_lt.mpr h
  have hhigh : b < 0xF5 := h'
  rw [lead?, if_neg htwo, if_neg hthree, if_neg hlow, if_pos hhigh]

/-- The second byte lies where the lead byte asks for it: the first lead byte of a length asks for
more than the others, and the last one for less. -/
theorem second_between {first low last high : UInt8} {n : Nat}
    (hlow : b = first → low.toNat ≤ 0x80 + n % 64)
    (hhigh : b = last → 0x80 + n % 64 ≤ high.toNat) :
    (decide ((if b == first then low else 0x80) ≤ (0x80 + n % 64).toUInt8) &&
      decide ((0x80 + n % 64).toUInt8 ≤ if b == last then high else 0xBF)) = true := by
  have htail := isTail_tail n
  rw [isTail, Bool.and_eq_true, decide_eq_true_eq, decide_eq_true_eq] at htail
  rw [Bool.and_eq_true, decide_eq_true_eq, decide_eq_true_eq]
  constructor
  · by_cases h : b = first
    · rw [if_pos (by simpa using h), UInt8.le_iff_toNat_le, toNat_tail]
      exact hlow h
    · rw [if_neg (by simpa using h)]
      exact htail.1
  · by_cases h : b = last
    · rw [if_pos (by simpa using h), UInt8.le_iff_toNat_le, toNat_tail]
      exact hhigh h
    · rw [if_neg (by simpa using h)]
      exact htail.2

theorem not_ascii (h : 0x80 ≤ b.toNat) : ¬ b < 0x80 := UInt8.not_lt.mpr h

end lead

/-! ### Code points

The bytes of a number are one unit, whatever follows them. -/

theorem units_encoded_two {n : Nat} (h : 0x80 ≤ n) (h' : n < 0x800) (more : Bytes) :
    units ((0xC0 + n / 64).toUInt8 :: (0x80 + n % 64).toUInt8 :: more) =
      CodePoint.ofNat? n :: units more := by
  have hbyte : (0xC0 + n / 64).toUInt8.toNat = 0xC0 + n / 64 := toNat_toUInt8 (by omega)
  have hl := lead?_of_two (b := (0xC0 + n / 64).toUInt8) (by omega) (by omega)
  have hvalue : (0xC0 + n / 64 - 0xC0) * 64 + n % 64 = n := by omega
  rw [units_two (not_ascii (by omega)) hl (isTail_tail n) rfl]
  dsimp only
  rw [extend_tail, hbyte, hvalue]

theorem units_encoded_three {n : Nat} (h : 0x800 ≤ n) (h' : n < 0x10000)
    (hplain : ¬ (0xD800 ≤ n ∧ n < 0xE000)) (more : Bytes) :
    units ((0xE0 + n / 4096).toUInt8 :: (0x80 + n / 64 % 64).toUInt8 ::
      (0x80 + n % 64).toUInt8 :: more) = CodePoint.ofNat? n :: units more := by
  have hbyte : (0xE0 + n / 4096).toUInt8.toNat = 0xE0 + n / 4096 := toNat_toUInt8 (by omega)
  have hl := lead?_of_three (b := (0xE0 + n / 4096).toUInt8) (by omega) (by omega)
  have hvalue : ((0xE0 + n / 4096 - 0xE0) * 64 + n / 64 % 64) * 64 + n % 64 = n := by omega
  -- Below are the numbers that two bytes encode, and above, behind the last lead byte, surrogates.
  have hlow : (0xE0 + n / 4096).toUInt8 = 0xE0 → (0xA0 : UInt8).toNat ≤ 0x80 + n / 64 % 64 := by
    intro hb
    have := (congrArg UInt8.toNat hb).symm.trans hbyte
    simp only [UInt8.reduceToNat] at this ⊢
    omega
  have hhigh : (0xE0 + n / 4096).toUInt8 = 0xED → 0x80 + n / 64 % 64 ≤ (0x9F : UInt8).toNat := by
    intro hb
    have := (congrArg UInt8.toNat hb).symm.trans hbyte
    simp only [UInt8.reduceToNat] at this ⊢
    omega
  rw [units_three (not_ascii (by omega)) hl (second_between hlow hhigh) rfl (isTail_tail n) rfl]
  dsimp only
  rw [extend_tail, extend_tail, hbyte, hvalue]

theorem units_encoded_four {n : Nat} (h : 0x10000 ≤ n) (h' : n < 0x110000) (more : Bytes) :
    units ((0xF0 + n / 262144).toUInt8 :: (0x80 + n / 4096 % 64).toUInt8 ::
      (0x80 + n / 64 % 64).toUInt8 :: (0x80 + n % 64).toUInt8 :: more) =
      CodePoint.ofNat? n :: units more := by
  have hbyte : (0xF0 + n / 262144).toUInt8.toNat = 0xF0 + n / 262144 := toNat_toUInt8 (by omega)
  have hl := lead?_of_four (b := (0xF0 + n / 262144).toUInt8) (by omega) (by omega)
  have hvalue : (((0xF0 + n / 262144 - 0xF0) * 64 + n / 4096 % 64) * 64 + n / 64 % 64) * 64 +
      n % 64 = n := by omega
  have hlow : (0xF0 + n / 262144).toUInt8 = 0xF0 → (0x90 : UInt8).toNat ≤ 0x80 + n / 4096 % 64 := by
    intro hb
    have := (congrArg UInt8.toNat hb).symm.trans hbyte
    simp only [UInt8.reduceToNat] at this ⊢
    omega
  have hhigh : (0xF0 + n / 262144).toUInt8 = 0xF4 → 0x80 + n / 4096 % 64 ≤ (0x8F : UInt8).toNat := by
    intro hb
    have := (congrArg UInt8.toNat hb).symm.trans hbyte
    simp only [UInt8.reduceToNat] at this ⊢
    omega
  rw [units_four (not_ascii (by omega)) hl (second_between hlow hhigh) rfl (isTail_tail (n / 64)) rfl
    (isTail_tail n)]
  dsimp only
  rw [extend_tail, extend_tail, extend_tail, hbyte, hvalue]

theorem ofNat?_val (c : CodePoint) : CodePoint.ofNat? c.val = some c := by
  rw [CodePoint.ofNat?, dif_pos c.isLt]

/-- The bytes of a code point are one unit. -/
theorem units_encodePoint? {c : CodePoint} {bytes : Bytes} (h : encodePoint? c = some bytes)
    (more : Bytes) : units (bytes ++ more) = some c :: units more := by
  unfold encodePoint? at h
  dsimp only at h
  rw [← ofNat?_val c]
  split_ifs at h with h1 h2 h3 h4
  · obtain rfl := Option.some.inj h
    have hbyte : c.val.toUInt8.toNat = c.val := toNat_toUInt8 (by omega)
    have hascii : c.val.toUInt8 < 0x80 := by
      rw [UInt8.lt_iff_toNat_lt, hbyte]
      exact h1
    have hback : CodePoint.ofByte c.val.toUInt8 = c := by
      rw [CodePoint.ofByte]
      congr
    rw [List.singleton_append, units_ascii hascii, hback, ofNat?_val]
  · obtain rfl := Option.some.inj h
    exact units_encoded_two (by omega) h2 more
  · obtain rfl := Option.some.inj h
    exact units_encoded_three (by omega) h4 (by simpa [CodePoint.isSurrogate] using h3) more
  · obtain rfl := Option.some.inj h
    exact units_encoded_four (by omega) c.isLt more

/-- Surrogates have no bytes, and all other code points have some. -/
theorem encodePoint?_eq_none_iff (c : CodePoint) : encodePoint? c = none ↔ c.isSurrogate = true := by
  unfold encodePoint?
  simp only [CodePoint.isSurrogate, Bool.and_eq_true, decide_eq_true_eq]
  split_ifs
  · simp only [false_iff]
    omega
  · simp only [false_iff]
    omega
  · simp_all
  · simp_all
  · simp_all

/-! ### Texts -/

theorem encode?_cons_eq_some {c : CodePoint} {t : Text} {bytes : Bytes}
    (h : encode? (c :: t) = some bytes) :
    ∃ first rest, encodePoint? c = some first ∧ encode? t = some rest ∧ bytes = first ++ rest := by
  rw [encode?, List.mapM_cons, Option.map_eq_some_iff] at h
  obtain ⟨parts, hparts, rfl⟩ := h
  obtain ⟨first, hfirst, hparts⟩ := Option.bind_eq_some_iff.mp hparts
  obtain ⟨more, hmore, hparts⟩ := Option.bind_eq_some_iff.mp hparts
  cases hparts
  exact ⟨first, more.flatten, hfirst, by rw [encode?, hmore]; rfl, rfl⟩

theorem units_encode? {t : Text} {bytes : Bytes} (h : encode? t = some bytes) :
    units bytes = t.map some := by
  induction t generalizing bytes with
  | nil =>
      cases h
      rfl
  | cons c t ih =>
      obtain ⟨first, rest, hfirst, hrest, rfl⟩ := encode?_cons_eq_some h
      rw [units_encodePoint? hfirst, ih hrest, List.map_cons]

/-- An encoded text is decoded. -/
theorem decode?_encode? {t : Text} {bytes : Bytes} (h : encode? t = some bytes) :
    decode? bytes = some t := by
  rw [decode?, units_encode? h]
  clear h
  induction t with
  | nil => rfl
  | cons c t ih =>
      rw [List.map_cons, List.mapM_cons, ih]
      rfl

end PluginManifest.Utf8
