import PluginManifest.Path.FileName
import PluginManifest.Proofs.Path
import PluginManifest.Proofs.Utf8Encoding

/-! # Texts of names

The text of a name is encoded as the bytes of the name (`encode?_decode`), so different names have
different texts (`text_injective`), and a name that is UTF-8 has the text that it encodes
(`decode_of_encode?`).  The text of a name is a component of a path (`isName_text`). -/

namespace PluginManifest.FileName

open PluginManifest.Path (IsName counts)

/-! ### One code point -/

theorem isSurrogate_of_escaped? {c : CodePoint} {b : UInt8} (h : escaped? c = some b) :
    c.isSurrogate = true := by
  unfold escaped? at h
  split_ifs at h with hc
  have hlow : 0xD800 ≤ c.val := by omega
  have hhigh : c.val < 0xE000 := by omega
  rw [CodePoint.isSurrogate, decide_eq_true hlow, decide_eq_true hhigh]
  rfl

/-- What UTF-8 encodes is encoded so in a name. -/
theorem encodePoint?_of_utf8 {c : CodePoint} {code : Bytes} (h : Utf8.encodePoint? c = some code) :
    encodePoint? c = some code := by
  unfold encodePoint?
  cases hc : escaped? c with
  | none => exact h
  | some b =>
      rw [(Utf8.encodePoint?_eq_none_iff c).mpr (isSurrogate_of_escaped? hc)] at h
      cases h

/-- A byte outside of ASCII is given back for its code point. -/
theorem encodePoint?_escape {b : UInt8} (h : ¬ b < 0x80) : encodePoint? (escape b) = some [b] := by
  have hlow : 0x80 ≤ b.toNat := UInt8.not_lt.mp h
  have hhigh := b.toNat_lt
  have hb : (0xDC00 + b.toNat - 0xDC00).toUInt8 = b := by
    rw [Nat.add_sub_cancel_left]
    exact UInt8.ofNat_toNat
  have hesc : escaped? (escape b) = some b := by
    rw [escaped?, if_pos (by simp only [escape]; omega)]
    exact congrArg some hb
  rw [encodePoint?, hesc]

theorem encodePoint?_ofByte {b : UInt8} (h : b < 0x80) :
    Utf8.encodePoint? (CodePoint.ofByte b) = some [b] := by
  have hval : (CodePoint.ofByte b).val < 0x80 := h
  have hb : (CodePoint.ofByte b).val.toUInt8 = b := UInt8.ofNat_toNat
  unfold Utf8.encodePoint?
  dsimp only
  rw [if_pos hval, hb]

theorem ne_nil_of_encodePoint? {c : CodePoint} {code : Bytes}
    (h : Utf8.encodePoint? c = some code) : code ≠ [] := by
  -- The code point is the first unit of the bytes that encode it, and no bytes have no unit.
  rintro rfl
  have hunits := Utf8.units_encodePoint? h []
  rw [List.nil_append, Utf8.units] at hunits
  cases hunits

/-! ### Encoding a text -/

theorem encode?_cons {c : CodePoint} {first : Bytes} (h : encodePoint? c = some first) (t : Text) :
    encode? (c :: t) = (encode? t).map (first ++ ·) := by
  unfold encode?
  rw [List.mapM_cons, h]
  cases t.mapM encodePoint? with
  | none => rfl
  | some parts => rfl

theorem encode?_cons_eq_some {c : CodePoint} {t : Text} {bytes : Bytes}
    (h : encode? (c :: t) = some bytes) :
    ∃ first rest, encodePoint? c = some first ∧ encode? t = some rest ∧ bytes = first ++ rest := by
  cases hc : encodePoint? c with
  | none =>
      rw [encode?, List.mapM_cons, hc] at h
      cases h
  | some first =>
      rw [encode?_cons hc, Option.map_eq_some_iff] at h
      obtain ⟨rest, hrest, rfl⟩ := h
      exact ⟨first, rest, rfl, hrest, rfl⟩

/-- The bytes of each code point are among the bytes of the text. -/
theorem subset_of_encode? {t : Text} {bytes code : Bytes} {c : CodePoint}
    (h : encode? t = some bytes) (hc : c ∈ t) (hcode : encodePoint? c = some code) :
    code ⊆ bytes := by
  induction t generalizing bytes with
  | nil => exact absurd hc List.not_mem_nil
  | cons d t ih =>
      obtain ⟨first, rest, hfirst, hrest, rfl⟩ := encode?_cons_eq_some h
      rcases List.mem_cons.mp hc with rfl | hc
      · rw [hcode] at hfirst
        cases hfirst
        exact List.subset_append_left _ _
      · exact List.Subset.trans (ih hrest hc) (List.subset_append_right _ _)

/-! ### Decoding -/

/-- The code point that bytes start with is the one whose encoding they start with. -/
theorem encodedAt?_eq_some {bytes code : Bytes} {c : CodePoint}
    (h : encodedAt? bytes = some (c, code)) :
    Utf8.encodePoint? c = some code ∧ code <+: bytes := by
  unfold encodedAt? at h
  cases hu : (Utf8.units bytes).head? with
  | none => simp [hu] at h
  | some unit =>
      cases unit with
      | none => simp [hu] at h
      | some d =>
          rw [hu] at h
          dsimp only at h
          cases hd : Utf8.encodePoint? d with
          | none => simp [hd] at h
          | some e =>
              rw [hd] at h
              dsimp only at h
              split_ifs at h with hp
              cases h
              exact ⟨hd, List.isPrefixOf_iff_prefix.mp hp⟩

/-- The bytes of a code point are found, whatever follows them. -/
theorem encodedAt?_append {c : CodePoint} {code : Bytes} (h : Utf8.encodePoint? c = some code)
    (more : Bytes) : encodedAt? (code ++ more) = some (c, code) := by
  have hp : code.isPrefixOf (code ++ more) = true :=
    List.isPrefixOf_iff_prefix.mpr (List.prefix_append code more)
  rw [encodedAt?, Utf8.units_encodePoint? h, List.head?_cons]
  simp only [h, hp, if_true]

theorem decodeFrom_eq_drop (skip : Nat) (bytes : Bytes) :
    decodeFrom skip bytes = decodeFrom 0 (bytes.drop skip) := by
  induction bytes generalizing skip with
  | nil => cases skip <;> rfl
  | cons b rest ih =>
      cases skip with
      | zero => rfl
      | succ skip =>
          rw [decodeFrom, List.drop_succ_cons]
          exact ih skip

theorem decode_append {c : CodePoint} {code : Bytes} (h : Utf8.encodePoint? c = some code)
    (more : Bytes) : decode (code ++ more) = c :: decode more := by
  have hcode := ne_nil_of_encodePoint? h
  obtain ⟨b, rest, rfl⟩ := List.exists_cons_of_ne_nil hcode
  have hfind := encodedAt?_append h more
  rw [List.cons_append] at hfind ⊢
  unfold decode
  rw [decodeFrom, hfind]
  dsimp only
  rw [decodeFrom_eq_drop, List.length_cons, Nat.add_sub_cancel, List.drop_left]

/-- A name that is UTF-8 has the text that it encodes. -/
theorem decode_of_encode? {t : Text} {bytes : Bytes} (h : Utf8.encode? t = some bytes) :
    decode bytes = t := by
  induction t generalizing bytes with
  | nil =>
      cases h
      rfl
  | cons c t ih =>
      obtain ⟨first, rest, hfirst, hrest, rfl⟩ := Utf8.encode?_cons_eq_some h
      rw [decode_append hfirst, ih hrest]

/-- No byte is lost and none is changed, wherever the decoding starts. -/
theorem encode?_decodeFrom (skip : Nat) (bytes : Bytes) :
    encode? (decodeFrom skip bytes) = some (bytes.drop skip) := by
  induction bytes generalizing skip with
  | nil => cases skip <;> rfl
  | cons b rest ih =>
      cases skip with
      | succ skip =>
          rw [decodeFrom, List.drop_succ_cons]
          exact ih skip
      | zero =>
          cases hfind : encodedAt? (b :: rest) with
          | none =>
              have hb : ¬ b < 0x80 := by
                intro hb
                have := encodedAt?_append (encodePoint?_ofByte hb) rest
                rw [List.singleton_append, hfind] at this
                cases this
              rw [decodeFrom, hfind]
              dsimp only
              rw [encode?_cons (encodePoint?_escape hb), ih 0]
              rfl
          | some found =>
              obtain ⟨c, code⟩ := found
              obtain ⟨hc, more, hmore⟩ := encodedAt?_eq_some hfind
              obtain ⟨b', after, rfl⟩ := List.exists_cons_of_ne_nil (ne_nil_of_encodePoint? hc)
              rw [List.cons_append] at hmore
              obtain ⟨rfl, rfl⟩ := List.cons.inj hmore
              rw [decodeFrom, hfind]
              dsimp only
              rw [encode?_cons (encodePoint?_of_utf8 hc), ih, List.length_cons, Nat.add_sub_cancel,
                List.drop_left]
              rfl

/-- The text of bytes is encoded as these bytes. -/
theorem encode?_decode (bytes : Bytes) : encode? (decode bytes) = some bytes :=
  encode?_decodeFrom 0 bytes

/-! ### Names -/

variable (name : FileName)

theorem encode?_text : encode? name.text = some name.bytes := encode?_decode name.bytes

/-- Different names have different texts. -/
theorem text_injective : Function.Injective text := by
  intro a b h
  have hbytes : some a.bytes = some b.bytes := by rw [← encode?_text, ← encode?_text, h]
  cases a
  cases b
  cases hbytes
  rfl

/-- The text of a name is a component of a path. -/
theorem isName_text : IsName name.text := by
  have henc := encode?_text name
  obtain ⟨hempty, hdot, -, hbytes⟩ := name.allowed
  refine ⟨?_, ?_⟩
  · have hne : name.text ≠ [] := by
      intro h
      rw [h] at henc
      exact hempty (Option.some.inj henc).symm
    have hnd : name.text ≠ Text.ofString "." := by
      intro h
      rw [h] at henc
      exact hdot (Option.some.inj henc).symm
    simp [counts, hne, hnd]
  · intro hslash
    have hcode : encodePoint? (CodePoint.ofChar '/') = some [0x2F] := by decide
    have hmem : (0x2F : UInt8) ∈ name.bytes :=
      subset_of_encode? henc hslash hcode List.mem_cons_self
    exact (hbytes _ hmem).1 rfl

end PluginManifest.FileName
