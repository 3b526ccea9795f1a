import PluginManifest.Trivia
import Mathlib.Data.List.Infix
import Mathlib.Data.List.Nodup

/-! # Comments of one run of trivia

A scan takes one piece of trivia after another, so its laws go by induction over the pieces
(`pieces_induction`, with the equations of `scan` for one piece).  The comments of a scan
come in order and do not overlap (`comments_pairwise`).  No comment of a run is both trailing and
leading (`comments_disjoint`), except at the start of the text, where the trailing comments are the
first of the leading ones (`comments_zero_isPrefix`). -/

namespace PluginManifest.Trivia

/-- What holds where no piece of trivia stands, and before a piece when it holds behind it, holds
everywhere. -/
theorem pieces_induction {motive : Nat → Bytes → Prop}
    (stop : ∀ pos bs, piece? bs = none → motive pos bs)
    (step : ∀ pos bs piece n, piece? bs = some (piece, n) → motive (pos + n) (bs.drop n) →
      motive pos bs) :
    ∀ pos bs, motive pos bs := by
  intro pos bs
  induction hl : bs.length using Nat.strong_induction_on generalizing pos bs with
  | _ l ih =>
      cases h : piece? bs with
      | none => exact stop pos bs h
      | some found =>
          obtain ⟨piece, n⟩ := found
          have hn := piece?_pos h
          have hbs := piece?_ne_nil h
          refine step pos bs piece n h (ih (bs.drop n).length ?_ (pos + n) (bs.drop n) rfl)
          rw [List.length_drop]
          omega

/-! ### One piece -/

section equations

variable (trailing collecting : Bool) (pos : Nat) {bs : Bytes} {n : Nat}

theorem scan_of_none (h : piece? bs = none) : scan trailing collecting pos bs = [] := by
  rw [scan]
  split
  · rfl
  · rename_i heq
    rw [h] at heq
    cases heq

theorem scan_of_piece {piece : Piece} (h : piece? bs = some (piece, n)) :
    scan trailing collecting pos bs =
      match piece with
      | .space => scan trailing collecting (pos + n) (bs.drop n)
      | .lineBreak => if trailing then [] else scan trailing true (pos + n) (bs.drop n)
      | .comment multiline =>
        if collecting then
          ⟨pos, pos + n, multiline⟩ :: scan trailing collecting (pos + n) (bs.drop n)
        else scan trailing collecting (pos + n) (bs.drop n) := by
  rw [scan]
  split
  · rename_i heq
    rw [h] at heq
    cases heq
  · rename_i heq
    rw [h] at heq
    cases heq
    rfl

end equations

/-! ### Order -/

/-- The comments of a scan lie at or behind its start, and none of them is empty. -/
theorem scan_bounds (trailing : Bool) (pos : Nat) (bs : Bytes) :
    ∀ collecting, ∀ r ∈ scan trailing collecting pos bs, pos ≤ r.pos ∧ r.pos < r.stop := by
  induction pos, bs using pieces_induction with
  | stop pos bs h =>
      intro collecting r hr
      rw [scan_of_none _ _ _ h] at hr
      cases hr
  | step pos bs piece n h ih =>
      have hn := piece?_pos h
      have later : ∀ collecting, ∀ r ∈ scan trailing collecting (pos + n) (bs.drop n),
          pos ≤ r.pos ∧ r.pos < r.stop := by
        intro collecting r hr
        have := ih collecting r hr
        omega
      intro collecting r hr
      rw [scan_of_piece _ _ _ h] at hr
      cases piece with
      | space => exact later _ r hr
      | lineBreak =>
          cases trailing with
          | true => cases hr
          | false => exact later _ r hr
      | comment multiline =>
          cases collecting with
          | false => exact later _ r hr
          | true =>
              rcases List.mem_cons.mp hr with rfl | hr
              · exact ⟨le_rfl, by show pos < pos + n; omega⟩
              · exact later _ r hr

/-- The comments of a scan come in order and do not overlap. -/
theorem scan_pairwise (trailing : Bool) (pos : Nat) (bs : Bytes) :
    ∀ collecting, (scan trailing collecting pos bs).Pairwise fun a b => a.stop ≤ b.pos := by
  induction pos, bs using pieces_induction with
  | stop pos bs h =>
      intro collecting
      rw [scan_of_none _ _ _ h]
      exact .nil
  | step pos bs piece n h ih =>
      intro collecting
      rw [scan_of_piece _ _ _ h]
      cases piece with
      | space => exact ih collecting
      | lineBreak =>
          cases trailing with
          | true => exact .nil
          | false => exact ih true
      | comment multiline =>
          cases collecting with
          | false => exact ih false
          | true =>
              refine .cons ?_ (ih true)
              intro r hr
              exact (scan_bounds _ _ _ _ r hr).1

/-- Comments before the first line break end before those that only count behind it. -/
theorem scan_trailing_before_leading (pos : Nat) (bs : Bytes) :
    ∀ a ∈ scan true true pos bs, ∀ b ∈ scan false false pos bs, a.stop ≤ b.pos := by
  induction pos, bs using pieces_induction with
  | stop pos bs h =>
      intro a ha
      rw [scan_of_none _ _ _ h] at ha
      cases ha
  | step pos bs piece n h ih =>
      intro a ha b hb
      rw [scan_of_piece _ _ _ h] at ha hb
      cases piece with
      | space => exact ih a ha b hb
      | lineBreak => cases ha
      | comment multiline =>
          rcases List.mem_cons.mp ha with rfl | ha
          · exact (scan_bounds _ _ _ _ b hb).1
          · exact ih a ha b hb

/-- Where all comments count, those before the first line break are the first ones. -/
theorem scan_trailing_isPrefix_leading (pos : Nat) (bs : Bytes) :
    scan true true pos bs <+: scan false true pos bs := by
  induction pos, bs using pieces_induction with
  | stop pos bs h =>
      rw [scan_of_none _ _ _ h, scan_of_none _ _ _ h]
  | step pos bs piece n h ih =>
      rw [scan_of_piece _ _ _ h, scan_of_piece _ _ _ h]
      cases piece with
      | space => exact ih
      | lineBreak => exact List.nil_prefix
      | comment multiline => exact (List.prefix_cons_inj _).mpr ih

/-! ### The comments at an offset -/

theorem comments_bounds (text : Bytes) (pos : Nat) (trailing : Bool) :
    ∀ r ∈ comments text pos trailing, pos ≤ r.pos ∧ r.pos < r.stop := by
  intro r hr
  unfold comments at hr
  by_cases h : pos = 0
  · rw [if_pos h] at hr
    have := scan_bounds _ _ _ _ r hr
    omega
  · rw [if_neg h] at hr
    exact scan_bounds _ _ _ _ r hr

theorem comments_pairwise (text : Bytes) (pos : Nat) (trailing : Bool) :
    (comments text pos trailing).Pairwise fun a b => a.stop ≤ b.pos := by
  unfold comments
  split_ifs
  · exact scan_pairwise _ _ _ _
  · exact scan_pairwise _ _ _ _

/-- No comment is found twice. -/
theorem comments_nodup (text : Bytes) (pos : Nat) (trailing : Bool) :
    (comments text pos trailing).Nodup := by
  refine (comments_pairwise text pos trailing).imp_of_mem ?_
  intro a b ha hb hab he
  have := comments_bounds text pos trailing b hb
  rw [he] at hab
  omega

/-- Behind the start of the text a comment is either trailing or leading. -/
theorem comments_disjoint (text : Bytes) {pos : Nat} (hpos : pos ≠ 0) :
    List.Disjoint (comments text pos true) (comments text pos false) := by
  intro r ht hl
  have hr := comments_bounds text pos true r ht
  unfold comments at ht hl
  rw [if_neg hpos] at ht hl
  have := scan_trailing_before_leading _ _ r ht r hl
  omega

/-- At the start of the text the trailing comments are leading ones too. -/
theorem comments_zero_isPrefix (text : Bytes) :
    comments text 0 true <+: comments text 0 false :=
  scan_trailing_isPrefix_leading _ _

end PluginManifest.Trivia
