import PluginManifest.Proofs.Trivia
import Mathlib.Data.List.Infix
import Mathlib.Data.List.Pairwise
import Mathlib.Data.List.TakeWhile

/-! # The grammar of trivia

A second account of trivia, by spellings instead of a scan.  `Piece.Spelled piece unit rest` says
that the bytes `unit` are a piece when `rest` follows them: a blank, a line break, a line comment
up to the next line break, or a block comment up to the first `*/` behind its opening.  A `Chain` is a
sequence of pieces, each where the one before it ends, and a run (`IsRun`) is the longest chain
from an offset.

Every offset has exactly one run, and the scan finds its comments: `comments_of_run` says that the
trailing comments are those before the first line break of the run and the leading ones those
behind it, and that at the start of the text all comments are leading. -/

namespace PluginManifest.Trivia

/-- The mark that closes a block comment. -/
def closing : Bytes := [0x2A, 0x2F]

/-- The bytes `unit` spell a piece of trivia when the bytes `rest` follow them. -/
inductive Piece.Spelled : Piece → Bytes → Bytes → Prop
  | blank {b : UInt8} {rest : Bytes} : b ∈ [0x20, 0x09, 0x0B, 0x0C] → Spelled .space [b] rest
  | noBreakSpace {rest : Bytes} : Spelled .space [0xC2, 0xA0] rest
  | byteOrderMark {rest : Bytes} : Spelled .space [0xEF, 0xBB, 0xBF] rest
  | crlf {rest : Bytes} : Spelled .lineBreak [0x0D, 0x0A] rest
  | cr {rest : Bytes} : rest.head? ≠ some 0x0A → Spelled .lineBreak [0x0D] rest
  | lf {rest : Bytes} : Spelled .lineBreak [0x0A] rest
  | line {body rest : Bytes} : (∀ b ∈ body, b ≠ 0x0D ∧ b ≠ 0x0A) →
      (∀ b ∈ rest.head?, b = 0x0D ∨ b = 0x0A) → Spelled (.comment false) (0x2F :: 0x2F :: body) rest
  | closed {body rest : Bytes} : ¬ closing <:+: body ++ [0x2A] →
      Spelled (.comment true) (0x2F :: 0x2A :: body ++ closing) rest
  | unclosed {body : Bytes} : ¬ closing <:+: body → Spelled (.comment true) (0x2F :: 0x2A :: body) []

/-! ### Lengths of comments -/

theorem isBreak_iff {b : UInt8} : isBreak b = true ↔ b = 0x0D ∨ b = 0x0A := by
  simp [isBreak, or_comm]

theorem isSpace_iff {b : UInt8} : isSpace b = true ↔ b ∈ [0x20, 0x09, 0x0B, 0x0C] := by
  simp [isSpace, or_assoc]

/-- A line comment ends where the first line break stands. -/
theorem lineLength_append {body rest : Bytes} (hbody : ∀ b ∈ body, b ≠ 0x0D ∧ b ≠ 0x0A)
    (hrest : ∀ b ∈ rest.head?, b = 0x0D ∨ b = 0x0A) : lineLength (body ++ rest) = body.length := by
  have hkept : ∀ b ∈ body, (!isBreak b) = true := by
    intro b hb
    obtain ⟨h1, h2⟩ := hbody b hb
    simp [isBreak, h1, h2]
  have hrest : rest.takeWhile (!isBreak ·) = [] := by
    cases rest with
    | nil => rfl
    | cons b more =>
        have hb := isBreak_iff.mpr (hrest b rfl)
        simp [hb]
  rw [lineLength, List.takeWhile_append_of_pos hkept, hrest, List.append_nil]

theorem exists_line (bs : Bytes) : ∃ body rest, bs = body ++ rest ∧
    (∀ b ∈ body, b ≠ 0x0D ∧ b ≠ 0x0A) ∧ ∀ b ∈ rest.head?, b = 0x0D ∨ b = 0x0A := by
  refine ⟨bs.takeWhile (!isBreak ·), bs.dropWhile (!isBreak ·), ?_, ?_, ?_⟩
  · exact List.takeWhile_append_dropWhile.symm
  · intro b hb
    have := List.mem_takeWhile_imp hb
    simpa [isBreak, and_comm] using this
  · intro b hb
    have := List.head?_dropWhile_not (!isBreak ·) bs
    rw [Option.mem_def.mp hb] at this
    simpa [isBreak_iff] using this

/-- The closing mark stands at the front, or in what follows the first byte. -/
theorem closing_isInfix_cons {a : UInt8} {bs : Bytes} :
    closing <:+: a :: bs ↔ (a = 0x2A ∧ bs.head? = some 0x2F) ∨ closing <:+: bs := by
  rw [List.infix_cons_iff]
  refine or_congr_left ?_
  cases bs with
  | nil => simp [closing, List.prefix_cons_iff]
  | cons b more => simp [closing, List.cons_prefix_cons, eq_comm]

theorem blockLength_cons (a : UInt8) (bs : Bytes) :
    blockLength (a :: bs) = if a = 0x2A ∧ bs.head? = some 0x2F then 2 else blockLength bs + 1 := by
  cases bs with
  | nil => simp [blockLength]
  | cons b rest => simp [blockLength]

/-- A block comment ends with the first closing mark. -/
theorem blockLength_closed {body : Bytes} (h : ¬ closing <:+: body ++ [0x2A]) (rest : Bytes) :
    blockLength (body ++ (closing ++ rest)) = body.length + 2 := by
  induction body with
  | nil => rfl
  | cons a body ih =>
      rw [List.cons_append, closing_isInfix_cons, not_or] at h
      obtain ⟨hfront, hlater⟩ := h
      have hhead : (body ++ (closing ++ rest)).head? = (body ++ [0x2A]).head? := by
        cases body with
        | nil => rfl
        | cons b more => rfl
      rw [List.cons_append, blockLength_cons, hhead, if_neg hfront, ih hlater, List.length_cons]

/-- A block comment without a closing mark goes on to the end. -/
theorem blockLength_unclosed {body : Bytes} (h : ¬ closing <:+: body) :
    blockLength body = body.length := by
  induction body with
  | nil => rfl
  | cons a body ih =>
      rw [closing_isInfix_cons, not_or] at h
      rw [blockLength_cons, if_neg h.1, ih h.2, List.length_cons]

/-- Bytes are split at their first closing mark, or they have none. -/
theorem exists_block (bs : Bytes) :
    (∃ body rest, bs = body ++ (closing ++ rest) ∧ ¬ closing <:+: body ++ [0x2A]) ∨
      ¬ closing <:+: bs := by
  induction bs with
  | nil => exact .inr (by decide)
  | cons a bs ih =>
      by_cases hfront : a = 0x2A ∧ bs.head? = some 0x2F
      · obtain ⟨rfl, hhead⟩ := hfront
        obtain ⟨rest, rfl⟩ := List.head?_eq_some_iff.mp hhead
        exact .inl ⟨[], rest, rfl, by decide⟩
      · rcases ih with ⟨body, rest, rfl, hbody⟩ | hnone
        · refine .inl ⟨a :: body, rest, rfl, ?_⟩
          rw [List.cons_append, closing_isInfix_cons, not_or]
          refine ⟨?_, hbody⟩
          cases body with
          | nil => simp
          | cons b more => simpa using hfront
        · exact .inr (by rw [closing_isInfix_cons, not_or]; exact ⟨hfront, hnone⟩)

/-! ### One piece -/

/-- What is spelled is found. -/
theorem Piece.Spelled.piece?_eq {piece : Piece} {unit rest : Bytes} (h : piece.Spelled unit rest) :
    piece? (unit ++ rest) = some (piece, unit.length) := by
  cases h with
  | blank hb =>
      simp only [List.mem_cons, List.not_mem_nil, or_false] at hb
      rcases hb with rfl | rfl | rfl | rfl <;> rfl
  | noBreakSpace => rfl
  | byteOrderMark => rfl
  | crlf => rfl
  | cr hrest =>
      cases rest with
      | nil => rfl
      | cons b more =>
          have hb : b ≠ 0x0A := fun e => hrest (by rw [e]; rfl)
          simp [piece?, isBreak, hb]
  | lf => rfl
  | line hbody hrest =>
      show some (Piece.comment false, 2 + lineLength (_ ++ rest)) = _
      rw [lineLength_append hbody hrest, List.length_cons, List.length_cons, Nat.add_comm]
  | @closed body _ hbody =>
      show some (Piece.comment true, 2 + blockLength (body ++ closing ++ rest)) = _
      rw [List.append_assoc, blockLength_closed hbody]
      simp only [closing, List.length_append, List.length_cons, List.length_nil]
      congr 2
      omega
  | @unclosed body hbody =>
      show some (Piece.comment true, 2 + blockLength (body ++ [])) = _
      rw [List.append_nil, blockLength_unclosed hbody, List.length_cons, List.length_cons,
        Nat.add_comm]

/-- What is found is spelled. -/
theorem spelled_of_piece? {bs : Bytes} {piece : Piece} {n : Nat} (h : piece? bs = some (piece, n)) :
    ∃ unit rest, bs = unit ++ rest ∧ unit.length = n ∧ piece.Spelled unit rest := by
  unfold piece? at h
  split at h
  case h_1 rest =>
    cases h
    exact ⟨_, rest, rfl, rfl, .crlf⟩
  case h_2 rest =>
    cases h
    exact ⟨_, rest, rfl, rfl, .noBreakSpace⟩
  case h_3 rest =>
    cases h
    exact ⟨_, rest, rfl, rfl, .byteOrderMark⟩
  case h_4 bs =>
    cases h
    obtain ⟨body, rest, rfl, hbody, hrest⟩ := exists_line bs
    refine ⟨_, rest, rfl, ?_, .line hbody hrest⟩
    rw [lineLength_append hbody hrest, List.length_cons, List.length_cons]
    omega
  case h_5 bs =>
    cases h
    obtain ⟨body, rest, rfl, hbody⟩ | hnone := exists_block bs
    · refine ⟨_, rest, by simp, ?_, .closed hbody⟩
      rw [blockLength_closed hbody]
      simp only [closing, List.length_append, List.length_cons, List.length_nil]
      omega
    · refine ⟨_, [], (List.append_nil _).symm, ?_, .unclosed hnone⟩
      rw [blockLength_unclosed hnone, List.length_cons, List.length_cons]
      omega
  case h_6 b rest hcrlf _ _ _ _ =>
    by_cases hbreak : isBreak b = true
    · rw [if_pos hbreak] at h
      cases h
      rcases isBreak_iff.mp hbreak with rfl | rfl
      · refine ⟨_, rest, rfl, rfl, .cr ?_⟩
        intro hhead
        obtain ⟨more, rfl⟩ := List.head?_eq_some_iff.mp hhead
        exact hcrlf more rfl rfl
      · exact ⟨_, rest, rfl, rfl, .lf⟩
    · rw [if_neg hbreak] at h
      by_cases hspace : isSpace b = true
      · rw [if_pos hspace] at h
        cases h
        exact ⟨_, rest, rfl, rfl, .blank (isSpace_iff.mp hspace)⟩
      · rw [if_neg hspace] at h
        cases h
  case h_7 => cases h

/-! ### Runs -/

/-- A piece and its range of bytes. -/
structure Placed where
  /-- What the piece is. -/
  piece : Piece
  /-- The offset of its first byte. -/
  start : Nat
  /-- The offset after its last byte. -/
  stop : Nat
deriving DecidableEq

/-- Pieces of trivia one after another from an offset, where `bs` are the bytes from there. -/
inductive Chain : Nat → Bytes → List Placed → Prop
  | nil (pos : Nat) (bs : Bytes) : Chain pos bs []
  | cons {pos : Nat} {piece : Piece} {unit rest : Bytes} {ps : List Placed} :
      piece.Spelled unit rest → Chain (pos + unit.length) rest ps →
      Chain pos (unit ++ rest) (⟨piece, pos, pos + unit.length⟩ :: ps)

/-- The longest chain from an offset. -/
structure IsRun (pos : Nat) (bs : Bytes) (ps : List Placed) : Prop where
  chain : Chain pos bs ps
  longest : ∀ qs, Chain pos bs qs → qs.length ≤ ps.length

section chains

variable {pos n : Nat} {bs : Bytes} {piece : Piece} {ps : List Placed}

theorem chain_iff_of_none (h : piece? bs = none) : Chain pos bs ps ↔ ps = [] := by
  constructor
  · intro hc
    cases hc with
    | nil => rfl
    | cons hs _ =>
        rw [hs.piece?_eq] at h
        cases h
  · rintro rfl
    exact .nil _ _

/-- The first piece of a chain is the one that is found. -/
theorem chain_iff_of_piece (h : piece? bs = some (piece, n)) : Chain pos bs ps ↔
    ps = [] ∨ ∃ more, ps = ⟨piece, pos, pos + n⟩ :: more ∧ Chain (pos + n) (bs.drop n) more := by
  constructor
  · intro hc
    cases hc with
    | nil => exact .inl rfl
    | cons hs hmore =>
        rw [hs.piece?_eq] at h
        cases h
        exact .inr ⟨_, rfl, by rwa [List.drop_left]⟩
  · rintro (rfl | ⟨more, rfl, hmore⟩)
    · exact .nil _ _
    · obtain ⟨unit, rest, rfl, rfl, hs⟩ := spelled_of_piece? h
      rw [List.drop_left] at hmore
      exact .cons hs hmore

theorem isRun_iff_of_none (h : piece? bs = none) : IsRun pos bs ps ↔ ps = [] := by
  constructor
  · intro hr
    exact (chain_iff_of_none h).mp hr.chain
  · rintro rfl
    refine ⟨.nil _ _, ?_⟩
    intro qs hq
    rw [(chain_iff_of_none h).mp hq]

/-- A run goes on with the piece that is found. -/
theorem isRun_iff_of_piece (h : piece? bs = some (piece, n)) : IsRun pos bs ps ↔
    ∃ more, ps = ⟨piece, pos, pos + n⟩ :: more ∧ IsRun (pos + n) (bs.drop n) more := by
  have longer : ∀ qs, Chain (pos + n) (bs.drop n) qs →
      Chain pos bs (⟨piece, pos, pos + n⟩ :: qs) :=
    fun qs hq => (chain_iff_of_piece h).mpr (.inr ⟨qs, rfl, hq⟩)
  constructor
  · rintro ⟨hchain, hlongest⟩
    rcases (chain_iff_of_piece h).mp hchain with rfl | ⟨more, rfl, hmore⟩
    · have := hlongest _ (longer [] (.nil _ _))
      simp at this
    · refine ⟨more, rfl, hmore, ?_⟩
      intro qs hq
      have := hlongest _ (longer qs hq)
      simpa using this
  · rintro ⟨more, rfl, hrun⟩
    refine ⟨longer more hrun.chain, ?_⟩
    intro qs hq
    rcases (chain_iff_of_piece h).mp hq with rfl | ⟨later, rfl, hlater⟩
    · simp
    · have := hrun.longest later hlater
      simpa using this

end chains

/-- What holds of the empty run where no piece stands, and of a run when it holds of the run behind
its first piece, holds of every run. -/
theorem IsRun.pieces_induction {motive : ∀ pos bs ps, IsRun pos bs ps → Prop}
    (stop : ∀ pos bs (h : IsRun pos bs []), piece? bs = none → motive pos bs [] h)
    (step : ∀ pos bs piece n more (h : IsRun pos bs (⟨piece, pos, pos + n⟩ :: more))
      (later : IsRun (pos + n) (bs.drop n) more), piece? bs = some (piece, n) →
      motive (pos + n) (bs.drop n) more later → motive pos bs (⟨piece, pos, pos + n⟩ :: more) h)
    {pos : Nat} {bs : Bytes} {ps : List Placed} (h : IsRun pos bs ps) : motive pos bs ps h := by
  induction pos, bs using Trivia.pieces_induction generalizing ps with
  | stop pos bs hnone =>
      obtain rfl := (isRun_iff_of_none hnone).mp h
      exact stop pos bs h hnone
  | step pos bs piece n hpiece ih =>
      obtain ⟨more, rfl, hmore⟩ := (isRun_iff_of_piece hpiece).mp h
      exact step pos bs piece n more h hmore hpiece (ih hmore)

/-- From every offset there is exactly one run. -/
theorem existsUnique_isRun (pos : Nat) (bs : Bytes) : ∃! ps, IsRun pos bs ps := by
  induction pos, bs using pieces_induction with
  | stop pos bs h =>
      refine ⟨[], (isRun_iff_of_none h).mpr rfl, ?_⟩
      intro qs hq
      exact (isRun_iff_of_none h).mp hq
  | step pos bs piece n h ih =>
      obtain ⟨ps, hps, huniq⟩ := ih
      refine ⟨⟨piece, pos, pos + n⟩ :: ps, (isRun_iff_of_piece h).mpr ⟨ps, rfl, hps⟩, ?_⟩
      intro qs hq
      obtain ⟨more, rfl, hmore⟩ := (isRun_iff_of_piece h).mp hq
      rw [huniq more hmore]

/-! ### The comments of a run -/

/-- The range of a piece that is a comment. -/
def Placed.comment? (p : Placed) : Option CommentRange :=
  match p.piece with
  | .comment multiline => some ⟨p.start, p.stop, multiline⟩
  | _ => none

/-- The comments among some pieces. -/
def commentsAmong (ps : List Placed) : List CommentRange := ps.filterMap Placed.comment?

/-- The piece is no line break. -/
def Placed.onLine (p : Placed) : Bool := p.piece ≠ .lineBreak

/-- One of two pieces ends before the other starts. -/
def Placed.Apart (p q : Placed) : Prop := p.stop ≤ q.start ∨ q.stop ≤ p.start

instance : Std.Symm Placed.Apart := ⟨fun _ _ h => h.symm⟩

section comments

variable {pos : Nat} {bs : Bytes} {ps : List Placed}

/-- Trailing comments are those before the first line break. -/
theorem IsRun.scan_trailing (h : IsRun pos bs ps) :
    scan true true pos bs = commentsAmong (ps.takeWhile Placed.onLine) := by
  induction h using IsRun.pieces_induction with
  | stop pos bs _ hnone => exact scan_of_none _ _ _ hnone
  | step pos bs piece n more _ _ hpiece ih =>
      rw [scan_of_piece _ _ _ hpiece, ih]
      cases piece with
      | space => rfl
      | lineBreak => rfl
      | comment multiline => rfl

/-- Where all comments count, all comments of the run are found. -/
theorem IsRun.scan_all (h : IsRun pos bs ps) : scan false true pos bs = commentsAmong ps := by
  induction h using IsRun.pieces_induction with
  | stop pos bs _ hnone => exact scan_of_none _ _ _ hnone
  | step pos bs piece n more _ _ hpiece ih =>
      rw [scan_of_piece _ _ _ hpiece, ih]
      cases piece with
      | space => rfl
      | lineBreak => rfl
      | comment multiline => rfl

/-- Leading comments are those behind the first line break. -/
theorem IsRun.scan_leading (h : IsRun pos bs ps) :
    scan false false pos bs = commentsAmong (ps.dropWhile Placed.onLine) := by
  induction h using IsRun.pieces_induction with
  | stop pos bs _ hnone => exact scan_of_none _ _ _ hnone
  | step pos bs piece n more _ later hpiece ih =>
      rw [scan_of_piece _ _ _ hpiece, ih]
      cases piece with
      | space => rfl
      | lineBreak => exact later.scan_all
      | comment multiline => rfl

/-- The pieces of a run lie between its start and the end of the bytes. -/
theorem IsRun.bounds (h : IsRun pos bs ps) :
    ∀ p ∈ ps, pos ≤ p.start ∧ p.start < p.stop ∧ p.stop ≤ pos + bs.length := by
  induction h using IsRun.pieces_induction with
  | stop pos bs _ hnone => exact fun p hp => absurd hp List.not_mem_nil
  | step pos bs piece n more _ _ hpiece ih =>
      have hpos := piece?_pos hpiece
      have hlen : n ≤ bs.length := by
        obtain ⟨unit, rest, rfl, rfl, -⟩ := spelled_of_piece? hpiece
        simp
      intro p hp
      rcases List.mem_cons.mp hp with rfl | hp
      · exact ⟨le_rfl, by dsimp only; omega, by dsimp only; omega⟩
      · have := ih p hp
        rw [List.length_drop] at this
        omega

/-- The pieces of a run do not overlap. -/
theorem IsRun.pairwise (h : IsRun pos bs ps) : ps.Pairwise fun p q => p.stop ≤ q.start := by
  induction h using IsRun.pieces_induction with
  | stop pos bs _ hnone => exact .nil
  | step pos bs piece n more _ later hpiece ih => exact .cons (fun q hq => (later.bounds q hq).1) ih

theorem IsRun.ordered (h : IsRun pos bs ps) :
    (commentsAmong ps).Pairwise fun a b => a.stop ≤ b.pos := by
  rw [← h.scan_all]
  exact scan_pairwise _ _ _ _

/-- Of two pieces of a run one ends before the other starts. -/
theorem IsRun.apart (h : IsRun pos bs ps) {p q : Placed} (hp : p ∈ ps) (hq : q ∈ ps)
    (hne : p ≠ q) : p.Apart q := by
  have hall : ps.Pairwise Placed.Apart := h.pairwise.imp fun hpq => .inl hpq
  exact hall.forall hp hq hne

/-- Every piece of a run is spelled by the bytes at its place. -/
theorem IsRun.spelled (h : IsRun pos bs ps) : ∀ p ∈ ps, ∃ unit rest,
    bs.drop (p.start - pos) = unit ++ rest ∧ p.stop = p.start + unit.length ∧
      p.piece.Spelled unit rest := by
  induction h using IsRun.pieces_induction with
  | stop pos bs _ hnone => exact fun p hp => absurd hp List.not_mem_nil
  | step pos bs piece n more _ later hpiece ih =>
      intro p hp
      rcases List.mem_cons.mp hp with rfl | hp
      · obtain ⟨unit, rest, rfl, rfl, hspelled⟩ := spelled_of_piece? hpiece
        exact ⟨unit, rest, by simp, rfl, hspelled⟩
      · obtain ⟨unit, rest, hdrop, hstop, hspelled⟩ := ih p hp
        have hle := (later.bounds p hp).1
        refine ⟨unit, rest, ?_, hstop, hspelled⟩
        rw [← hdrop, List.drop_drop]
        congr 1
        omega

end comments

theorem commentsAmong_append (ps qs : List Placed) :
    commentsAmong (ps ++ qs) = commentsAmong ps ++ commentsAmong qs := List.filterMap_append

theorem exists_of_mem_commentsAmong {ps : List Placed} {r : CommentRange}
    (h : r ∈ commentsAmong ps) : (⟨.comment r.multiline, r.pos, r.stop⟩ : Placed) ∈ ps := by
  obtain ⟨⟨piece, start, stop⟩, hp, hr⟩ := List.mem_filterMap.mp h
  cases piece with
  | space => cases hr
  | lineBreak => cases hr
  | comment multiline =>
      cases hr
      exact hp

/-! ### The comments at an offset -/

/-- Where the run of an offset starts: for the start of a text that opens with `#!` at the first
line feed, or at the end of a text without one, and elsewhere at the offset itself. -/
def runStart (text : Bytes) (pos : Nat) : Nat :=
  if pos = 0 ∧ [0x23, 0x21] <+: text then text.idxOf 0x0A else pos

theorem length_takeWhile_ne (bs : Bytes) (a : UInt8) :
    (bs.takeWhile (· != a)).length = bs.idxOf a := by
  induction bs with
  | nil => rfl
  | cons b bs ih =>
      by_cases h : b = a
      · subst h
        simp
      · simp [h, ih, List.idxOf_cons_ne _ h]

theorem hashBangLength_eq (text : Bytes) : hashBangLength text = runStart text 0 := by
  unfold hashBangLength runStart
  split
  · rename_i rest
    rw [if_pos ⟨rfl, by simp⟩, length_takeWhile_ne]
    rw [List.idxOf_cons_ne _ (by decide), List.idxOf_cons_ne _ (by decide)]
    omega
  · rename_i hopen
    rw [if_neg]
    rintro ⟨-, rest, rfl⟩
    exact hopen rest rfl

theorem comments_zero (text : Bytes) (trailing : Bool) : comments text 0 trailing =
    scan trailing true (runStart text 0) (text.drop (runStart text 0)) := by
  rw [comments, if_pos rfl, hashBangLength_eq]

theorem comments_of_pos {text : Bytes} {pos : Nat} (h : 0 < pos) (trailing : Bool) :
    comments text pos trailing =
      scan trailing trailing (runStart text pos) (text.drop (runStart text pos)) := by
  have hne : pos ≠ 0 := by omega
  rw [comments, if_neg hne, runStart, if_neg (fun h => hne h.1)]

theorem le_runStart (text : Bytes) (pos : Nat) : pos ≤ runStart text pos := by
  unfold runStart
  split
  · omega
  · exact le_rfl

section offset

variable {text : Bytes} {pos : Nat} {ps : List Placed}
  (h : IsRun (runStart text pos) (text.drop (runStart text pos)) ps)
include h

theorem IsRun.comments_trailing :
    comments text pos true = commentsAmong (ps.takeWhile Placed.onLine) := by
  rcases Nat.eq_zero_or_pos pos with rfl | hpos
  · rw [comments_zero, h.scan_trailing]
  · rw [comments_of_pos hpos, h.scan_trailing]

theorem IsRun.comments_leading (hpos : 0 < pos) :
    comments text pos false = commentsAmong (ps.dropWhile Placed.onLine) := by
  rw [comments_of_pos hpos, h.scan_leading]

theorem IsRun.comments_leading_zero (hpos : pos = 0) :
    comments text pos false = commentsAmong ps := by
  subst hpos
  rw [comments_zero, h.scan_all]

/-- Trailing or leading, a comment is one of the run. -/
theorem IsRun.comments_subset (trailing : Bool) : comments text pos trailing ⊆ commentsAmong ps := by
  cases trailing with
  | true =>
      rw [h.comments_trailing]
      exact (List.takeWhile_sublist _).filterMap _ |>.subset
  | false =>
      rcases Nat.eq_zero_or_pos pos with hpos | hpos
      · rw [h.comments_leading_zero hpos]
        exact List.Subset.refl _
      · rw [h.comments_leading hpos]
        exact (List.dropWhile_sublist _).filterMap _ |>.subset

end offset

/-- A comment that the scan finds is spelled by the bytes of its range. -/
theorem exists_spelled_of_mem_comments {text : Bytes} {pos : Nat} {trailing : Bool}
    {r : CommentRange} (hr : r ∈ comments text pos trailing) : ∃ unit rest,
      text.drop r.pos = unit ++ rest ∧ r.stop = r.pos + unit.length ∧
        (Piece.comment r.multiline).Spelled unit rest := by
  obtain ⟨ps, h, -⟩ := existsUnique_isRun (runStart text pos) (text.drop (runStart text pos))
  have hmem := exists_of_mem_commentsAmong (h.comments_subset trailing hr)
  obtain ⟨unit, rest, hdrop, hstop, hspelled⟩ := h.spelled _ hmem
  have hstart : runStart text pos ≤ r.pos := (h.bounds _ hmem).1
  rw [List.drop_drop, Nat.add_sub_cancel' hstart] at hdrop
  exact ⟨unit, rest, hdrop, hstop, hspelled⟩

/-- What the scan says of the run of an offset. -/
structure SplitsRun (text : Bytes) (pos : Nat) (ps : List Placed) : Prop where
  /-- The trailing comments are those before the first line break. -/
  trailing : comments text pos true = commentsAmong (ps.takeWhile Placed.onLine)
  /-- Behind the start of the text the leading comments are those behind the first line break. -/
  leading : 0 < pos → comments text pos false = commentsAmong (ps.dropWhile Placed.onLine)
  /-- At the start of the text all comments are leading. -/
  leading_zero : pos = 0 → comments text pos false = commentsAmong ps
  /-- Behind the start of the text every comment of the run is found once. -/
  all : 0 < pos → comments text pos true ++ comments text pos false = commentsAmong ps
  /-- The comments of the run follow one another. -/
  ordered : (commentsAmong ps).Pairwise fun a b => a.stop ≤ b.pos
  /-- They lie between the offset and the end of the text, and none of them is empty. -/
  inside : ∀ r ∈ commentsAmong ps, pos ≤ r.pos ∧ r.pos < r.stop ∧ r.stop ≤ text.length
  /-- No line break of the run stands inside a comment. -/
  apart : ∀ b ∈ ps, b.piece = .lineBreak → ∀ r ∈ commentsAmong ps,
    b.stop ≤ r.pos ∨ r.stop ≤ b.start

/-- **The scan splits the run of trivia at its first line break.** -/
theorem comments_of_run (text : Bytes) (pos : Nat) :
    (∃! ps, IsRun (runStart text pos) (text.drop (runStart text pos)) ps) ∧
      ∀ ps, IsRun (runStart text pos) (text.drop (runStart text pos)) ps →
        SplitsRun text pos ps := by
  refine ⟨existsUnique_isRun _ _, ?_⟩
  intro ps h
  refine ⟨h.comments_trailing, h.comments_leading, h.comments_leading_zero, ?_, h.ordered, ?_, ?_⟩
  · intro hpos
    rw [h.comments_trailing, h.comments_leading hpos, ← commentsAmong_append,
      List.takeWhile_append_dropWhile]
  · intro r hr
    have hbounds := h.bounds _ (exists_of_mem_commentsAmong hr)
    have hstart := le_runStart text pos
    rw [List.length_drop] at hbounds
    dsimp only at hbounds
    omega
  · intro b hb hbreak r hr
    refine h.apart hb (exists_of_mem_commentsAmong hr) ?_
    rintro rfl
    cases hbreak

end PluginManifest.Trivia
