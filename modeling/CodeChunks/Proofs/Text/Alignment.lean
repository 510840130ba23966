import CodeChunks.Proofs.Text.Tiles
import Mathlib.Algebra.Group.Nat.Defs

/-! # A cut is made at the last line end within reach

Where a piece of a text ends depends only on where it starts: at the end of the range if that is
within the budget, else after the last newline of the window before the full size, else at the full
size. So there is one way to cut a range, and cutting by the halving search finds it. -/
namespace CodeChunks

namespace Budget

theorem hasHalf_of_lt {n : Budget} (h : n < 2 ^ 1023) : n.hasHalf := by
  rw [hasHalf, decide_eq_true_eq]
  refine Nat.lt_of_lt_of_le h ?_
  decide +kernel

/-- Under a budget that is an exact floating point number nothing is refused. -/
theorem guard_natCast {α : Type} {n : Budget} (h : n < 2 ^ 53) (idle : Bool) (cut : Budget → α) :
    guard n idle cut = .ok (cut n) := by
  have hhalf : n.hasHalf := hasHalf_of_lt (Nat.lt_trans h (by decide +kernel))
  rw [guard, Int.toNat_natCast, hhalf, if_pos (by simp)]

theorem window_eq {n : Nat} (h : n < 2 ^ 53) : window n = max 1 (n / 2) := by
  have hexact : n < 1 <<< 53 := h
  rw [window, half, if_pos hexact]

end Budget

namespace Text

/-- The first offset at which a newline may stand for a full piece from `start` to end after it:
half of the size before its end, and at least one character. -/
def reach (size : Nat) (start : Int) : Int := max start (start + size - max 1 (size / 2 : Nat))

/-- A piece that leaves something over ends after the last newline within reach, or at the full
size. -/
def EndsPiece (t : Text) (size : Nat) (start stop : Int) : Prop :=
  (∃ p, t.IsLastBreak (reach size start) (start + size) p ∧ stop = p + 1) ∨
    (∀ p : Nat, reach size start ≤ p → p < start + size → t[p]? ≠ some '\n') ∧
      stop = start + size

theorem EndsPiece.unique {t : Text} {size : Nat} {start a b : Int} (ha : t.EndsPiece size start a)
    (hb : t.EndsPiece size start b) : a = b := by
  rcases ha with ⟨p, hp, rfl⟩ | ⟨hnone, rfl⟩
  · rcases hb with ⟨q, hq, rfl⟩ | ⟨hnone, rfl⟩
    · rw [hp.unique hq]
    · exact absurd hp.newline (hnone p hp.low_le hp.lt_high)
  · rcases hb with ⟨q, hq, rfl⟩ | ⟨-, rfl⟩
    · exact absurd hq.newline (hnone q hq.low_le hq.lt_high)
    · rfl

/-- Ranges that cut `[start, stop)` without gaps: none is longer than the size, one that can reach
the end is the last, and any other ends where a piece of the text has to. -/
structure Aligned (t : Text) (size : Nat) (start stop : Int) (rs : List (Int × Int)) : Prop where
  tiles : Tiles start stop rs
  size_le : ∀ r ∈ rs, r.2 - r.1 ≤ size
  last : ∀ r ∈ rs, stop ≤ r.1 + size → rs.getLast? = some r
  ends : ∀ r ∈ rs, r.1 + size < stop → t.EndsPiece size r.1 r.2

end Text

section

variable {t : Text} {size : Nat} (hpos : 1 ≤ size)

include hpos

theorem cutEnd_of_le (ix : LineIndex) {start stop : Int} (h : stop ≤ start + size) :
    cutEnd ix size stop start = stop := by
  have hfull : min (start + (max 1 size : Nat)) stop = stop := by omega
  simp only [cutEnd, hfull]
  rw [if_neg (Int.lt_irrefl stop)]

theorem endsPiece_cutEnd (hsize : size < 2 ^ 53) {start stop : Int} (h : start + size < stop) :
    t.EndsPiece size start (cutEnd (.ofText t) size stop start) := by
  have hfull : min (start + (max 1 size : Nat)) stop = start + size := by omega
  simp only [cutEnd, hfull]
  rw [if_pos h, Budget.window_eq hsize, ← Text.reach]
  cases hbreak : (LineIndex.ofText t).lastBreak? (Text.reach size start) (start + size) with
  | some p =>
    obtain ⟨q, rfl, hq⟩ := LineIndex.lastBreak?_spec t hbreak
    have hlow : start ≤ q := Int.le_trans (Int.le_max_left ..) hq.low_le
    exact .inl ⟨q, hq, if_pos (by omega)⟩
  | none => exact .inr ⟨fun p => LineIndex.not_newline_of_lastBreak? t hbreak, rfl⟩

theorem aligned_cutRanges (hsize : size < 2 ^ 53) {start stop : Int} (h : start ≤ stop) :
    t.Aligned size start stop (cutRanges (.ofText t) size stop start) where
  tiles := tiles_cutRanges t size h
  size_le r hr := by
    have := cutRanges_size t size stop start hr
    omega
  last r hr hlast := by
    rw [(tiles_cutRanges t size h).getLast?_eq_some_iff hr, (eq_cutEnd_of_mem_cutRanges hr).2]
    exact cutEnd_of_le hpos _ hlast
  ends r hr hmore := by
    rw [(eq_cutEnd_of_mem_cutRanges hr).2]
    exact endsPiece_cutEnd hpos hsize hmore

end

namespace Text.Aligned

variable {t : Text} {size : Nat} {start stop : Int} {rs qs : List (Int × Int)}

/-- A piece that starts at a place ends at the same place in every such cut. -/
theorem snd_eq {start' : Int} (hrs : t.Aligned size start stop rs)
    (hqs : t.Aligned size start' stop qs) {r q : Int × Int} (hr : r ∈ rs) (hq : q ∈ qs)
    (h : r.1 = q.1) : r.2 = q.2 := by
  rcases Int.lt_or_le (r.1 + size) stop with hmore | hlast
  · have hends := hrs.ends r hr hmore
    rw [h] at hends hmore
    exact hends.unique (hqs.ends q hq hmore)
  · rw [(hrs.tiles.getLast?_eq_some_iff hr).mp (hrs.last r hr hlast)]
    rw [h] at hlast
    exact ((hqs.tiles.getLast?_eq_some_iff hq).mp (hqs.last q hq hlast)).symm

theorem tail {a b : Int} (h : t.Aligned size a stop ((a, b) :: rs)) (hrs : Tiles b stop rs) :
    t.Aligned size b stop rs where
  tiles := hrs
  size_le r hr := h.size_le r (List.mem_cons_of_mem _ hr)
  last r hr hlast := by
    rw [← h.last r (List.mem_cons_of_mem _ hr) hlast,
      List.getLast?_cons_of_ne_nil (List.ne_nil_of_mem hr)]
  ends r hr := h.ends r (List.mem_cons_of_mem _ hr)

/-- There is one way to cut a range: the first pieces end at the same place, and so do those after
them. -/
theorem unique (hrs : t.Aligned size start stop rs) (hqs : t.Aligned size start stop qs) :
    rs = qs := by
  have htiles := hrs.tiles
  induction htiles generalizing qs with
  | nil a => exact hqs.tiles.eq_nil.symm
  | @cons a b c rs hab ht ih =>
    have htiles := hqs.tiles
    cases htiles with
    | nil => exact absurd hab (Int.not_lt.mpr ht.le)
    | @cons _ b' _ qs hab' ht' =>
      have hb : b = b' := hrs.snd_eq hqs List.mem_cons_self List.mem_cons_self rfl
      subst hb
      rw [ih (hrs.tail ht) (hqs.tail ht')]

end Text.Aligned

theorem Text.flatten_cut (t : Text) (size : Budget) : (t.cut size).flatten = t :=
  t.flatMap_cutRanges size

/-- Cutting a range to a size gives its one aligned cut, which is empty only where the range is, and
the pieces of a text make it up again. -/
theorem cut_aligned (t : Text) {size : Budget} (hpos : 1 ≤ size) (hsize : size < 2 ^ 53)
    {start stop : Nat} (h : start ≤ stop) :
    (∃ rs, Budget.guard size (decide (stop ≤ start))
        (fun b => cutRanges (.ofText t) b stop start) = .ok rs ∧
      t.Aligned size start stop rs ∧ (∀ qs, t.Aligned size start stop qs → qs = rs) ∧
      (rs = [] ↔ start = stop)) ∧
    ∃ ps, t.cut? size = .ok ps ∧ ps.flatten = t := by
  have hrs := aligned_cutRanges (t := t) hpos hsize (Int.ofNat_le.mpr h)
  refine ⟨⟨_, Budget.guard_natCast hsize _ _, hrs, fun qs hqs => hqs.unique hrs, ?_⟩,
    t.cut size, Budget.guard_natCast hsize _ _, t.flatten_cut size⟩
  constructor
  · intro hnil
    have htiles := hrs.tiles
    rw [hnil] at htiles
    cases htiles
    rfl
  · rintro rfl
    exact hrs.tiles.eq_nil

/-- A range that reaches beyond its text, cut to four characters: the second piece ends after a
newline. -/
theorem cut_aligned_beyond : ∃ rs,
    Budget.guard 4 false (fun b => cutRanges (.ofText "ab\ncde\n\nfgh".toList) b 20 1) = .ok rs ∧
      rs = [(1, 5), (5, 8), (8, 12), (12, 16), (16, 20)] ∧
      Text.Aligned "ab\ncde\n\nfgh".toList 4 1 20 rs := by
  obtain ⟨⟨rs, hrs, haligned, -⟩, -⟩ := @cut_aligned "ab\ncde\n\nfgh".toList 4 (by decide)
    (by decide) 1 20 (by decide)
  have hcut : cutRanges (.ofText "ab\ncde\n\nfgh".toList) 4 20 1 =
      [(1, 5), (5, 8), (8, 12), (12, 16), (16, 20)] := by decide +kernel
  have hguard := hrs.symm.trans (@Budget.guard_natCast _ 4 (by decide) _ _)
  exact ⟨rs, hrs, (Except.ok.inj hguard).trans hcut, haligned⟩

end CodeChunks
