import CodeChunks.Proofs.Text.Lines
import CodeChunks.Proofs.Text.Slices
import CodeChunks.Text.Cut

/-! # The ranges of a cut follow each other without gaps -/
namespace CodeChunks

/-- Ranges from one end of `[a, c)` to the other, each starting where the one before ends and none
of them empty. -/
inductive Tiles : Int → Int → List (Int × Int) → Prop
  | nil (a : Int) : Tiles a a []
  | cons {a b c : Int} {rs : List (Int × Int)} (h : a < b) (hr : Tiles b c rs) :
      Tiles a c ((a, b) :: rs)

namespace Tiles

variable {a c : Int} {rs : List (Int × Int)}

theorem le (h : Tiles a c rs) : a ≤ c := by
  induction h with
  | nil a => exact Int.le_refl a
  | cons h hr ih => omega

theorem bounds (h : Tiles a c rs) {r : Int × Int} (hr : r ∈ rs) :
    a ≤ r.1 ∧ r.1 < r.2 ∧ r.2 ≤ c := by
  induction h with
  | nil a => simp at hr
  | cons h ht ih =>
    rcases List.mem_cons.mp hr with rfl | hr
    · exact ⟨Int.le_refl _, h, ht.le⟩
    · obtain ⟨h₁, h₂, h₃⟩ := ih hr
      exact ⟨by omega, h₂, h₃⟩

/-- The ranges stand in order and do not meet. -/
theorem pairwise (h : Tiles a c rs) : rs.Pairwise (fun r q => r.2 ≤ q.1) := by
  induction h with
  | nil a => exact .nil
  | cons h hr ih => exact List.pairwise_cons.mpr ⟨fun q hq => (hr.bounds hq).1, ih⟩

theorem covers (h : Tiles a c rs) {i : Int} (ha : a ≤ i) (hc : i < c) :
    ∃ r ∈ rs, r.1 ≤ i ∧ i < r.2 := by
  induction h with
  | nil a => omega
  | @cons a b c rs h hr ih =>
    rcases Int.lt_or_le i b with hi | hi
    · exact ⟨(a, b), List.mem_cons_self, ha, hi⟩
    · obtain ⟨r, hr, hri⟩ := ih hi hc
      exact ⟨r, List.mem_cons_of_mem _ hr, hri⟩

theorem eq_nil (h : Tiles a a rs) : rs = [] := by
  cases h with
  | nil => rfl
  | cons h hr =>
    have := hr.le
    omega

/-- The last range is the one that reaches to the end. -/
theorem getLast?_eq_some_iff (h : Tiles a c rs) {r : Int × Int} (hr : r ∈ rs) :
    rs.getLast? = some r ↔ r.2 = c := by
  induction h with
  | nil a => cases hr
  | @cons a b c rs hab ht ih =>
    rcases List.mem_cons.mp hr with rfl | hr
    · constructor
      · intro hlast
        rcases List.eq_nil_or_concat rs with rfl | ⟨qs, q, rfl⟩
        · cases ht
          rfl
        · rw [List.concat_eq_append, ← List.cons_append, List.getLast?_concat] at hlast
          obtain rfl := Option.some.inj hlast
          have := (ht.bounds (r := (a, b)) (by simp)).1
          omega
      · rintro rfl
        rw [ht.eq_nil]
        rfl
    · rw [List.getLast?_cons_of_ne_nil (List.ne_nil_of_mem hr)]
      exact ih hr

/-- The parts of a text between the ends of the ranges make up the whole part. -/
theorem flatMap_slice {α : Type} (xs : List α) (h : Tiles a c rs) (ha : 0 ≤ a) :
    rs.flatMap (fun r => slice xs r.1 r.2) = slice xs a c := by
  induction h with
  | nil a =>
    obtain ⟨n, rfl⟩ := Int.eq_ofNat_of_zero_le ha
    exact (slice_self xs n).symm
  | @cons a b c rs h hr ih =>
    have hle := hr.le
    obtain ⟨k, rfl⟩ := Int.eq_ofNat_of_zero_le ha
    obtain ⟨m, rfl⟩ := Int.eq_ofNat_of_zero_le (show 0 ≤ b by omega)
    obtain ⟨n, rfl⟩ := Int.eq_ofNat_of_zero_le (show 0 ≤ c by omega)
    rw [List.flatMap_cons, ih (by omega)]
    exact slice_append xs (by omega) (by omega)

end Tiles

/-- A cut ends within the range, and its piece is no longer than the budget. -/
theorem cutEnd_le (t : Text) (size : Budget) (stop start : Int) :
    cutEnd (.ofText t) size stop start ≤ stop ∧
      cutEnd (.ofText t) size stop start - start ≤ max 1 size := by
  have hfull : min (start + max 1 size) stop ≤ stop := Int.min_le_right ..
  have hsize : min (start + max 1 size) stop ≤ start + max 1 size := Int.min_le_left ..
  simp only [cutEnd]
  split
  · cases hbreak : (LineIndex.ofText t).lastBreak?
        (max start (min (start + max 1 size) stop - size.window))
        (min (start + max 1 size) stop) with
    | some p =>
      obtain ⟨q, rfl, -, hq, -⟩ := LineIndex.lastBreak?_spec t hbreak
      dsimp only
      split <;> omega
    | none => exact ⟨hfull, by dsimp only; omega⟩
  · omega

theorem tiles_cutRanges (t : Text) (size : Budget) {stop start : Int} (h : start ≤ stop) :
    Tiles start stop (CodeChunks.cutRanges (.ofText t) size stop start) := by
  induction start using cutRanges.induct (.ofText t) size stop with
  | case1 start hlt ih =>
    rw [cutRanges, dif_pos hlt]
    exact .cons (lt_cutEnd _ size hlt) (ih (cutEnd_le t size stop _).1)
  | case2 start hlt =>
    obtain rfl : start = stop := by omega
    rw [cutRanges, dif_neg hlt]
    exact .nil start

theorem eq_cutEnd_of_mem_cutRanges {ix : LineIndex} {size : Budget} {stop start : Int}
    {r : Int × Int} (hr : r ∈ CodeChunks.cutRanges ix size stop start) :
    r.1 < stop ∧ r.2 = cutEnd ix size stop r.1 := by
  induction start using cutRanges.induct ix size stop with
  | case1 start hlt ih =>
    rw [cutRanges, dif_pos hlt] at hr
    rcases List.mem_cons.mp hr with rfl | hr
    · exact ⟨hlt, rfl⟩
    · exact ih hr
  | case2 start hlt =>
    rw [cutRanges, dif_neg hlt] at hr
    cases hr

theorem cutRanges_size (t : Text) (size : Budget) (stop start : Int) {r : Int × Int}
    (hr : r ∈ CodeChunks.cutRanges (.ofText t) size stop start) : r.2 - r.1 ≤ max 1 size := by
  rw [(eq_cutEnd_of_mem_cutRanges hr).2]
  exact (cutEnd_le t size stop _).2

namespace Text

theorem tiles_cutRanges (t : Text) (size : Budget) : Tiles 0 t.length (t.cutRanges size) :=
  CodeChunks.tiles_cutRanges t size (by omega)

/-- Each piece of a text is no longer than a positive budget. -/
theorem length_slice_cutRanges (t : Text) {size : Nat} (hsize : 0 < size) {r : Int × Int}
    (hr : r ∈ t.cutRanges size) : (slice t r.1 r.2).length ≤ size := by
  obtain ⟨h₁, h₂, h₃⟩ := (t.tiles_cutRanges size).bounds hr
  have hs := cutRanges_size t size t.length 0 hr
  obtain ⟨⟨a, ha⟩, ⟨b, hb⟩⟩ := And.intro (Int.eq_ofNat_of_zero_le h₁)
    (Int.eq_ofNat_of_zero_le (show 0 ≤ r.2 by omega))
  have hl := length_slice_le t a b
  rw [ha, hb]
  omega

/-- The pieces of a text make it up again. -/
theorem flatMap_cutRanges (t : Text) (size : Budget) :
    (t.cutRanges size).flatMap (fun r => slice t r.1 r.2) = t := by
  rw [(t.tiles_cutRanges size).flatMap_slice t (Int.le_refl 0)]
  exact slice_zero_length t

end Text

end CodeChunks
