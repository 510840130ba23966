import CodeChunks.Text.Basic

/-! # Slices between offsets that are not negative -/
namespace CodeChunks

variable {α : Type} (xs : List α)

theorem clamp_natCast (n i : Nat) : clamp n i = min n i := by
  have h : ¬ (i : Int) < 0 := by omega
  simp [clamp, h]

theorem slice_natCast (a b : Nat) : slice xs a b = (xs.take b).drop a := by
  have htake : xs.take (min xs.length b) = xs.take b := by
    rcases Nat.le_total xs.length b with h | h
    · rw [Nat.min_eq_left h, List.take_length, List.take_of_length_le h]
    · rw [Nat.min_eq_right h]
  rw [slice, clamp_natCast, clamp_natCast, htake]
  rcases Nat.le_total xs.length a with h | h
  · have hlen : (xs.take b).length ≤ xs.length := List.length_take_le' b xs
    rw [Nat.min_eq_left h, List.drop_of_length_le hlen,
      List.drop_of_length_le (Nat.le_trans hlen h)]
  · rw [Nat.min_eq_right h]

theorem slice_natCast_eq (a b : Nat) : slice xs a b = (xs.drop a).take (b - a) := by
  rw [slice_natCast, List.drop_take]

theorem slice_self (a : Nat) : slice xs a a = [] := by simp [slice_natCast_eq]

theorem slice_zero_length : slice xs 0 xs.length = xs := by
  simpa using slice_natCast xs 0 xs.length

theorem length_slice {a b : Nat} (hb : b ≤ xs.length) : (slice xs a b).length = b - a := by
  simp [slice_natCast, Nat.min_eq_left hb]

/-- A slice is never longer than the distance of its ends. -/
theorem length_slice_le (a b : Nat) : (slice xs a b).length ≤ b - a := by
  simp only [slice_natCast_eq, List.length_take]
  omega

theorem slice_append {a b c : Nat} (hab : a ≤ b) (hbc : b ≤ c) :
    slice xs a b ++ slice xs b c = slice xs a c := by
  have hc : c - a = (b - a) + (c - b) := by omega
  have hb : a + (b - a) = b := by omega
  rw [slice_natCast_eq, slice_natCast_eq, slice_natCast_eq, hc, List.take_add, List.drop_drop, hb]

/-- A slice of a slice, measured on the whole. -/
theorem slice_slice {a b i j : Nat} (h : a + j ≤ b) :
    slice (slice xs a b) i j = slice xs (a + i : Nat) (a + j : Nat) := by
  have hj : min j (b - a) = j := by omega
  have hij : a + j - (a + i) = j - i := by omega
  rw [slice_natCast, slice_natCast_eq, slice_natCast_eq, List.take_take, hj, List.drop_take,
    List.drop_drop, hij]

/-- What stands around a slice. -/
theorem eq_take_append_slice {a b : Nat} (h : a ≤ b) :
    xs = xs.take a ++ (slice xs a b ++ xs.drop b) := by
  have hb : b = a + (b - a) := by omega
  have hdrop : xs.drop b = (xs.drop a).drop (b - a) := by rw [List.drop_drop, ← hb]
  rw [slice_natCast_eq, hdrop, List.take_append_drop, List.take_append_drop]

end CodeChunks
