import CodeChunks.Text.LineIndex

/-! # Rows and columns are counts of newlines

The row of an offset, found by halving, is the number of newlines before it, and the row starts
after the last of them. -/
namespace CodeChunks

namespace Text

/-- The line of the character at an offset, counted from one. -/
def lineAt (t : Text) (o : Nat) : Nat := (t.take o).count '\n' + 1

/-- The line of the last character of `[start, stop)`, or of the offset itself where there is
none. -/
def lastLineAt (t : Text) (start stop : Nat) : Nat :=
  if start < stop then t.lineAt (stop - 1) else t.lineAt start

theorem lineAt_mono (t : Text) {o p : Nat} (h : o ≤ p) : t.lineAt o ≤ t.lineAt p := by
  have ht : (t.take p).take o = t.take o := by rw [List.take_take, Nat.min_eq_left h]
  have hc := (List.take_sublist o (t.take p)).count_le '\n'
  rw [ht] at hc
  simp only [lineAt]
  omega

theorem lineAt_length (t : Text) : t.lineAt t.length = t.count '\n' + 1 := by
  rw [lineAt, List.take_length]

/-- Only a newline opens a further line. -/
theorem lineAt_succ (t : Text) {o : Nat} (h : o < t.length) :
    t.lineAt (o + 1) = t.lineAt o + if t[o]? = some '\n' then 1 else 0 := by
  rw [lineAt, lineAt, List.take_succ_eq_append_getElem h, List.count_append,
    List.getElem?_eq_getElem h, List.count_singleton]
  simp only [beq_iff_eq, Option.some.injEq]
  omega

/-- The lines of a part of a text continue those before it. -/
theorem lineAt_drop_take (t : Text) {a k n : Nat} (h : k ≤ n) :
    t.lineAt (a + k) = (t.take a).count '\n' + lineAt ((t.drop a).take n) k := by
  rw [lineAt, lineAt, List.take_take, Nat.min_eq_left h, List.take_add, List.count_append]
  omega

/-- The last newline at an offset from `low` on and below `high`. -/
structure IsLastBreak (t : Text) (low high : Int) (p : Nat) : Prop where
  low_le : low ≤ p
  lt_high : p < high
  newline : t[p]? = some '\n'
  last : ∀ q : Nat, low ≤ q → q < high → t[q]? = some '\n' → q ≤ p

theorem IsLastBreak.unique {t : Text} {low high : Int} {p q : Nat} (hp : t.IsLastBreak low high p)
    (hq : t.IsLastBreak low high q) : p = q :=
  Nat.le_antisymm (hq.last p hp.low_le hp.lt_high hp.newline)
    (hp.last q hq.low_le hq.lt_high hq.newline)

end Text

theorem le_of_mem_breaksFrom {i p : Nat} {t : Text} (h : p ∈ breaksFrom i t) : i ≤ p := by
  induction t generalizing i with
  | nil => simp [breaksFrom] at h
  | cons c t ih =>
    by_cases hc : c = '\n'
    · simp only [breaksFrom, hc, ↓reduceIte, List.mem_cons] at h
      rcases h with rfl | h
      · exact Nat.le_refl _
      · have := ih h
        omega
    · simp only [breaksFrom, hc, ↓reduceIte] at h
      have := ih h
      omega

theorem mem_breaksFrom {i p : Nat} {t : Text} :
    p ∈ breaksFrom i t ↔ i ≤ p ∧ t[p - i]? = some '\n' := by
  induction t generalizing i with
  | nil => simp [breaksFrom]
  | cons c t ih =>
    rcases Nat.lt_trichotomy p i with hp | rfl | hp
    · have hn : p ∉ breaksFrom i (c :: t) := fun h => by have := le_of_mem_breaksFrom h; omega
      simp only [hn, false_iff]
      omega
    · have hn : p ∉ breaksFrom (p + 1) t := fun h => by have := le_of_mem_breaksFrom h; omega
      by_cases hc : c = '\n' <;> simp [breaksFrom, hc, hn]
    · obtain ⟨k, rfl⟩ := Nat.exists_eq_add_of_lt hp
      have hk : i + k + 1 - i = k + 1 := by omega
      have hk' : i + k + 1 - (i + 1) = k := by omega
      have hi : i + k + 1 ≠ i := by omega
      have hle : i + 1 ≤ i + k + 1 := by omega
      have hle' : i ≤ i + k + 1 := by omega
      by_cases hc : c = '\n' <;> simp [breaksFrom, hc, ih, hk, hk', hi, hle, hle']

theorem pairwise_breaksFrom (i : Nat) (t : Text) : (breaksFrom i t).Pairwise (· < ·) := by
  induction t generalizing i with
  | nil => exact .nil
  | cons c t ih =>
    by_cases hc : c = '\n'
    · simp only [breaksFrom, hc, ↓reduceIte]
      exact List.pairwise_cons.mpr ⟨fun p hp => le_of_mem_breaksFrom hp, ih (i + 1)⟩
    · simpa only [breaksFrom, hc, ↓reduceIte] using ih (i + 1)

theorem countP_breaksFrom (i : Nat) (t : Text) (o : Int) :
    (breaksFrom i t).countP (fun p : Nat => decide ((p : Int) < o)) =
      (t.take (o - i).toNat).count '\n' := by
  induction t generalizing i with
  | nil => simp [breaksFrom]
  | cons c t ih =>
    rcases Int.lt_or_le i o with hi | hi
    · have hk : (o - i).toNat = (o - (i + 1 : Nat)).toNat + 1 := by omega
      by_cases hc : c = '\n'
      · simp [breaksFrom, hc, ih, hk, hi]
      · simp [breaksFrom, hc, ih, hk]
    · have hk : (o - i).toNat = 0 := by omega
      simp only [hk, List.take_zero, List.count_nil, List.countP_eq_zero, decide_eq_true_eq]
      intro p hp
      have := le_of_mem_breaksFrom hp
      omega

namespace LineIndex

/-- Halving finds the place that parts the entries below `x` from the others. -/
theorem firstNotBelow_spec {xs : Array Nat} (hs : xs.toList.Pairwise (· < ·)) (x : Int)
    (low high : Nat) (h : high ≤ xs.size) (hlh : low ≤ high)
    (hlow : ∀ j (hj : j < xs.size), j < low → (xs[j] : Int) < x)
    (hhigh : ∀ j (hj : j < xs.size), high ≤ j → x ≤ xs[j]) :
    firstNotBelow xs x low high h ≤ xs.size ∧
      ∀ j (hj : j < xs.size), (xs[j] : Int) < x ↔ j < firstNotBelow xs x low high h := by
  have hmono : ∀ i j (hi : i < xs.size) (hj : j < xs.size), i ≤ j → xs[i] ≤ xs[j] := by
    intro i j hi hj hij
    rcases Nat.lt_or_eq_of_le hij with hij | rfl
    · exact Nat.le_of_lt (List.pairwise_iff_getElem.mp hs i j hi hj hij)
    · exact Nat.le_refl _
  induction low, high, h using firstNotBelow.induct xs x with
  | case1 low high h hlt hmid hx ih =>
    rw [firstNotBelow]
    simp only [hlt, hx, ↓reduceDIte, ↓reduceIte]
    refine ih (by omega) ?_ hhigh
    intro j hj hjm
    have := hmono j ((low + high) / 2) hj hmid (by omega)
    omega
  | case2 low high h hlt hmid hx ih =>
    rw [firstNotBelow]
    simp only [hlt, hx, ↓reduceDIte, ↓reduceIte]
    refine ih (by omega) hlow ?_
    intro j hj hjm
    have := hmono ((low + high) / 2) j hmid hj hjm
    omega
  | case3 low high h hlt =>
    rw [firstNotBelow]
    simp only [hlt, ↓reduceDIte]
    refine ⟨by omega, fun j hj => ⟨fun hx => ?_, fun hj' => hlow j hj hj'⟩⟩
    rcases Nat.lt_or_ge j low with hjl | hjl
    · exact hjl
    · have := hhigh j hj (by omega)
      omega

variable (t : Text)

theorem row_spec (o : Int) : (ofText t).row o ≤ (ofText t).breaks.size ∧
    ∀ j (hj : j < (ofText t).breaks.size),
      ((ofText t).breaks[j] : Int) < o ↔ j < (ofText t).row o :=
  firstNotBelow_spec (pairwise_breaksFrom 0 t) o 0 _ (Nat.le_refl _) (Nat.zero_le _)
    (fun j _ hj => absurd hj (by omega)) (fun j hj hj' => absurd hj' (by omega))

theorem mem_breaks_ofText {p : Nat} : p ∈ (ofText t).breaks ↔ t[p]? = some '\n' := by
  simp [ofText, mem_breaksFrom]

theorem breaks_mono {j k : Nat} (hk : k < (ofText t).breaks.size) (h : j ≤ k) :
    (ofText t).breaks[j] ≤ (ofText t).breaks[k] := by
  have hs : (ofText t).breaks.toList.Pairwise (· < ·) := by
    simpa [ofText] using pairwise_breaksFrom 0 t
  rcases Nat.lt_or_eq_of_le h with h | rfl
  · exact Nat.le_of_lt (List.pairwise_iff_getElem.mp hs j k (by simp; omega) (by simpa) h)
  · exact Nat.le_refl _

/-- The row of an offset is the number of newlines before it. -/
theorem row_ofText (o : Int) : (ofText t).row o = (t.take o.toNat).count '\n' := by
  obtain ⟨hle, hlt⟩ := row_spec t o
  have hcount := countP_breaksFrom 0 t o
  have hsplit : ((breaksFrom 0 t).take ((ofText t).row o) ++
        (breaksFrom 0 t).drop ((ofText t).row o)).countP (fun p : Nat => decide ((p : Int) < o)) =
      _ := List.countP_append
  have hsize : (ofText t).breaks.size = (breaksFrom 0 t).length := by simp [ofText]
  have hbelow : ((breaksFrom 0 t).take ((ofText t).row o)).countP
      (fun p : Nat => decide ((p : Int) < o)) = (ofText t).row o := by
    rw [List.countP_eq_length.mpr, List.length_take_of_le (by omega)]
    intro p hp
    obtain ⟨j, hj, rfl⟩ := List.mem_take_iff_getElem.mp hp
    have := (hlt j (by omega)).mpr (by omega)
    simpa [ofText] using this
  have habove : ((breaksFrom 0 t).drop ((ofText t).row o)).countP
      (fun p : Nat => decide ((p : Int) < o)) = 0 := by
    rw [List.countP_eq_zero]
    intro p hp
    obtain ⟨j, hj, rfl⟩ := List.mem_drop_iff_getElem.mp hp
    have := (not_congr (hlt (j + (ofText t).row o) (by omega))).mpr (by omega)
    simpa [ofText, Nat.add_comm] using this
  rw [List.take_append_drop, hcount, hbelow, habove] at hsplit
  simpa using hsplit.symm

theorem line_ofText (o : Nat) : (ofText t).line o = t.lineAt o := by
  simp [line, row_ofText, Text.lineAt]

theorem lastLine_ofText (start stop : Nat) :
    (ofText t).lastLine start stop = t.lastLineAt start stop := by
  by_cases h : start < stop
  · have hle : ¬ (stop : Int) ≤ start := by omega
    have hstop : (stop : Int) - 1 = (stop - 1 : Nat) := by omega
    rw [lastLine, if_neg hle, hstop, line_ofText, Text.lastLineAt, if_pos h]
  · have hle : (stop : Int) ≤ start := by omega
    rw [lastLine, if_pos hle, line_ofText, Text.lastLineAt, if_neg h]

/-- The row of an offset starts at the beginning of the text or after a newline, and no newline
stands between that start and the offset. -/
theorem rowStart_spec (o : Nat) :
    let r := (ofText t).rowStart ((ofText t).row o)
    r ≤ o ∧ (r = 0 ∨ t[r - 1]? = some '\n') ∧ ∀ p, r ≤ p → p < o → t[p]? ≠ some '\n' := by
  obtain ⟨hle, hlt⟩ := row_spec t o
  cases hr : (ofText t).row o with
  | zero =>
    refine ⟨by simp [rowStart], Or.inl (by simp [rowStart]), ?_⟩
    intro p _ hp hn
    obtain ⟨j, hj, rfl⟩ := Array.mem_iff_getElem.mp ((mem_breaks_ofText t).mpr hn)
    have := (hlt j hj).mp (by omega)
    omega
  | succ k =>
    have hk : k < (ofText t).breaks.size := by omega
    have hbreak := (hlt k hk).mpr (by omega)
    have hstart : (ofText t).rowStart (k + 1) = (ofText t).breaks[k] + 1 := by simp [rowStart, hk]
    rw [hstart]
    refine ⟨by omega, Or.inr ?_, ?_⟩
    · exact (mem_breaks_ofText t).mp (Array.getElem_mem hk)
    · intro p hp hpo hn
      obtain ⟨j, hj, rfl⟩ := Array.mem_iff_getElem.mp ((mem_breaks_ofText t).mpr hn)
      have hjk := (hlt j hj).mp (by omega)
      have := breaks_mono t hk (show j ≤ k by omega)
      omega

/-- The column of an offset is the first one just after a newline and at the start of the text. -/
theorem rowStart_eq_iff (o : Nat) : (ofText t).rowStart ((ofText t).row o) = o ↔
    o = 0 ∨ t[o - 1]? = some '\n' := by
  obtain ⟨hle, hstart, hnone⟩ := rowStart_spec t o
  constructor
  · intro h
    rwa [h] at hstart
  · rintro (rfl | hn)
    · omega
    · rcases Nat.lt_or_eq_of_le hle with hlt | heq
      · exact absurd hn (hnone (o - 1) (by omega) (by omega))
      · exact heq

/-- A break found in `[low, high)` stands just after the last newline of that range. -/
theorem lastBreak?_spec {low high : Int} {p : Nat} (h : (ofText t).lastBreak? low high = some p) :
    ∃ q : Nat, p = q + 1 ∧ t.IsLastBreak low high q := by
  obtain ⟨hle, hlt⟩ := row_spec t high
  cases hr : (ofText t).row high with
  | zero => simp [lastBreak?, hr] at h
  | succ k =>
    have hk : k < (ofText t).breaks.size := by omega
    have hbreak := (hlt k hk).mpr (by omega)
    simp only [lastBreak?, hr, Array.getElem?_eq_getElem hk] at h
    split at h
    · cases h
    · cases h
      have hnewline := (mem_breaks_ofText t).mp (Array.getElem_mem hk)
      refine ⟨_, rfl, by omega, hbreak, hnewline, ?_⟩
      intro q hlow hhigh hq
      obtain ⟨j, hj, rfl⟩ := Array.mem_iff_getElem.mp ((mem_breaks_ofText t).mpr hq)
      have hjk := (hlt j hj).mp hhigh
      exact breaks_mono t hk (by omega)

/-- No break is found only where there is no newline. -/
theorem not_newline_of_lastBreak? {low high : Int} (h : (ofText t).lastBreak? low high = none)
    {p : Nat} (hlow : low ≤ p) (hhigh : p < high) : t[p]? ≠ some '\n' := by
  intro hp
  obtain ⟨hle, hlt⟩ := row_spec t high
  obtain ⟨j, hj, rfl⟩ := Array.mem_iff_getElem.mp ((mem_breaks_ofText t).mpr hp)
  have hjr := (hlt j hj).mp hhigh
  obtain ⟨k, hr⟩ := Nat.exists_eq_succ_of_ne_zero (Nat.ne_zero_of_lt hjr)
  have hk : k < (ofText t).breaks.size := by omega
  have hmono := breaks_mono t hk (show j ≤ k by omega)
  simp only [lastBreak?, hr, Array.getElem?_eq_getElem hk] at h
  rw [if_neg (by omega)] at h
  cases h

theorem point_ofText {o : Nat} (h : o ≤ t.length) : (ofText t).point o =
    .ok ((t.take o).count '\n', o - (ofText t).rowStart ((ofText t).row o)) := by
  have hn : ¬ ((o : Int) < 0 ∨ ((ofText t).length : Int) < o) := by
    simp only [ofText]
    omega
  rw [point, if_neg hn, row_ofText]
  simp

theorem point_ofText_eq_error {o : Int} (h : o < 0 ∨ t.length < o) :
    (ofText t).point o = .error ⟨o, t.length⟩ := by
  rw [point, if_pos (by simpa only [ofText] using h)]
  rfl

end LineIndex

end CodeChunks
