import CodeChunks.Proofs.Text.Fences

/-! # The payload of a text stands between its first pair of fences

Two lines are a pair when the one begins with a marker and the other, not the next, is that marker
and blanks. The first line that opens a pair counts, with its longest marker that is closed, and the
nearest line that closes it. -/
namespace CodeChunks.Fence

/-- The lines numbered `i` and `j` are fences of at least three copies of a fence character, with a
line or more between them: the one begins with `m` of them, the other has nothing else but blanks
after them. -/
structure Pair (ls : List Text) (i j m : Nat) : Prop where
  apart : i + 2 ≤ j
  three_le : 3 ≤ m
  marked : ∃ mark : Char, (mark = '\x60' ∨ mark = '~') ∧
    (∃ l, ls[i]? = some l ∧ List.replicate m mark <+: l) ∧
    ∃ tail : Text, ls[j]? = some (List.replicate m mark ++ tail) ∧ ∀ d ∈ tail, d = ' ' ∨ d = '\t'

/-- No pair opens before the first one, none that opens there has a longer marker, and none with
this marker closes before. -/
structure FirstPair (ls : List Text) (i j m : Nat) : Prop where
  pair : Pair ls i j m
  first : ∀ i' j' m', Pair ls i' j' m' → i ≤ i'
  longest : ∀ j' m', Pair ls i j' m' → m' ≤ m
  nearest : ∀ j', Pair ls i j' m → j ≤ j'

theorem closes_iff {marker l : Text} :
    closes marker l ↔ ∃ tail, l = marker ++ tail ∧ ∀ d ∈ tail, d = ' ' ∨ d = '\t' := by
  have htail : ∀ tail : Text, tail.all isTail ↔ ∀ d ∈ tail, d = ' ' ∨ d = '\t' := by
    intro tail
    simp [isTail]
  rw [closes, Bool.and_eq_true, Text.startsWith_iff]
  constructor
  · rintro ⟨⟨tail, rfl⟩, hblank⟩
    rw [List.drop_left, htail] at hblank
    exact ⟨tail, rfl, hblank⟩
  · rintro ⟨tail, rfl, hblank⟩
    rw [List.drop_left, htail]
    exact ⟨List.prefix_append _ _, hblank⟩

/-! ## The nearest closing line -/

def ClosesAt (marker : Text) (ls : List Text) (j : Nat) : Prop :=
  ∃ l, ls[j]? = some l ∧ closes marker l

theorem closesAt_zero_cons {marker l : Text} {ls : List Text} :
    ClosesAt marker (l :: ls) 0 ↔ closes marker l := by simp [ClosesAt]

theorem untilClosed_cases (marker : Text) (ls : List Text) :
    (∃ j, ClosesAt marker ls j ∧ (∀ k, ClosesAt marker ls k → j ≤ k) ∧
      untilClosed marker ls = some (ls.take j)) ∨
    (∀ j, ¬ ClosesAt marker ls j) ∧ untilClosed marker ls = none := by
  induction ls with
  | nil => exact .inr ⟨by simp [ClosesAt], rfl⟩
  | cons l ls ih =>
    rw [untilClosed]
    by_cases hl : closes marker l
    · rw [if_pos hl]
      exact .inl ⟨0, closesAt_zero_cons.mpr hl, fun k _ => Nat.zero_le k, rfl⟩
    · rw [if_neg hl]
      have hzero : ¬ ClosesAt marker (l :: ls) 0 := fun h => hl (closesAt_zero_cons.mp h)
      rcases ih with ⟨j, hj, hleast, heq⟩ | ⟨hnone, heq⟩
      · refine .inl ⟨j + 1, hj, ?_, by rw [heq]; rfl⟩
        rintro (_ | k) hk
        · exact absurd hk hzero
        · exact Nat.succ_le_succ (hleast k hk)
      · refine .inr ⟨?_, by rw [heq]; rfl⟩
        rintro (_ | k) hk
        · exact hzero hk
        · exact hnone k hk

/-- The line after the opening one never closes. -/
theorem enclosed_cases (marker : Text) (ls : List Text) :
    (∃ j, ClosesAt marker ls.tail j ∧ (∀ k, ClosesAt marker ls.tail k → j ≤ k) ∧
      enclosed marker ls = some (ls.take (j + 1))) ∨
    (∀ j, ¬ ClosesAt marker ls.tail j) ∧ enclosed marker ls = none := by
  cases ls with
  | nil => exact .inr ⟨by simp [ClosesAt], rfl⟩
  | cons l ls =>
    rw [enclosed, List.tail_cons]
    rcases untilClosed_cases marker ls with ⟨j, hj, hleast, heq⟩ | ⟨hnone, heq⟩
    · exact .inl ⟨j, hj, hleast, by rw [heq]; rfl⟩
    · exact .inr ⟨hnone, by rw [heq]; rfl⟩

/-! ## The markers of a line -/

theorem replicate_begins_iff {m : Nat} {c : Char} {l : Text} :
    List.replicate m c <+: l ↔ m ≤ (l.takeWhile (· == c)).length := by
  induction l generalizing m with
  | nil => cases m <;> simp [List.replicate_succ]
  | cons d l ih =>
    cases m with
    | zero => simp
    | succ m =>
      rw [List.replicate_succ, List.cons_prefix_cons, ih, List.takeWhile_cons]
      by_cases hd : d = c
      · simp [hd]
      · simp [hd, Ne.symm hd]

theorem eq_head_of_replicate {m : Nat} {mark c : Char} {t : Text} (hm : 3 ≤ m)
    (h : List.replicate m mark <+: c :: t) : mark = c := by
  obtain ⟨k, rfl⟩ := Nat.exists_eq_add_of_le' hm
  rw [List.replicate_succ, List.cons_prefix_cons] at h
  exact h.1

/-- The markers of a line are the beginnings of it that are three copies of a fence character or
more. -/
theorem mem_markers {marker l : Text} : marker ∈ markers l ↔
    ∃ mark m, (mark = '\x60' ∨ mark = '~') ∧ 3 ≤ m ∧ marker = List.replicate m mark ∧
      List.replicate m mark <+: l := by
  cases l with
  | nil =>
    simp only [markers, List.not_mem_nil, List.prefix_nil, List.replicate_eq_nil_iff, false_iff]
    rintro ⟨mark, m, -, hm, -, rfl⟩
    omega
  | cons c t =>
    rw [markers]
    by_cases hc : c = '\x60' ∨ c = '~'
    · rw [if_pos hc]
      simp only [List.mem_map, List.mem_reverse, List.mem_range]
      constructor
      · rintro ⟨k, hk, rfl⟩
        exact ⟨c, k + 3, hc, by omega, rfl, replicate_begins_iff.mpr (by omega)⟩
      · rintro ⟨mark, m, -, hm, rfl, hbegins⟩
        obtain rfl := eq_head_of_replicate hm hbegins
        have hle := replicate_begins_iff.mp hbegins
        exact ⟨m - 3, by omega, by rw [Nat.sub_add_cancel hm]⟩
    · rw [if_neg hc]
      simp only [List.not_mem_nil, false_iff]
      rintro ⟨mark, m, hmark, hm, -, hbegins⟩
      exact hc (eq_head_of_replicate hm hbegins ▸ hmark)

/-- The longest marker of a line comes first. -/
theorem pairwise_markers (l : Text) : (markers l).Pairwise fun a b => b.length < a.length := by
  cases l with
  | nil => exact .nil
  | cons c t =>
    rw [markers]
    split
    · rw [List.pairwise_map, List.pairwise_reverse]
      refine List.pairwise_lt_range.imp ?_
      intro k k' hk
      simpa using hk
    · exact .nil

/-! ## The first line that opens a pair -/

theorem pair_zero_iff {l : Text} {ls : List Text} {j m : Nat} : Pair (l :: ls) 0 j m ↔
    ∃ marker ∈ markers l, marker.length = m ∧ ∃ k, j = k + 2 ∧ ClosesAt marker ls.tail k := by
  have hget : ∀ k, (l :: ls)[k + 2]? = ls.tail[k]? := by
    intro k
    rw [List.getElem?_cons_succ, List.getElem?_tail]
  constructor
  · rintro ⟨hapart, hm, mark, hmark, ⟨l', hl, hbegins⟩, tail, hj, hblank⟩
    cases hl
    obtain ⟨k, rfl⟩ := Nat.exists_eq_add_of_le' hapart
    rw [Nat.zero_add, hget] at hj
    exact ⟨_, mem_markers.mpr ⟨mark, m, hmark, hm, rfl, hbegins⟩, List.length_replicate, k,
      by omega, _, hj, closes_iff.mpr ⟨tail, rfl, hblank⟩⟩
  · rintro ⟨marker, hmarker, hlength, k, rfl, l', hl, hcloses⟩
    obtain ⟨mark, m', hmark, hm, rfl, hbegins⟩ := mem_markers.mp hmarker
    obtain ⟨tail, rfl, hblank⟩ := closes_iff.mp hcloses
    rw [List.length_replicate] at hlength
    subst hlength
    exact ⟨by omega, hm, mark, hmark, ⟨l, rfl, hbegins⟩, tail, (hget k).trans hl, hblank⟩

theorem pair_succ_iff {l : Text} {ls : List Text} {i j m : Nat} :
    Pair (l :: ls) (i + 1) (j + 1) m ↔ Pair ls i j m := by
  constructor
  · rintro ⟨hapart, hm, hmarked⟩
    exact ⟨by omega, hm, hmarked⟩
  · rintro ⟨hapart, hm, hmarked⟩
    exact ⟨by omega, hm, hmarked⟩

theorem FirstPair.cons {l : Text} {ls : List Text} {i j m : Nat} (h : FirstPair ls i j m)
    (hzero : ∀ j m, ¬ Pair (l :: ls) 0 j m) : FirstPair (l :: ls) (i + 1) (j + 1) m where
  pair := pair_succ_iff.mpr h.pair
  first
    | 0, j', m', h' => absurd h' (hzero j' m')
    | i' + 1, 0, m', h' => absurd h'.apart (by omega)
    | i' + 1, j' + 1, m', h' => Nat.succ_le_succ (h.first i' j' m' (pair_succ_iff.mp h'))
  longest
    | 0, m', h' => absurd h'.apart (by omega)
    | j' + 1, m', h' => h.longest j' m' (pair_succ_iff.mp h')
  nearest
    | 0, h' => absurd h'.apart (by omega)
    | j' + 1, h' => Nat.succ_le_succ (h.nearest j' (pair_succ_iff.mp h'))

/-- The first marker of a line that is closed gives the first pair. -/
theorem firstPair_zero {l : Text} {ls : List Text} {marker : Text} {before after : List Text}
    (hmarkers : markers l = before ++ marker :: after)
    (hbefore : ∀ a ∈ before, ∀ j, ¬ ClosesAt a ls.tail j) {j : Nat}
    (hj : ClosesAt marker ls.tail j) (hleast : ∀ k, ClosesAt marker ls.tail k → j ≤ k) :
    FirstPair (l :: ls) 0 (j + 2) marker.length := by
  have hsorted := pairwise_markers l
  rw [hmarkers, List.pairwise_append, List.pairwise_cons] at hsorted
  obtain ⟨-, ⟨hafter, -⟩, hcross⟩ := hsorted
  have hcases : ∀ j' m', Pair (l :: ls) 0 j' m' → ∃ k, j' = k + 2 ∧
      (m' < marker.length ∨ m' = marker.length ∧ ClosesAt marker ls.tail k) := by
    intro j' m' h
    obtain ⟨a, ha, rfl, k, rfl, hk⟩ := pair_zero_iff.mp h
    rw [hmarkers, List.mem_append, List.mem_cons] at ha
    rcases ha with ha | rfl | ha
    · exact absurd hk (hbefore a ha k)
    · exact ⟨k, rfl, .inr ⟨rfl, hk⟩⟩
    · exact ⟨k, rfl, .inl (hafter a ha)⟩
  refine ⟨pair_zero_iff.mpr ⟨marker, by rw [hmarkers]; simp, rfl, j, rfl, hj⟩,
    fun i' _ _ _ => Nat.zero_le i', ?_, ?_⟩
  · intro j' m' h
    obtain ⟨k, -, hlt | ⟨heq, -⟩⟩ := hcases j' m' h
    · exact Nat.le_of_lt hlt
    · exact Nat.le_of_eq heq
  · intro j' h
    obtain ⟨k, rfl, hlt | ⟨-, hk⟩⟩ := hcases j' _ h
    · exact absurd hlt (Nat.lt_irrefl _)
    · exact Nat.add_le_add_right (hleast k hk) 2

theorem firstEnclosed_cases (ls : List Text) :
    (∃ i j m, FirstPair ls i j m ∧ firstEnclosed ls = some ((ls.take j).drop (i + 1))) ∨
    (∀ i j m, ¬ Pair ls i j m) ∧ firstEnclosed ls = none := by
  induction ls with
  | nil =>
    refine .inr ⟨?_, rfl⟩
    rintro i j m ⟨-, -, -, -, ⟨l, hl, -⟩, -⟩
    cases hl
  | cons l ls ih =>
    rw [firstEnclosed]
    cases hfound : (markers l).findSome? (enclosed · ls) with
    | some ps =>
      obtain ⟨before, marker, after, hmarkers, hmarker, hbefore⟩ :=
        List.findSome?_eq_some_iff.mp hfound
      rcases enclosed_cases marker ls with ⟨j, hj, hleast, heq⟩ | ⟨-, heq⟩
      · refine .inl ⟨0, j + 2, _, firstPair_zero hmarkers ?_ hj hleast, ?_⟩
        · intro a ha k hk
          rcases enclosed_cases a ls with ⟨_, -, -, hsome⟩ | ⟨hnone, -⟩
          · rw [hbefore a ha] at hsome
            cases hsome
          · exact hnone k hk
        · rw [← hmarker, heq]
          rfl
      · rw [heq] at hmarker
        cases hmarker
    | none =>
      have hzero : ∀ j m, ¬ Pair (l :: ls) 0 j m := by
        intro j m h
        obtain ⟨marker, hmarker, -, k, -, hk⟩ := pair_zero_iff.mp h
        have hnone := List.findSome?_eq_none_iff.mp hfound marker hmarker
        rcases enclosed_cases marker ls with ⟨_, -, -, hsome⟩ | ⟨hopen, -⟩
        · rw [hnone] at hsome
          cases hsome
        · exact hopen k hk
      rcases ih with ⟨i, j, m, hfirst, heq⟩ | ⟨hnone, heq⟩
      · exact .inl ⟨i + 1, j + 1, m, hfirst.cons hzero, by rw [heq]; rfl⟩
      · refine .inr ⟨?_, heq⟩
        rintro (_ | i) (_ | j) m h
        · exact hzero 0 m h
        · exact hzero (j + 1) m h
        · exact absurd h.apart (by omega)
        · exact hnone i j m (pair_succ_iff.mp h)

/-- A payload between two fences comes back as it is, where no line of it after the first could be
the closing fence. -/
theorem payload_block {mark : Char} {count : Nat} {info text : Text}
    (hmark : mark = '\x60' ∨ mark = '~') (hcount : 3 ≤ count) (hinfo : '\n' ∉ info)
    (hhead : info.head? ≠ some mark)
    (hopen : ∀ l ∈ text.lines.tail, ¬ closes (List.replicate count mark) l) :
    payload (List.replicate count mark ++ info ++ '\n' ::
      (text ++ '\n' :: List.replicate count mark)) = text := by
  obtain ⟨first, others, hlines⟩ := text.exists_lines_eq_cons
  rw [hlines, List.tail_cons] at hopen
  let B : Block := ⟨mark, hmark, count, hcount, info, hhead, first, others, hopen, [], rfl⟩
  have hnewline : '\n' ∉ List.replicate count mark := by
    intro h
    obtain ⟨-, rfl⟩ := List.mem_replicate.mp h
    exact absurd hmark (by decide)
  have hopening : '\n' ∉ List.replicate count mark ++ info := by
    rw [List.mem_append]
    exact fun h => h.elim hnewline hinfo
  have hB : Text.lines (List.replicate count mark ++ info ++ '\n' ::
      (text ++ '\n' :: List.replicate count mark)) = B.lines := by
    rw [Text.lines_append_newline, Text.lines_append_newline, Text.lines_eq_singleton hopening,
      Text.lines_eq_singleton hnewline, hlines]
    simp [B, Block.lines, Block.opening, Block.marker]
  have hpayload : B.payload = text := by
    rw [Block.payload, ← hlines, Text.unlines_lines]
  rw [Block.payload_eq hB, hpayload]

/-- The payload of a text is what stands between its first pair of fences, or the whole text where
there is no pair. So what is put between two fences comes back as it is. -/
theorem payload_firstPair :
    (∀ t : Text,
      (∃ i j m, FirstPair t.lines i j m ∧
        payload t = Text.unlines ((t.lines.take j).drop (i + 1))) ∨
      (∀ i j m, ¬ Pair t.lines i j m) ∧ payload t = t) ∧
    ∀ (mark : Char) (count : Nat) (info text : Text), mark = '\x60' ∨ mark = '~' → 3 ≤ count →
      '\n' ∉ info → info.head? ≠ some mark →
      (∀ l ∈ text.lines.tail, ∀ tail : Text, (∀ d ∈ tail, d = ' ' ∨ d = '\t') →
        l ≠ List.replicate count mark ++ tail) →
      payload (List.replicate count mark ++ info ++ '\n' ::
        (text ++ '\n' :: List.replicate count mark)) = text := by
  refine ⟨?_, ?_⟩
  · intro t
    rcases firstEnclosed_cases t.lines with ⟨i, j, m, hfirst, heq⟩ | ⟨hnone, heq⟩
    · exact .inl ⟨i, j, m, hfirst, by rw [payload, heq]⟩
    · exact .inr ⟨hnone, by rw [payload, heq]⟩
  · intro mark count info text hmark hcount hinfo hhead hopen
    refine payload_block hmark hcount hinfo hhead ?_
    intro l hl hcloses
    obtain ⟨tail, hline, hblank⟩ := closes_iff.mp hcloses
    exact hopen l hl tail hblank hline

/-- Four tildes with an info string hold three, and a first line of four. -/
theorem payload_firstPair_tildes :
    payload "~~~~ a\n~~~~\n~~~\nx\n~~~~".toList = "~~~~\n~~~\nx".toList := by
  refine payload_firstPair.2 '~' 4 " a".toList "~~~~\n~~~\nx".toList (.inr rfl) (by decide)
    (by decide) (by decide) ?_
  intro l hl tail hblank heq
  have hcloses : ∀ l ∈ (Text.lines "~~~~\n~~~\nx".toList).tail,
      ¬ closes (List.replicate 4 '~') l := by decide
  exact hcloses l hl (closes_iff.mpr ⟨tail, heq, hblank⟩)

end CodeChunks.Fence
