import CodeChunks.Proofs.Tree.Anchors
import Mathlib.Data.Prod.Lex

/-! # Rows and columns found by halving are those of a reader

Whoever reads a text from its beginning moves to the next column at each character, and to the first
column of the next row at a newline. Each character leads to a later place, so that no two offsets
share one, and what the search among the newlines finds is the place that the reader has come to. -/
namespace CodeChunks

namespace Text

/-- The row and the column behind a character that stands at a row and a column. -/
def advance (place : Nat × Int) (c : Char) : Nat × Int :=
  if c = '\n' then (place.1 + 1, 0) else (place.1, place.2 + 1)

/-- The row and the column of an offset, found by reading the text up to it. -/
def placeAt (t : Text) (o : Nat) : Nat × Int := (t.take o).foldl advance (0, 0)

/-- The line of an offset starts where the text does or just after a newline, and no newline stands
between that start and the offset. -/
structure IsLineStart (t : Text) (o start : Nat) : Prop where
  le : start ≤ o
  opens : start = 0 ∨ t[start - 1]? = some '\n'
  unbroken : ∀ p, start ≤ p → p < o → t[p]? ≠ some '\n'

section

variable {t : Text} {o start : Nat}

theorem IsLineStart.le_of {start' : Nat} (h : t.IsLineStart o start)
    (h' : t.IsLineStart o start') : start' ≤ start := by
  by_contra hlt
  have hopens := h'.opens.resolve_left (by omega)
  have hle := h'.le
  exact h.unbroken (start' - 1) (by omega) (by omega) hopens

theorem IsLineStart.unique {start' : Nat} (h : t.IsLineStart o start)
    (h' : t.IsLineStart o start') : start = start' :=
  Nat.le_antisymm (h'.le_of h) (h.le_of h')

theorem isLineStart_of_newline (h : t[o]? = some '\n') : t.IsLineStart (o + 1) (o + 1) where
  le := Nat.le_refl _
  opens := .inr h
  unbroken _ hle hlt := absurd hlt (Nat.not_lt.mpr hle)

theorem IsLineStart.succ (h : t.IsLineStart o start) (hc : t[o]? ≠ some '\n') :
    t.IsLineStart (o + 1) start where
  le := Nat.le_succ_of_le h.le
  opens := h.opens
  unbroken p hle hlt := by
    rcases Nat.lt_or_eq_of_le (Nat.le_of_lt_succ hlt) with hp | rfl
    · exact h.unbroken p hle hp
    · exact hc

theorem isLineStart_rowStart (t : Text) (o : Nat) :
    t.IsLineStart o ((LineIndex.ofText t).rowStart ((LineIndex.ofText t).row o)) := by
  obtain ⟨hle, hopens, hunbroken⟩ := LineIndex.rowStart_spec t o
  exact ⟨hle, hopens, hunbroken⟩

theorem placeAt_succ (h : o < t.length) : t.placeAt (o + 1) = advance (t.placeAt o) t[o] := by
  rw [placeAt, List.take_succ_eq_append_getElem h, List.foldl_append]
  rfl

/-- The reader has counted the newlines, and the characters since the start of the line. -/
theorem placeAt_eq (h : o ≤ t.length) (hstart : t.IsLineStart o start) :
    t.placeAt o = ((t.take o).count '\n', (o : Int) - start) := by
  induction o generalizing start with
  | zero =>
    have hzero : start = 0 := Nat.le_zero.mp hstart.le
    simp [placeAt, hzero]
  | succ o ih =>
    have hlt : o < t.length := h
    have hget : t[o]? = some t[o] := List.getElem?_eq_getElem hlt
    have hprev := t.isLineStart_rowStart o
    rw [placeAt_succ hlt, ih (Nat.le_of_lt hlt) hprev, advance,
      List.take_succ_eq_append_getElem hlt, List.count_append, List.count_singleton]
    by_cases hc : t[o] = '\n'
    · have heq := hstart.unique (isLineStart_of_newline (hget.trans (congrArg some hc)))
      simp [hc, heq]
    · have hne : t[o]? ≠ some '\n' := fun hn => hc (Option.some.inj (hget.symm.trans hn))
      have heq := hstart.unique (hprev.succ hne)
      simp [hc, heq]
      omega

theorem lt_advance (place : Nat × Int) (c : Char) : toLex place < toLex (advance place c) := by
  rw [Prod.Lex.toLex_lt_toLex, advance]
  split
  · exact .inl (Nat.lt_succ_self _)
  · exact .inr ⟨rfl, Int.lt_succ _⟩

/-- The reader never comes back to a place. -/
theorem placeAt_lt {p : Nat} (h : o < p) (hp : p ≤ t.length) :
    toLex (t.placeAt o) < toLex (t.placeAt p) := by
  induction p, h using Nat.le_induction with
  | base =>
    rw [placeAt_succ hp]
    exact lt_advance _ _
  | succ p hop ih =>
    refine (ih (Nat.le_of_succ_le hp)).trans ?_
    rw [placeAt_succ hp]
    exact lt_advance _ _

theorem placeAt_lt_iff {p : Nat} (ho : o ≤ t.length) (hp : p ≤ t.length) :
    toLex (t.placeAt o) < toLex (t.placeAt p) ↔ o < p := by
  refine ⟨fun h => ?_, fun h => placeAt_lt h hp⟩
  rcases Nat.lt_trichotomy o p with hlt | rfl | hgt
  · exact hlt
  · exact absurd h (lt_irrefl _)
  · exact absurd h (lt_asymm (placeAt_lt hgt ho))

end

end Text

namespace LineIndex

variable {t : Text}

theorem point_eq_placeAt {o : Nat} (h : o ≤ t.length) :
    (ofText t).point o = .ok (t.placeAt o) := by
  rw [Text.placeAt_eq h (t.isLineStart_rowStart o), point_ofText t h]

theorem point_eq_error_iff {o : Int} {e : OutOfRange} : (ofText t).point o = .error e ↔
    (o < 0 ∨ t.length < o) ∧ e = ⟨o, t.length⟩ := by
  by_cases ho : o < 0 ∨ (t.length : Int) < o
  · simp [point_ofText_eq_error t ho, ho, eq_comm]
  · obtain ⟨k, rfl⟩ := Int.eq_ofNat_of_zero_le (show 0 ≤ o by omega)
    simp only [point_eq_placeAt (show k ≤ t.length by omega), ho, reduceCtorEq, false_and]

/-- Only an offset of the text has a row and a column. -/
theorem eq_placeAt_of_point {o : Int} {a : Nat × Int} (h : (ofText t).point o = .ok a) :
    ∃ k : Nat, o = k ∧ k ≤ t.length ∧ a = t.placeAt k := by
  by_cases ho : o < 0 ∨ (t.length : Int) < o
  · rw [point_ofText_eq_error t ho] at h
    cases h
  · obtain ⟨k, rfl⟩ := Int.eq_ofNat_of_zero_le (show 0 ≤ o by omega)
    have hk : k ≤ t.length := by omega
    rw [point_eq_placeAt hk] at h
    exact ⟨k, rfl, hk, (Except.ok.inj h).symm⟩

theorem lastBreak?_eq_none_iff {low high : Int} : (ofText t).lastBreak? low high = none ↔
    ∀ p : Nat, low ≤ p → p < high → t[p]? ≠ some '\n' := by
  refine ⟨fun h p => not_newline_of_lastBreak? t h, fun h => ?_⟩
  cases hbreak : (ofText t).lastBreak? low high with
  | none => rfl
  | some k =>
    obtain ⟨p, -, hp⟩ := lastBreak?_spec t hbreak
    exact absurd hp.newline (h p hp.low_le hp.lt_high)

theorem lastBreak?_eq_some_iff {low high : Int} {k : Nat} :
    (ofText t).lastBreak? low high = some k ↔ ∃ p, k = p + 1 ∧ t.IsLastBreak low high p := by
  refine ⟨lastBreak?_spec t, ?_⟩
  rintro ⟨p, rfl, hp⟩
  cases hbreak : (ofText t).lastBreak? low high with
  | none => exact absurd hp.newline (lastBreak?_eq_none_iff.mp hbreak p hp.low_le hp.lt_high)
  | some k =>
    obtain ⟨q, rfl, hq⟩ := lastBreak?_spec t hbreak
    rw [hq.unique hp]

theorem line?_ofText {o : Nat} (h : o ≤ t.length) : (ofText t).line? o = .ok (t.lineAt o) := by
  rw [line?, point_ofText t h]
  rfl

theorem lastLine?_ofText {start stop : Nat} (hle : start ≤ stop) (h : stop ≤ t.length) :
    (ofText t).lastLine? start stop = .ok (t.lastLineAt start stop) := by
  rw [lastLine?, Text.lastLineAt]
  rcases Nat.lt_or_eq_of_le hle with hlt | rfl
  · have hstop : (stop : Int) - 1 = (stop - 1 : Nat) := by omega
    rw [if_neg (by omega), if_pos hlt, hstop, line?_ofText (by omega)]
  · rw [if_pos (Int.le_refl _), if_neg (Nat.lt_irrefl _), line?_ofText h]

end LineIndex

theorem Span.exists_isAt {t : Text} {start stop : Nat} (hle : start ≤ stop)
    (h : stop ≤ t.length) : ∃ s : Span, s.IsAt t start stop := by
  have hord : (start : Int) ≤ stop := by omega
  simp only [IsAt, Tree.spanAt, Tree.positionAt_ofText t (Nat.le_trans hle h),
    Tree.positionAt_ofText t h, bind, Except.bind, make?, dif_pos hord, Except.mapError]
  exact ⟨_, rfl⟩

namespace LineIndex

/-- A line index that answers as a reader of the text would. -/
structure Reads (t : Text) (ix : LineIndex) : Prop where
  refuses : ∀ o e, ix.point o = .error e ↔ (o < 0 ∨ t.length < o) ∧ e = ⟨o, t.length⟩
  reads : ∀ o : Nat, o ≤ t.length → ix.point o = .ok (t.placeAt o)
  counts : ∀ o : Nat, o ≤ t.length → ∃ start, t.IsLineStart o start ∧
    ix.point o = .ok ((t.take o).count '\n', (o : Int) - start)
  increases : ∀ o p a b, ix.point o = .ok a → ix.point p = .ok b → (o < p ↔ toLex a < toLex b)
  determines : ∀ o p a, ix.point o = .ok a → ix.point p = .ok a → o = p
  lastBreak : ∀ low high k,
    ix.lastBreak? low high = some k ↔ ∃ p, k = p + 1 ∧ t.IsLastBreak low high p
  noBreak : ∀ low high, ix.lastBreak? low high = none ↔
    ∀ p : Nat, low ≤ p → p < high → t[p]? ≠ some '\n'
  span : ∀ start stop : Nat, start ≤ stop → stop ≤ t.length →
    ∃ (s : Span) (first last : Nat), Tree.spanAt ix start stop = .ok s ∧
      ix.line? start = .ok first ∧ s.firstLine = first ∧
      ix.lastLine? start stop = .ok last ∧ s.lastLine = last

/-- The offsets of a text, and no others, have a row and a column: the number of newlines before
them and the distance from the start of their line, later ones for later offsets. The last newline
of a range is found wherever there is one, and a span between two offsets has the first and the last
line that are found for them. -/
theorem ofText_reads (t : Text) : (ofText t).Reads t where
  refuses _ _ := point_eq_error_iff
  reads _ h := point_eq_placeAt h
  counts o h := ⟨_, t.isLineStart_rowStart o, point_ofText t h⟩
  increases o p a b ha hb := by
    obtain ⟨k, rfl, hk, rfl⟩ := eq_placeAt_of_point ha
    obtain ⟨m, rfl, hm, rfl⟩ := eq_placeAt_of_point hb
    rw [Text.placeAt_lt_iff hk hm]
    exact Int.ofNat_lt
  determines o p a ho hp := by
    obtain ⟨k, rfl, hk, rfl⟩ := eq_placeAt_of_point ho
    obtain ⟨m, rfl, hm, heq⟩ := eq_placeAt_of_point hp
    have hkm := mt (Text.placeAt_lt_iff hk hm).mpr (heq ▸ lt_irrefl _)
    have hmk := mt (Text.placeAt_lt_iff hm hk).mpr (heq ▸ lt_irrefl _)
    omega
  lastBreak _ _ _ := lastBreak?_eq_some_iff
  noBreak _ _ := lastBreak?_eq_none_iff
  span start stop hle h := by
    obtain ⟨s, hs⟩ := Span.exists_isAt hle h
    exact ⟨s, t.lineAt start, t.lastLineAt start stop, hs, line?_ofText (hle.trans h),
      hs.firstLine_eq, lastLine?_ofText hle h, hs.lastLine_eq⟩

end LineIndex

end CodeChunks
