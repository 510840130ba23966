import CodeChunks.Text.Lower
import Mathlib.Data.List.TakeWhile

/-! # Lower case is reached in one step

A lower-case form is its own, and the forms of a character that is not blank are not blank. Both are
read off the table, two of its runs at a time; so the key of a name is its own key. -/
namespace CodeChunks.Text

/-- The first and the last lower-case form of a run. -/
def CaseRun.low (r : CaseRun) : Nat := (r.first + r.shift).toNat

def CaseRun.high (r : CaseRun) : Nat := (r.last + r.shift).toNat

/-- Whether no lower-case form of one run stands in the other. -/
-- only numbers are compared, so that all pairs of runs can be gone through
def CaseRun.avoids (r q : CaseRun) : Bool :=
  r.high.blt q.first || q.last.blt r.low ||
    (r.step.beq 2 || r.low.beq r.high) && q.step.beq 2 && ((r.low + q.first) % 2).beq 1

/-- The blanks, the two letters that are treated apart, and the surrogates. -/
def unlowered : List (Nat × Nat) :=
  [(9, 13), (28, 32), (0x85, 0x85), (0xA0, 0xA0), (0x130, 0x130), (0x3A3, 0x3A3),
   (0x1680, 0x1680), (0x2000, 0x200A), (0x2028, 0x2029), (0x202F, 0x202F), (0x205F, 0x205F),
   (0x3000, 0x3000), (0xD800, 0xDFFF)]

theorem caseRuns_avoid : caseRuns.all fun r => caseRuns.all r.avoids := by
  decide +kernel

theorem caseRuns_clear : ∀ r ∈ caseRuns, ∀ p ∈ unlowered, r.high < p.1 ∨ p.2 < r.low := by
  decide +kernel

theorem caseRuns_inRange :
    ∀ r ∈ caseRuns, 0 ≤ r.first + r.shift ∧ r.last + r.shift < 0x110000 := by
  decide +kernel

theorem CaseRun.holds_iff {r : CaseRun} {n : Nat} :
    r.holds n ↔ r.first ≤ n ∧ n ≤ r.last ∧ (n - r.first) % r.step = 0 := by
  simp [CaseRun.holds, and_assoc]

theorem CaseRun.avoids_iff {r q : CaseRun} :
    r.avoids q ↔ r.high < q.first ∨ q.last < r.low ∨
      (r.step = 2 ∨ r.low = r.high) ∧ q.step = 2 ∧ (r.low + q.first) % 2 = 1 := by
  simp [CaseRun.avoids, Nat.blt_eq, or_assoc, and_assoc]

/-- What the code of a lower-case form is not. -/
structure Lowered (n : Nat) : Prop where
  runs : ∀ q ∈ caseRuns, ¬ q.holds n
  clear : ∀ p ∈ unlowered, n < p.1 ∨ p.2 < n
  inRange : n < 0x110000

theorem lowered_shift {r : CaseRun} (hr : r ∈ caseRuns) {n : Nat} (hn : r.holds n) :
    Lowered (n + r.shift).toNat := by
  have hrange := caseRuns_inRange r hr
  obtain ⟨hfirst, hlast, hstep⟩ := CaseRun.holds_iff.mp hn
  refine ⟨fun q hq hqn => ?_, fun p hp => ?_, by omega⟩
  · have havoids := List.all_eq_true.mp (List.all_eq_true.mp caseRuns_avoid r hr) q hq
    obtain ⟨hfirst', hlast', hstep'⟩ := CaseRun.holds_iff.mp hqn
    rw [CaseRun.avoids_iff, CaseRun.low, CaseRun.high] at havoids
    rcases havoids with h | h | ⟨h, hq2, hodd⟩
    · omega
    · omega
    · rw [hq2] at hstep'
      rcases h with h | h
      · rw [h] at hstep
        omega
      · omega
  · have hclear := caseRuns_clear r hr p hp
    rw [CaseRun.low, CaseRun.high] at hclear
    omega

/-- The character is its own lower-case form, also at the end of a word. -/
def IsLower (c : Char) : Prop := lowerChar c = [c] ∧ c ≠ 'Σ'

theorem Lowered.ne {c d : Char} (h : Lowered c.toNat) (hd : (d.toNat, d.toNat) ∈ unlowered) :
    c ≠ d := by
  rintro rfl
  have := h.clear _ hd
  omega

theorem toLower_eq_self {c : Char} (h : ¬ (0x41 ≤ c.toNat ∧ c.toNat ≤ 0x5A)) : c.toLower = c :=
  dif_neg h

theorem toNat_toLower {c : Char} (h : 0x41 ≤ c.toNat ∧ c.toNat ≤ 0x5A) :
    c.toLower.toNat = c.toNat + 32 := by
  have hval : c.toLower.val = c.val + 32 := congrArg Char.val (dif_pos h)
  rw [← Char.toNat_val, hval, UInt32.toNat_add, Char.toNat_val]
  exact Nat.mod_eq_of_lt (show c.toNat + 32 < 2 ^ 32 by omega)

theorem Lowered.isLower {c : Char} (h : Lowered c.toNat) : IsLower c := by
  refine ⟨?_, h.ne (by decide)⟩
  rw [lowerChar]
  split
  · have hupper := h.runs ⟨0x41, 0x5A, 1, 32⟩ List.mem_cons_self
    rw [CaseRun.holds_iff, Nat.mod_one] at hupper
    rw [toLower_eq_self fun hc => hupper ⟨hc.1, hc.2, rfl⟩]
  · rw [if_neg (h.ne (by decide)), List.find?_eq_none.mpr h.runs]

theorem Lowered.not_isBlank {c : Char} (h : Lowered c.toNat) : isBlank c = false := by
  have hclear := h.clear
  simp only [unlowered, List.forall_mem_cons] at hclear
  rw [Bool.eq_false_iff]
  intro hblank
  simp only [isBlank, Bool.or_eq_true, Bool.and_eq_true, decide_eq_true_eq, beq_iff_eq] at hblank
  omega

theorem Lowered.toNat_ofNat {n : Nat} (h : Lowered n) : (Char.ofNat n).toNat = n := by
  have hvalid : n.isValidChar := by
    have hsurrogate := h.clear (0xD800, 0xDFFF) (by decide)
    have := h.inRange
    simp only [Nat.isValidChar]
    omega
  rw [Char.ofNat, dif_pos hvalid]
  rfl

theorem lowerChar_cases (c : Char) :
    lowerChar c = [c] ∨ c = 'İ' ∨ ∃ d, lowerChar c = [d] ∧ Lowered d.toNat := by
  rw [lowerChar]
  split
  · by_cases hupper : 0x41 ≤ c.toNat ∧ c.toNat ≤ 0x5A
    · have hholds : (⟨0x41, 0x5A, 1, 32⟩ : CaseRun).holds c.toNat := by
        rw [CaseRun.holds_iff]
        exact ⟨hupper.1, hupper.2, Nat.mod_one _⟩
      have hlowered : Lowered (c.toNat + 32) := lowered_shift List.mem_cons_self hholds
      exact .inr (.inr ⟨_, rfl, toNat_toLower hupper ▸ hlowered⟩)
    · exact .inl (by rw [toLower_eq_self hupper])
  split
  · exact .inr (.inl ‹_›)
  · cases hfind : caseRuns.find? (·.holds c.toNat) with
    | none => exact .inl rfl
    | some r =>
      have hlowered := lowered_shift (List.mem_of_find?_eq_some hfind)
        (by simpa using List.find?_some hfind)
      exact .inr (.inr ⟨_, rfl, hlowered.toNat_ofNat.symm ▸ hlowered⟩)

/-- What the lower-case forms of a character are, whatever stands around it. -/
structure Form (c d : Char) : Prop where
  isLower : IsLower d
  blank : isBlank c = false → isBlank d = false

theorem form_of_mem_lowerChar {c d : Char} (hc : c ≠ 'Σ') (h : d ∈ lowerChar c) : Form c d := by
  rcases lowerChar_cases c with hself | rfl | ⟨e, he, hlowered⟩
  · rw [hself, List.mem_singleton] at h
    rw [h]
    exact ⟨⟨hself, hc⟩, id⟩
  · have hforms : lowerChar 'İ' = ['i', '\u0307'] := rfl
    rw [hforms] at h
    have hi : IsLower 'i' := ⟨rfl, by decide⟩
    have hdot : IsLower '\u0307' := by
      unfold IsLower
      decide +kernel
    rw [List.mem_cons, List.mem_singleton] at h
    rcases h with rfl | rfl
    · exact ⟨hi, fun _ => rfl⟩
    · exact ⟨hdot, fun _ => rfl⟩
  · rw [he, List.mem_singleton] at h
    exact h ▸ ⟨hlowered.isLower, fun _ => hlowered.not_isBlank⟩

/-- What one character becomes between its neighbours. -/
def forms (before : Text) (c : Char) (after : Text) : Text :=
  if c = 'Σ' then [if meetsCased before && !meetsCased after then 'ς' else 'σ'] else lowerChar c

theorem lowerAfter_cons (before : Text) (c : Char) (t : Text) :
    lowerAfter before (c :: t) = forms before c t ++ lowerAfter (c :: before) t := rfl

theorem form_of_mem_forms {before after : Text} {c d : Char} (h : d ∈ forms before c after) :
    Form c d := by
  rw [forms] at h
  split at h
  · have hsigma : IsLower 'ς' ∧ IsLower 'σ' := by
      unfold IsLower
      decide +kernel
    rw [List.mem_singleton] at h
    split at h
    · exact h ▸ ⟨hsigma.1, fun _ => rfl⟩
    · exact h ▸ ⟨hsigma.2, fun _ => rfl⟩
  · exact form_of_mem_lowerChar ‹_› h

theorem forms_ne_nil (before : Text) (c : Char) (after : Text) : forms before c after ≠ [] := by
  rw [forms]
  split
  · exact List.cons_ne_nil _ _
  · rcases lowerChar_cases c with h | rfl | ⟨d, h, -⟩
    · simp [h]
    · simp [lowerChar]
    · simp [h]

theorem isLower_of_mem_lowerAfter {before t : Text} {d : Char} (h : d ∈ lowerAfter before t) :
    IsLower d := by
  induction t generalizing before with
  | nil => cases h
  | cons c t ih =>
    rw [lowerAfter_cons, List.mem_append] at h
    rcases h with h | h
    · exact (form_of_mem_forms h).isLower
    · exact ih h

theorem lowerAfter_eq_self {before t : Text} (h : ∀ c ∈ t, IsLower c) :
    lowerAfter before t = t := by
  induction t generalizing before with
  | nil => rfl
  | cons c t ih =>
    obtain ⟨hc, ht⟩ := List.forall_mem_cons.mp h
    rw [lowerAfter_cons, ih ht, forms, if_neg hc.2, hc.1]
    rfl

theorem lower_lower (t : Text) : lower (lower t) = lower t :=
  lowerAfter_eq_self fun _ => isLower_of_mem_lowerAfter

/-- No blank stands at either end. -/
structure Trimmed (t : Text) : Prop where
  first : ∀ c ∈ t.head?, isBlank c = false
  last : ∀ c ∈ t.getLast?, isBlank c = false

theorem head?_dropWhile_blank (t : Text) :
    ∀ c ∈ (t.dropWhile isBlank).head?, isBlank c = false := by
  intro c hc
  have := List.head?_dropWhile_not isBlank t
  rw [Option.mem_def] at hc
  rwa [hc] at this

theorem dropWhile_eq_self {t : Text} (h : ∀ c ∈ t.head?, isBlank c = false) :
    t.dropWhile isBlank = t := by
  cases t with
  | nil => rfl
  | cons c t => rw [List.dropWhile_cons_of_neg (by simp [h c rfl])]

theorem trimmed_strip (t : Text) : Trimmed (strip t) := by
  constructor
  · intro c hc
    have hprefix : strip t <+: t.dropWhile isBlank := by
      rw [strip, trimRight, ← List.reverse_suffix, List.reverse_reverse]
      exact List.dropWhile_suffix isBlank
    obtain ⟨u, hu⟩ := hprefix
    apply head?_dropWhile_blank t
    rw [← hu, List.head?_append, Option.mem_def.mp hc]
    rfl
  · rw [strip, trimRight, List.getLast?_reverse]
    exact head?_dropWhile_blank _

theorem strip_eq_nil_iff {t : Text} : strip t = [] ↔ allBlank t := by
  have hall : allBlank t ↔ t.dropWhile isBlank = [] := by
    rw [allBlank, List.all_eq_true, List.dropWhile_eq_nil_iff]
  rw [hall]
  constructor
  · intro h
    rw [strip, trimRight, List.reverse_eq_nil_iff, List.dropWhile_eq_nil_iff] at h
    have hfirst := head?_dropWhile_blank t
    cases hdrop : t.dropWhile isBlank with
    | nil => rfl
    | cons c u =>
      rw [hdrop] at h hfirst
      have hc := h c (List.mem_reverse.mpr List.mem_cons_self)
      rw [hfirst c rfl] at hc
      cases hc
  · intro h
    rw [strip, h]
    rfl

theorem Trimmed.strip_eq {t : Text} (h : Trimmed t) : strip t = t := by
  rw [strip, dropWhile_eq_self h.first, trimRight, dropWhile_eq_self, List.reverse_reverse]
  rw [List.head?_reverse]
  exact h.last

theorem lowerAfter_eq_nil {before t : Text} (h : lowerAfter before t = []) : t = [] := by
  cases t with
  | nil => rfl
  | cons c t =>
    rw [lowerAfter_cons, List.append_eq_nil_iff] at h
    exact absurd h.1 (forms_ne_nil before c t)

theorem exists_form_of_head? {before t : Text} {d : Char} (h : d ∈ (lowerAfter before t).head?) :
    ∃ c ∈ t.head?, Form c d := by
  cases t with
  | nil => cases h
  | cons c t =>
    rw [lowerAfter_cons, List.head?_append, Option.mem_def, Option.or_eq_some_iff] at h
    rcases h with h | ⟨hnil, -⟩
    · exact ⟨c, rfl, form_of_mem_forms (List.mem_of_head? h)⟩
    · exact absurd (List.head?_eq_none_iff.mp hnil) (forms_ne_nil before c t)

theorem exists_form_of_getLast? {before t : Text} {d : Char}
    (h : d ∈ (lowerAfter before t).getLast?) : ∃ c ∈ t.getLast?, Form c d := by
  induction t generalizing before with
  | nil => cases h
  | cons c t ih =>
    rw [lowerAfter_cons, List.getLast?_append, Option.mem_def, Option.or_eq_some_iff] at h
    rcases h with h | ⟨hnil, h⟩
    · obtain ⟨e, he, hform⟩ := ih h
      refine ⟨e, ?_, hform⟩
      rw [List.getLast?_cons, Option.mem_def.mp he]
      rfl
    · obtain rfl := lowerAfter_eq_nil (List.getLast?_eq_none_iff.mp hnil)
      exact ⟨c, rfl, form_of_mem_forms (List.mem_of_getLast? h)⟩

theorem Trimmed.lower {t : Text} (h : Trimmed t) : Trimmed (lower t) := by
  constructor
  · intro d hd
    obtain ⟨c, hc, hform⟩ := exists_form_of_head? hd
    exact hform.blank (h.first c hc)
  · intro d hd
    obtain ⟨c, hc, hform⟩ := exists_form_of_getLast? hd
    exact hform.blank (h.last c hc)

end CodeChunks.Text

namespace CodeChunks

/-- The key of a name is its own key. -/
theorem nameKey_nameKey (s : String) : nameKey (nameKey s) = nameKey s := by
  have h := (Text.trimmed_strip s.toList).lower
  simp only [nameKey, lowerName, stripName, String.toList_ofList]
  rw [h.strip_eq, Text.lower_lower]

theorem nameKey_eq_empty_iff {s : String} : nameKey s = "" ↔ Text.allBlank s.toList := by
  rw [← Text.strip_eq_nil_iff, ← String.toList_eq_nil_iff]
  simp only [nameKey, lowerName, stripName, String.toList_ofList]
  constructor
  · exact Text.lowerAfter_eq_nil
  · intro h
    rw [h]
    rfl

end CodeChunks
