import CodeChunks.Proofs.Chunk.Regrouping
import CodeChunks.Proofs.Store.Holdings
import CodeChunks.Proofs.Text.Lowering

/-! # The words of a text and of its parts

A word is a longest run of word characters of the lower-cased text. What a sigma becomes depends on
the text around it, but it is no word character in either form; so the words of a text are those of
its parts wherever it is cut at a character that is in no word. An empty line is made of such
characters, and merging only ever puts empty lines between texts. -/
namespace CodeChunks

section

variable {p : Char → Bool}

/-- The offsets of a longest run of characters of a kind: those on either side are of another. -/
structure IsRun (p : Char → Bool) (t : Text) (r : Nat × Nat) : Prop where
  lt : r.1 < r.2
  within : ∀ i, r.1 ≤ i → i < r.2 → ∃ c ∈ t[i]?, p c
  before : ∀ i, i + 1 = r.1 → ∀ c ∈ t[i]?, p c = false
  after : ∀ c ∈ t[r.2]?, p c = false

namespace IsRun

variable {t : Text} {r : Nat × Nat}

theorem le_length (h : IsRun p t r) : r.2 ≤ t.length := by
  have hlt := h.lt
  obtain ⟨c, hc, -⟩ := h.within (r.2 - 1) (by omega) (by omega)
  have := (List.getElem?_eq_some_iff.mp hc).1
  omega

theorem length_extract (h : IsRun p t r) : (t.extract r.1 r.2).length = r.2 - r.1 := by
  have hle := h.le_length
  rw [List.extract_eq_take_drop, List.length_take, List.length_drop]
  omega

theorem of_mem_extract (h : IsRun p t r) : ∀ c ∈ t.extract r.1 r.2, p c := by
  intro c hc
  rw [List.extract_eq_take_drop] at hc
  obtain ⟨i, hi⟩ := List.mem_iff_getElem?.mp hc
  rw [List.getElem?_take, Option.ite_none_right_eq_some, List.getElem?_drop] at hi
  obtain ⟨d, hd, hp⟩ := h.within (r.1 + i) (by omega) (by omega)
  rwa [← Option.some.inj (hi.2.symm.trans hd)] at hp

end IsRun

/-- Behind a stretch from `d` to `e` that cannot go on, a run starts no earlier than `d` only where
the stretch is that run, or behind the character at `e`. -/
theorem isRun_stretch {t : Text} {d e : Nat} (hde : d ≤ e)
    (hwithin : ∀ i, d ≤ i → i < e → ∃ c ∈ t[i]?, p c)
    (hbefore : ∀ i, i + 1 = d → ∀ c ∈ t[i]?, p c = false)
    (hafter : ∀ c ∈ t[e]?, p c = false) (r : Nat × Nat) :
    IsRun p t r ∧ d ≤ r.1 ↔ d < e ∧ r = (d, e) ∨ IsRun p t r ∧ e < r.1 := by
  constructor
  · rintro ⟨hr, hd⟩
    have hnot : ∀ i : Nat, (∀ c ∈ t[i]?, p c = false) → ¬ ∃ c ∈ t[i]?, p c := by
      rintro i hi ⟨c, hc, hp⟩
      rw [hi c hc] at hp
      cases hp
    have hlt := hr.lt
    rcases Nat.lt_or_ge e r.1 with he | he
    · exact .inr ⟨hr, he⟩
    have hstart : r.1 < e := by
      rcases Nat.lt_or_eq_of_le he with he | he
      · exact he
      · exact absurd (hr.within e (by omega) (by omega)) (hnot e hafter)
    have hfirst : r.1 = d := by
      by_contra hne
      have := hwithin (r.1 - 1) (by omega) (by omega)
      exact hnot _ (hr.before (r.1 - 1) (by omega)) this
    have hlast : r.2 = e := by
      rcases Nat.lt_trichotomy r.2 e with h | h | h
      · exact absurd (hwithin r.2 (by omega) h) (hnot _ hr.after)
      · exact h
      · exact absurd (hr.within e (by omega) h) (hnot e hafter)
    exact .inl ⟨by omega, Prod.ext hfirst hlast⟩
  · rintro (⟨hlt, rfl⟩ | ⟨hr, he⟩)
    · exact ⟨⟨hlt, hwithin, hbefore, hafter⟩, Nat.le_refl d⟩
    · exact ⟨hr, by omega⟩

theorem runsFrom_cons_of_pos {c : Char} (hc : p c) (run t : Text) :
    runsFrom p run (c :: t) = runsFrom p (c :: run) t := by
  simp [runsFrom, hc]

/-- What is in hand at a character of another kind is let go. -/
theorem runsFrom_cons_of_neg {c : Char} (hc : p c = false) (run t : Text) :
    runsFrom p run (c :: t) = runsFrom p run [] ++ runsFrom p [] t := by
  simp [runsFrom, hc]

/-- A scan that has a stretch in hand takes one character more of it, or comes to its end. -/
theorem extract_concat {t u : Text} {d e : Nat} {c : Char} (hde : d ≤ e) (h : t.drop e = c :: u) :
    t.extract d (e + 1) = t.extract d e ++ [c] := by
  have hc : (t.drop d)[e - d]? = some c := by
    have hsum : d + (e - d) = e := by omega
    rw [List.getElem?_drop, hsum, ← List.head?_drop, h]
    rfl
  have hsize : e + 1 - d = e - d + 1 := by omega
  rw [List.extract_eq_take_drop, List.extract_eq_take_drop, hsize, List.take_add_one, hc]
  rfl

theorem runsFrom_extract_nil {t : Text} {d e : Nat}
    (hwithin : ∀ i, d ≤ i → i < e → ∃ c ∈ t[i]?, p c) :
    runsFrom p (t.extract d e).reverse [] =
      (if d < e then [(d, e)] else []).map fun r => t.extract r.1 r.2 := by
  have hempty : (t.extract d e).reverse.isEmpty ↔ ¬ d < e := by
    rw [List.isEmpty_iff, List.reverse_eq_nil_iff, List.extract_eq_take_drop,
      List.take_eq_nil_iff, List.drop_eq_nil_iff]
    constructor
    · rintro (h | h) hlt
      · omega
      · obtain ⟨c, hc, -⟩ := hwithin d (Nat.le_refl d) hlt
        rw [List.getElem?_eq_none h] at hc
        cases hc
    · intro h
      exact .inl (by omega)
  by_cases hlt : d < e
  · rw [runsFrom, if_neg (by rwa [hempty, not_not]), if_pos hlt, List.reverse_reverse]
    rfl
  · rw [runsFrom, if_pos (hempty.mpr hlt), if_neg hlt]
    rfl

/-- A scan that has a stretch from `d` to `e` in hand finds the runs that start no earlier. -/
theorem exists_runs {t : Text} (rest : Text) (d e : Nat) (hrest : t.drop e = rest) (hde : d ≤ e)
    (hwithin : ∀ i, d ≤ i → i < e → ∃ c ∈ t[i]?, p c)
    (hbefore : ∀ i, i + 1 = d → ∀ c ∈ t[i]?, p c = false) :
    ∃ rs : List (Nat × Nat), runsFrom p (t.extract d e).reverse rest =
        rs.map (fun r => t.extract r.1 r.2) ∧
      rs.Pairwise (fun r q => r.2 < q.1) ∧ ∀ r, r ∈ rs ↔ IsRun p t r ∧ d ≤ r.1 := by
  -- what is still to be scanned gets shorter; a stretch in hand goes on or is let go as a run
  induction rest generalizing d e with
  | nil =>
    have hlength : t.length ≤ e := List.drop_eq_nil_iff.mp hrest
    have hafter : ∀ c ∈ t[e]?, p c = false := by
      rw [List.getElem?_eq_none hlength]
      simp
    refine ⟨if d < e then [(d, e)] else [], runsFrom_extract_nil hwithin, ?_, ?_⟩
    · split <;> simp
    · intro r
      have hnone : ¬ (IsRun p t r ∧ e < r.1) := by
        rintro ⟨hr, he⟩
        have := hr.lt
        have := hr.le_length
        omega
      rw [isRun_stretch hde hwithin hbefore hafter, or_iff_left hnone, List.mem_ite_nil_right,
        List.mem_singleton]
  | cons c rest ih =>
    have hc : t[e]? = some c := by
      rw [← List.head?_drop, hrest]
      rfl
    have hnext : t.drop (e + 1) = rest := by
      rw [← List.tail_drop, hrest]
      rfl
    cases hp : p c with
    | true =>
      have hlonger : ∀ i, d ≤ i → i < e + 1 → ∃ c ∈ t[i]?, p c := by
        intro i hd hi
        rcases Nat.lt_or_eq_of_le (Nat.le_of_lt_succ hi) with hi | rfl
        · exact hwithin i hd hi
        · exact ⟨c, hc, hp⟩
      obtain ⟨rs, hrs⟩ := ih d (e + 1) hnext (by omega) hlonger hbefore
      rw [extract_concat hde hrest, List.reverse_append] at hrs
      rw [runsFrom_cons_of_pos hp]
      exact ⟨rs, hrs⟩
    | false =>
      have hafter : ∀ b ∈ t[e]?, p b = false := by
        rw [hc]
        rintro _ ⟨rfl⟩
        exact hp
      obtain ⟨rs, heq, hsorted, hmem⟩ := ih (e + 1) (e + 1) hnext (Nat.le_refl _) (by omega)
        (by rintro i ⟨rfl⟩; exact hafter)
      rw [List.extract_eq_take_drop, Nat.sub_self, List.take_zero, List.reverse_nil] at heq
      refine ⟨(if d < e then [(d, e)] else []) ++ rs, ?_, ?_, ?_⟩
      · rw [runsFrom_cons_of_neg hp, runsFrom_extract_nil hwithin, heq, List.map_append]
      · refine List.pairwise_append.mpr ⟨by split <;> simp, hsorted, ?_⟩
        intro r hr q hq
        obtain ⟨-, rfl⟩ : d < e ∧ r = (d, e) := by simpa using hr
        exact ((hmem q).mp hq).2
      · intro r
        rw [isRun_stretch hde hwithin hbefore hafter, List.mem_append, List.mem_ite_nil_right,
          List.mem_singleton, hmem]
        rfl

/-- The words of a text stand at the longest runs of word characters of its lower case that have at
least two of them, in their order. -/
theorem exists_runs_tokenize (t : Text) :
    ∃ rs : List (Nat × Nat),
      tokenize t = rs.map (fun r => (Text.lower t).extract r.1 r.2) ∧
      rs.Pairwise (fun r q => r.2 < q.1) ∧
      ∀ r, r ∈ rs ↔ IsRun isTermChar (Text.lower t) r ∧ 2 ≤ r.2 - r.1 := by
  obtain ⟨rs, heq, hsorted, hmem⟩ := exists_runs (p := isTermChar) (t := Text.lower t)
    (Text.lower t) 0 0 rfl (Nat.le_refl 0) (by omega) (by omega)
  refine ⟨rs.filter fun r => 2 ≤ r.2 - r.1, ?_, hsorted.filter _, ?_⟩
  · have hruns : runsFrom isTermChar [] (Text.lower t) =
        rs.map fun r => (Text.lower t).extract r.1 r.2 := heq
    rw [tokenize, hruns, List.filter_map]
    congr 1
    apply List.filter_congr
    intro r hr
    rw [Function.comp_apply, ((hmem r).mp hr).1.length_extract]
    rfl
  · intro r
    rw [List.mem_filter, hmem]
    simp

/-- Characters that are in no run may be others that are in none. -/
theorem runsFrom_congr {t u : Text}
    (h : List.Forall₂ (fun c d => c = d ∨ p c = false ∧ p d = false) t u) (run : Text) :
    runsFrom p run t = runsFrom p run u := by
  induction h generalizing run with
  | nil => rfl
  | @cons c d t u hcd _ ih =>
    rcases hcd with rfl | ⟨hc, hd⟩
    · rw [runsFrom, runsFrom, ih, ih]
    · rw [runsFrom_cons_of_neg hc, runsFrom_cons_of_neg hd, ih]

/-- A scan begins anew behind characters that are in no run. -/
theorem runsFrom_append {s : Text} (hne : s ≠ []) (hs : ∀ c ∈ s, p c = false) (run a b : Text) :
    runsFrom p run (a ++ (s ++ b)) = runsFrom p run a ++ runsFrom p [] b := by
  have hskip : ∀ u : Text, (∀ c ∈ u, p c = false) → runsFrom p [] (u ++ b) = runsFrom p [] b := by
    intro u hu
    induction u with
    | nil => rfl
    | cons c u ih =>
      obtain ⟨hc, hu⟩ := List.forall_mem_cons.mp hu
      rw [List.cons_append, runsFrom_cons_of_neg hc, ih hu]
      rfl
  induction a generalizing run with
  | nil =>
    cases s with
    | nil => exact absurd rfl hne
    | cons c s =>
      obtain ⟨hc, hs⟩ := List.forall_mem_cons.mp hs
      rw [List.nil_append, List.cons_append, runsFrom_cons_of_neg hc, hskip s hs]
  | cons c a ih =>
    cases hc : p c with
    | true => rw [List.cons_append, runsFrom_cons_of_pos hc, runsFrom_cons_of_pos hc, ih]
    | false =>
      rw [List.cons_append, runsFrom_cons_of_neg hc, runsFrom_cons_of_neg hc, ih,
        List.append_assoc]

/-- A scan of characters that are all in runs has them in hand at the end. -/
theorem runsFrom_of_forall {w : Text} (hw : ∀ c ∈ w, p c) (run : Text) :
    runsFrom p run w = runsFrom p (w.reverse ++ run) [] := by
  induction w generalizing run with
  | nil => rfl
  | cons c w ih =>
    obtain ⟨hc, hw⟩ := List.forall_mem_cons.mp hw
    rw [runsFrom_cons_of_pos hc, ih hw, List.reverse_cons, List.append_assoc,
      List.singleton_append]

end

theorem isLower_of_isTermChar {c : Char} (h : isTermChar c) : Text.IsLower c := by
  simp only [isTermChar, Bool.or_eq_true, Bool.and_eq_true, decide_eq_true_eq, beq_iff_eq] at h
  have hcode : c.toNat < 128 ∧ ¬ (0x41 ≤ c.toNat ∧ c.toNat ≤ 0x5A) := by
    rcases h with (h | h) | rfl
    · omega
    · omega
    · decide
  constructor
  · rw [Text.lowerChar, if_pos hcode.1, Text.toLower_eq_self hcode.2]
  · rintro rfl
    exact absurd hcode.1 (by decide)

/-- Between two words every character is as good as another. -/
def SameWords (c d : Char) : Prop := c = d ∨ isTermChar c = false ∧ isTermChar d = false

/-- For the words each character may be lower-cased on its own. -/
theorem lowerAfter_sameWords (before t : Text) :
    List.Forall₂ SameWords (Text.lowerAfter before t) (t.flatMap fun c => Text.lower [c]) := by
  induction t generalizing before with
  | nil => exact .nil
  | cons c t ih =>
    have halone : Text.lower [c] = Text.forms [] c [] := by
      rw [Text.lower, Text.lowerAfter_cons, Text.lowerAfter, List.append_nil]
    rw [Text.lowerAfter_cons, List.flatMap_cons, halone]
    refine List.rel_append ?_ (ih (c :: before))
    rw [Text.forms, Text.forms]
    split
    · refine .cons (.inr ⟨?_, ?_⟩) .nil
      · split <;> rfl
      · split <;> rfl
    · exact List.forall₂_same.mpr fun _ _ => .inl rfl

theorem runsFrom_lower (t : Text) :
    runsFrom isTermChar [] (Text.lower t) =
      runsFrom isTermChar [] (t.flatMap fun c => Text.lower [c]) :=
  runsFrom_congr (lowerAfter_sameWords [] t) []

/-- The text separates words: there is something, and nothing of its lower case is in a word. -/
structure Separates (s : Text) : Prop where
  ne_nil : s ≠ []
  clear : ∀ c ∈ Text.lower s, isTermChar c = false

instance (s : Text) : Decidable (Separates s) :=
  decidable_of_iff (s ≠ [] ∧ (Text.lower s).all (!isTermChar ·))
    ⟨fun h => ⟨h.1, by simpa using h.2⟩, fun h => ⟨h.ne_nil, by simpa using h.clear⟩⟩

-- the sign for a kelvin is a letter in lower case
example : Separates [' '] ∧ Separates ['é'] ∧ ¬ Separates ['\u212A'] := by decide +kernel

namespace Separates

variable {s : Text} (hs : Separates s)

include hs

theorem clear_alone : ∀ c ∈ s.flatMap fun c => Text.lower [c], isTermChar c = false := by
  have hclear : ∀ t u : Text, List.Forall₂ SameWords t u → (∀ c ∈ t, isTermChar c = false) →
      ∀ d ∈ u, isTermChar d = false := by
    intro t u h ht
    induction h with
    | nil => simp
    | cons hcd _ ih =>
      obtain ⟨hc, ht⟩ := List.forall_mem_cons.mp ht
      refine List.forall_mem_cons.mpr ⟨?_, ih ht⟩
      rcases hcd with rfl | ⟨-, hd⟩
      · exact hc
      · exact hd
  exact hclear _ _ (lowerAfter_sameWords [] s) hs.clear

/-- The words around a separating text are those before it and those behind it. -/
theorem tokenize_append (a b : Text) : tokenize (a ++ (s ++ b)) = tokenize a ++ tokenize b := by
  have hne : (s.flatMap fun c => Text.lower [c]) ≠ [] := by
    intro hnil
    have hlength := (lowerAfter_sameWords [] s).length_eq
    rw [hnil, List.length_nil, List.length_eq_zero_iff] at hlength
    exact hs.ne_nil (Text.lowerAfter_eq_nil hlength)
  rw [tokenize, tokenize, tokenize, runsFrom_lower, runsFrom_lower a, runsFrom_lower b,
    List.flatMap_append, List.flatMap_append, runsFrom_append hne hs.clear_alone,
    List.filter_append]

theorem tokenize_intercalate (ts : List Text) :
    tokenize (s.intercalate ts) = ts.flatMap tokenize := by
  induction ts with
  | nil => rfl
  | cons t ts ih =>
    cases ts with
    | nil => simp
    | cons u ts =>
      rw [List.intercalate_cons_cons, List.append_assoc, hs.tokenize_append, ih]
      rfl

end Separates

theorem separates_newlines : Separates ['\n', '\n'] := by decide

/-- A word is its only word. -/
theorem tokenize_of_mem {t w : Text} (h : w ∈ tokenize t) : tokenize w = [w] := by
  obtain ⟨rs, heq, -, hmem⟩ := exists_runs_tokenize t
  rw [heq] at h
  obtain ⟨r, hr, rfl⟩ := List.mem_map.mp h
  obtain ⟨hrun, htwo⟩ := (hmem r).mp hr
  have hword := hrun.of_mem_extract
  have hlength := hrun.length_extract
  generalize (Text.lower t).extract r.1 r.2 = w at hword hlength ⊢
  have hlower : Text.lower w = w :=
    Text.lowerAfter_eq_self fun c hc => isLower_of_isTermChar (hword c hc)
  have hne : w ≠ [] := by
    rintro rfl
    simp only [List.length_nil] at hlength
    omega
  rw [tokenize, hlower, runsFrom_of_forall hword, List.append_nil, runsFrom,
    if_neg (by simpa using hne), List.reverse_reverse, List.filter_cons_of_pos, List.filter_nil]
  rw [decide_eq_true_iff]
  omega

namespace Chunk

/-- Joining chunks leaves their words as they are. -/
theorem Becomes.tokenize_eq {least : Nat} {g : List Chunk} {c : Chunk}
    (h : Becomes least g c) : tokenize c.content = g.flatMap (tokenize ·.content) := by
  rcases h with rfl | h
  · simp
  · rw [h.content_eq, joinedContent, separates_newlines.tokenize_intercalate, List.flatMap_map]

end Chunk

open Chunk in
theorem flatMap_tokenize_mergeSmall (least : Nat) (cs : List Chunk) :
    (mergeSmall least cs).flatMap (tokenize ·.content) = cs.flatMap (tokenize ·.content) := by
  have hwords : ∀ gs ds, List.Forall₂ (Becomes least) gs ds →
      ds.flatMap (tokenize ·.content) = gs.flatten.flatMap (tokenize ·.content) := by
    intro gs ds hds
    induction hds with
    | nil => rfl
    | cons hgc _ ih =>
      rw [List.flatMap_cons, List.flatten_cons, List.flatMap_append, hgc.tokenize_eq, ih]
  obtain ⟨gs, hflat, hgs⟩ := mergeFrom_becomes least none cs [] rfl
  rw [mergeSmall, hwords gs _ hgs, hflat, List.nil_append]

/-- The counts of the rows of some chunks add up to the number of their words. -/
theorem total_count_terms (ks : List Holding) :
    total ((ks.flatMap (·.terms)).map (·.count)) =
      ((ks.map (·.chunk)).flatMap (tokenize ·.content)).length := by
  induction ks with
  | nil => rfl
  | cons k ks ih =>
    rw [List.flatMap_cons, List.map_append, total_append, ih, Holding.terms, total_count_termRows,
      List.map_cons, List.flatMap_cons, List.length_append]
    rfl

/-- The words of a text are the longest runs of word characters in its lower case that have two of
them or more. Words are neither made nor lost where texts are put together with something between
them that separates, nor where chunks are merged; so the counts of merged chunks, whatever the
numbers of the chunks, have the sum that those of the chunks had. -/
theorem tokenize_seams {s : Text} (hs : Separates s) (t a b : Text) (least : Nat)
    (cs : List Chunk) :
    (∃ rs : List (Nat × Nat),
      tokenize t = rs.map (fun r => (Text.lower t).extract r.1 r.2) ∧
      rs.Pairwise (fun r q => r.2 < q.1) ∧
      ∀ r, r ∈ rs ↔ IsRun isTermChar (Text.lower t) r ∧ 2 ≤ r.2 - r.1) ∧
    tokenize (a ++ (s ++ b)) = tokenize a ++ tokenize b ∧
    tokenize (s.intercalate (tokenize t)) = tokenize t ∧
    (mergeSmall least cs).flatMap (tokenize ·.content) = cs.flatMap (tokenize ·.content) ∧
    ∀ ks ls : List Holding, ks.map (·.chunk) = mergeSmall least cs → ls.map (·.chunk) = cs →
      total ((ks.flatMap (·.terms)).map (·.count)) =
        total ((ls.flatMap (·.terms)).map (·.count)) := by
  refine ⟨exists_runs_tokenize t, hs.tokenize_append a b, ?_,
    flatMap_tokenize_mergeSmall least cs, ?_⟩
  · rw [hs.tokenize_intercalate, List.flatMap_congr fun w hw => tokenize_of_mem hw,
      List.flatMap_singleton']
  · intro ks ls hks hls
    rw [total_count_terms, total_count_terms, hks, hls, flatMap_tokenize_mergeSmall]

/-- A final sigma stands between the words, and two pieces are merged. -/
theorem tokenize_seams_sigma :
    Separates ['Σ'] ∧
    tokenize ("If_ α".toList ++ (['Σ'] ++ " OR".toList)) = ["if_".toList, "or".toList] ∧
    (mergeSmall 4 [⟨"Abc".toList, "f", 1, 1, [("split", .bool true)]⟩,
      ⟨"d09".toList, "f", 2, 2, [("split", .bool true)]⟩]).flatMap (tokenize ·.content) =
        ["abc".toList, "d09".toList] := by
  have hs : Separates ['Σ'] := by decide +kernel
  obtain ⟨-, hseam, -, hmerge, -⟩ := tokenize_seams hs [] "If_ α".toList " OR".toList 4
    [⟨"Abc".toList, "f", 1, 1, [("split", .bool true)]⟩,
      ⟨"d09".toList, "f", 2, 2, [("split", .bool true)]⟩]
  refine ⟨hs, hseam.trans ?_, hmerge.trans ?_⟩
  · decide +kernel
  · decide +kernel

end CodeChunks
