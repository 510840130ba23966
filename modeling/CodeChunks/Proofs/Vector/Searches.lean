import CodeChunks.Proofs.Number.Order
import CodeChunks.Proofs.Vector.Norms
import CodeChunks.Proofs.Vector.Ranks
import CodeChunks.Proofs.Vector.Shelf
import CodeChunks.Vector.Search

/-! # Searches return the best of the stored documents

The scores are compared as binary64 numbers, and where all of them are numbers this is a linear
order. The matches with the required score are then a front piece of all matches as ranked, so that
filtering, ranking and cutting off can be done in any order. -/
namespace CodeChunks

open Binary64 (standing)
open Ranking (Arranged Follows rank)

/-- Numbers rounded to a vector. -/
def embed (xs : List Json.Number) : Embedding := xs.map fun x => Binary32.narrow x.toFloat

namespace VectorStore

/-- All documents in the order of the store, each with its score. -/
def scored (s : VectorStore) (score : Embedding → Embedding → Float) (query : List Json.Number) :
    List Match :=
  s.documents.map fun e => ⟨e.2, score (embed query) (embed e.2.embedding)⟩

/-- The documents that pass the filter and have at least the least score. -/
def hits (s : VectorStore) (score : Embedding → Embedding → Float) (query : List Json.Number)
    (least : Option Float) (passes : Document → Bool) : List Match :=
  (s.scored score query).filter fun m => passes m.document && least.all (· ≤ m.similarity)

/-- A bound on the scores that is a number, if there is one. -/
def Bounds (least : Option Float) : Prop := ∀ x ∈ least, x.isNaN = false

/-- Among the documents that pass the filter no score fails to be a number. -/
def Scores (s : VectorStore) (score : Embedding → Embedding → Float) (query : List Json.Number)
    (passes : Document → Bool) : Prop :=
  ∀ m ∈ s.scored score query, passes m.document → m.similarity.isNaN = false

instance (s : VectorStore) (score : Embedding → Embedding → Float) (query : List Json.Number)
    (passes : Document → Bool) : Decidable (s.Scores score query passes) :=
  inferInstanceAs
    (Decidable (∀ m ∈ s.scored score query, passes m.document → m.similarity.isNaN = false))

/-- The second bound lets through no more than the first. -/
def Raised (least least' : Option Float) : Prop := ∀ x ∈ least, ∃ y ∈ least', x ≤ y

/-- A search returns the first matches of a ranking: all hits, by falling scores, and those with the
same score in the order of the store. A greater count only adds matches behind, a greater bound only
takes some away from there. -/
structure Ranked (find : Json.Number → Option Float → Except Fault (List Match))
    (hits : Option Float → List Match) : Prop where
  best : ∀ least count n, Bounds least → count.asInt = .ok n →
    ∃ r, Arranged (· ≥ ·) Match.similarity (hits least) r ∧
      find count least = .ok (r.take n.toNat)
  more : ∀ least count count' n n' ms ms', Bounds least → count.asInt = .ok n →
    count'.asInt = .ok n' → n ≤ n' → find count least = .ok ms → find count' least = .ok ms' →
    ms <+: ms'
  fewer : ∀ least least' count n ms ms', Bounds least → Bounds least' →
    Raised least least' → count.asInt = .ok n → find count least = .ok ms →
    find count least' = .ok ms' → ms' <+: ms

variable {s : VectorStore} {m : Shelf} {score : Embedding → Embedding → Float}
  {query : List Json.Number} {least : Option Float} {passes : Document → Bool}

theorem toFloat_of_toFloat? {x : Json.Number} {y : Float} (h : x.toFloat? = some y) :
    y = x.toFloat := by
  cases x with
  | int n =>
    rw [Json.Number.toFloat?] at h
    split at h
    · exact (Option.some.inj h).symm
    · cases h
  | float x => exact (Option.some.inj h).symm

theorem mapM_toFloat?_eq {xs : List Json.Number} {ys : List Float}
    (h : xs.mapM Json.Number.toFloat? = some ys) : ys = xs.map Json.Number.toFloat := by
  induction xs generalizing ys with
  | nil => exact (Option.some.inj h).symm
  | cons x xs ih =>
    rw [List.mapM_cons, Option.bind_eq_bind, Option.bind_eq_some_iff] at h
    obtain ⟨y, hy, h⟩ := h
    rw [Option.bind_eq_bind, Option.bind_eq_some_iff] at h
    obtain ⟨zs, hzs, h⟩ := h
    cases h
    rw [List.map_cons, ← ih hzs, ← toFloat_of_toFloat? hy]

theorem eq_embed {xs : List Json.Number} {v : Embedding} (h : s.vector? xs = .ok v) :
    v = embed xs := by
  rw [vector?] at h
  cases hys : xs.mapM Json.Number.toFloat? with
  | none =>
    rw [hys] at h
    cases h
  | some ys =>
    rw [hys] at h
    dsimp only at h
    by_cases hlength : ys.length = s.dimensions
    · rw [if_pos hlength] at h
      cases h
      rw [mapM_toFloat?_eq hys, List.map_map]
      rfl
    · rw [if_neg hlength] at h
      cases h

/-- What a store holds in its two tables is found together in one list. -/
theorem Reflects.candidates_eq (h : s.Reflects m) :
    s.candidates (score (embed query)) least passes =
      (s.scored score query).filter fun m =>
        passes m.document && !least.any (m.similarity < ·) := by
  have hfound : ∀ e ∈ s.documents, s.get? e.1 = some e.2 := by
    intro e he
    have hnodup : (Assoc.keys s.documents).Nodup := by
      rw [← ids, h.order]
      exact h.nodup
    exact (Assoc.find?_eq_some_iff hnodup).mpr he
  have hbeside := h.vectors
  rw [candidates, scored]
  generalize s.documents = ds at hfound hbeside
  generalize s.vectors = vs at hbeside
  induction hbeside with
  | nil => rfl
  | @cons e f ds vs hef _ ih =>
    obtain ⟨id, d⟩ := e
    obtain ⟨id', v⟩ := f
    obtain ⟨rfl, hv⟩ : id = id' ∧ _ := hef
    obtain rfl := eq_embed hv
    have hd : s.get? id = some d := hfound (id, d) List.mem_cons_self
    rw [List.filterMap_cons, List.map_cons, List.filter_cons,
      ← ih fun e he => hfound e (List.mem_cons_of_mem _ he)]
    simp only [hd, Option.bind_some]
    generalize (passes d && !least.any (score (embed query) (embed d.embedding) < ·)) = hit
    cases hit <;> rfl

theorem Reflects.hits_eq (h : s.Reflects m) (hscores : s.Scores score query passes)
    (hleast : Bounds least) :
    s.candidates (score (embed query)) least passes = s.hits score query least passes := by
  rw [h.candidates_eq, hits]
  refine List.filter_congr fun m hm => ?_
  cases hpasses : passes m.document with
  | false => rfl
  | true => cases least with
    | none => rfl
    | some x =>
      have hx : x.isNaN = false := hleast x rfl
      have hm := hscores m hm hpasses
      simp only [Option.any_some, Option.all_some, Binary64.lt_iff hm hx, Binary64.le_iff hx hm]
      simp [← not_lt]

theorem isNaN_of_mem_hits (hscores : s.Scores score query passes) {a : Match}
    (ha : a ∈ s.hits score query least passes) : a.similarity.isNaN = false := by
  obtain ⟨ha, hpass⟩ := List.mem_filter.mp ha
  exact hscores a ha (Bool.and_eq_true_iff.mp hpass).1

theorem hits_follows (hscores : s.Scores score query passes) :
    Follows (fun a b => a.similarity < b.similarity) (fun a => standing a.similarity)
      (s.hits score query least passes) := fun _ ha _ hb =>
  decide_eq_decide.mpr
    (Binary64.lt_iff (isNaN_of_mem_hits hscores ha) (isNaN_of_mem_hits hscores hb))

/-- Numbers in the order of where they stand are in the order of their comparisons. -/
theorem arranged_similarity {l r : List Match} (hl : ∀ a ∈ l, a.similarity.isNaN = false)
    (h : Arranged (· ≥ ·) (fun a : Match => standing a.similarity) l r) :
    Arranged (· ≥ ·) Match.similarity l r where
  perm := h.perm
  sorted := h.sorted.imp_of_mem fun ha hb hab =>
    (Binary64.le_iff (hl _ (h.perm.subset hb)) (hl _ (h.perm.subset ha))).mpr hab
  stable := by
    intro x
    cases hx : x.isNaN with
    | true => simp only [Binary64.beq_eq_false_of_isNaN hx, List.filter_false]
    | false =>
      have hkey (t : List Match) (ht : t ⊆ l) : t.filter (fun a => a.similarity == x) =
          t.filter fun a => standing a.similarity == standing x := by
        refine List.filter_congr fun a ha => ?_
        rw [Bool.eq_iff_iff]
        exact (Binary64.beq_iff (hl a (ht ha)) hx).trans beq_iff_eq.symm
      rw [hkey r h.perm.subset, hkey l (List.Subset.refl l), h.stable]

/-- All hits, the most similar first. -/
def ranking (s : VectorStore) (score : Embedding → Embedding → Float) (query : List Json.Number)
    (least : Option Float) (passes : Document → Bool) : List Match :=
  rank (fun a b => a.similarity < b.similarity) (s.hits score query least passes)

theorem searchBy_eq (h : s.Reflects m) (hlength : query.length = s.dimensions)
    (hrange : ∀ x ∈ query, x.InRange) (hscores : s.Scores score query passes)
    (hleast : Bounds least) {count : Json.Number} {n : Int} (hcount : count.asInt = .ok n) :
    s.searchBy score query count least passes =
      .ok ((s.ranking score query least passes).take n.toNat) := by
  obtain ⟨v, hv⟩ := (s.exists_vector?_iff ⟨"", query, []⟩).mpr ⟨hlength, hrange⟩
  obtain rfl := eq_embed hv
  rw [searchBy, hv, hcount]
  cases hdocuments : s.documents with
  | nil =>
    have hnone : s.ranking score query least passes = [] := by
      rw [ranking, hits, scored, hdocuments]
      rfl
    rw [hnone, List.take_nil]
    rfl
  | cons e ds =>
    rw [ranking, ← h.hits_eq hscores hleast]
    rfl

theorem ranking_arranged (least : Option Float) (hscores : s.Scores score query passes) :
    Arranged (· ≥ ·) (fun a : Match => standing a.similarity) (s.hits score query least passes)
      (s.ranking score query least passes) := Ranking.rank_arranged (hits_follows hscores)

theorem all_le_eq (hleast : Bounds least) {y : Float} (hy : y.isNaN = false) :
    (least.all fun x => decide (x ≤ y)) = least.all fun x => decide (standing x ≤ standing y) := by
  cases least with
  | none => rfl
  | some x => exact decide_eq_decide.mpr (Binary64.le_iff (hleast x rfl) hy)

/-- What a raised bound lets through, the lower one does. -/
theorem Raised.all_le {least least' : Option Float} (h : Raised least least')
    (hleast : Bounds least) (hleast' : Bounds least') {k : Binary64.Standing}
    (hk : least'.all fun x => decide (standing x ≤ k)) :
    least.all fun x => decide (standing x ≤ k) := by
  rw [Option.all_eq_true] at hk ⊢
  intro x hx
  obtain ⟨y, hy, hxy⟩ := h x hx
  rw [Binary64.le_iff (hleast x hx) (hleast' y hy)] at hxy
  exact decide_eq_true (hxy.trans (of_decide_eq_true (hk y hy)))

/-- The matches that a raised bound leaves are the first of those before. -/
theorem ranking_prefix_of_raised (hscores : s.Scores score query passes)
    {least least' : Option Float} (hleast : Bounds least) (hleast' : Bounds least') (h : Raised least least') :
    s.ranking score query least' passes <+: s.ranking score query least passes := by
  have hhits : s.hits score query least' passes = (s.hits score query least passes).filter fun a =>
      least'.all (standing · ≤ standing a.similarity) := by
    rw [hits, hits, List.filter_filter]
    refine List.filter_congr fun a ha => ?_
    cases hpasses : passes a.document with
    | false => simp
    | true =>
      have hnumber := hscores a ha hpasses
      rw [all_le_eq hleast hnumber, all_le_eq hleast' hnumber, Bool.true_and, Bool.true_and,
        Bool.eq_iff_iff, Bool.and_eq_true]
      exact ⟨fun hk => ⟨hk, h.all_le hleast hleast' hk⟩, And.left⟩
  have harranged := (ranking_arranged least hscores).filter
    fun k => least'.all (standing · ≤ k)
  rw [← hhits] at harranged
  rw [(ranking_arranged least' hscores).unique harranged]
  refine Ranking.filter_prefix_of_sorted (p := fun k => least'.all (standing · ≤ k)) ?_
    (ranking_arranged least hscores).sorted
  intro j k hj hjk
  rw [Option.all_eq_true] at hj ⊢
  exact fun x hx => decide_eq_true ((of_decide_eq_true (hj x hx)).trans hjk)

/-- A store that reflects an ordered map ranks by any score. -/
theorem Reflects.ranked (h : s.Reflects m) (hlength : query.length = s.dimensions)
    (hrange : ∀ x ∈ query, x.InRange) (hscores : s.Scores score query passes) :
    Ranked (s.searchBy score query · · passes) (s.hits score query · passes) := by
  have hsearch {least : Option Float} {count : Json.Number} {n : Int} (hleast : Bounds least)
      (hcount : count.asInt = .ok n) := searchBy_eq h hlength hrange hscores hleast hcount
  constructor
  case best =>
    intro least count n hleast hcount
    exact ⟨_, arranged_similarity (fun a ha => isNaN_of_mem_hits hscores ha)
      (ranking_arranged least hscores), hsearch hleast hcount⟩
  case more =>
    intro least count count' n n' ms ms' hleast hcount hcount' hle hms hms'
    rw [hsearch hleast hcount] at hms
    rw [hsearch hleast hcount'] at hms'
    cases hms
    cases hms'
    exact List.take_prefix_take_left (Int.toNat_le_toNat hle)
  case fewer =>
    intro least least' count n ms ms' hleast hleast' hraised hcount hms hms'
    rw [hsearch hleast hcount] at hms
    rw [hsearch hleast' hcount] at hms'
    cases hms
    cases hms'
    exact (ranking_prefix_of_raised hscores hleast hleast' hraised).take _

/-- After any calls, a search by any score ranks by it where all scores of documents that pass the
filter are numbers. The search of the program is the one by the cosine; whatever product of vectors
this is made from, it is not computed by a division by zero. -/
theorem run_search (dimensions : Nat) (calls : List Call) (hlength : query.length = dimensions)
    (hrange : ∀ x ∈ query, x.InRange) :
    let s := run dimensions calls
    (∀ score, s.Scores score query passes →
      Ranked (s.searchBy score query · · passes) (s.hits score query · passes)) ∧
    (s.Scores (cosine dot) query passes →
      Ranked (s.search query · · passes) (s.hits (cosine dot) query · passes)) ∧
    ∀ product, ∀ d ∈ s.documents.map Prod.snd,
      let v := embed query
      let w := embed d.embedding
      ((norm product v == 0 || norm product w == 0) ∧ cosine product v w = 0) ∨
        (Binary32.narrow (norm product v * norm product w) == 0) = false ∧
          cosine product v w =
            Binary32.widen (product v w / Binary32.narrow (norm product v * norm product w)) := by
  intro s
  obtain ⟨hreflects, hdimensions⟩ : s.Reflects _ ∧ s.dimensions = dimensions := run_reflects _ _
  have hranked (score : Embedding → Embedding → Float) (hscores : s.Scores score query passes) :
      Ranked (s.searchBy score query · · passes) (s.hits score query · passes) :=
    hreflects.ranked (hlength.trans hdimensions.symm) hrange hscores
  exact ⟨hranked, hranked (cosine dot), fun product _ _ => cosine_cases product _ _⟩

/-- Two documents in the direction of the query and one in the opposite direction. -/
theorem run_search_ties :
    let calls := [.add ⟨"a", [.int 1], []⟩, .add ⟨"b", [.int (-1)], []⟩, .add ⟨"c", [.int 2], []⟩]
    let query := [.int 3]
    let everything := fun _ => true
    query.length = 1 ∧ (∀ x ∈ query, x.InRange) ∧
      (run 1 calls).Scores (cosine dot) query everything ∧
      Bounds none ∧ Json.Number.asInt (.int 2) = .ok 2 ∧
      ∃ r, Arranged (· ≥ ·) Match.similarity
          ((run 1 calls).hits (cosine dot) query none everything) r ∧
        (run 1 calls).search query (.int 2) none everything = .ok (r.take 2) := by
  intro calls query everything
  have hrange : ∀ x ∈ query, x.InRange := by decide
  have hscores : (run 1 calls).Scores (cosine dot) query everything := by decide +kernel
  exact ⟨rfl, hrange, hscores, nofun, rfl,
    ((run_search 1 calls rfl hrange).2.1 hscores).best none (.int 2) 2 nofun rfl⟩

/-- A query of the right length may hold an integer that is too large for any vector. -/
theorem search_tooLarge : ¬ ∀ (dimensions : Nat) (calls : List Call) (query : List Json.Number),
    query.length = dimensions →
      ∃ ms, (run dimensions calls).search query (.int 5) none (fun _ => true) = .ok ms := by
  intro h
  obtain ⟨ms, hms⟩ := h 1 [] [.int (1 <<< 1024)] rfl
  have hrefused : (run 1 []).search [.int (1 <<< 1024)] (.int 5) none (fun _ => true) =
      .error .tooLarge := rfl
  rw [hrefused] at hms
  cases hms

end VectorStore

end CodeChunks
