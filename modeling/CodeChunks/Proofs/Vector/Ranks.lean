import CodeChunks.Vector.Search
import Mathlib.Data.List.Chain
import Mathlib.Order.Lattice

/-! # Rankings are stable

Elements are ranked by their keys in a linear order. The comparisons need to follow the keys on the
elements at hand only, so that an order with gaps ranks stably wherever it meets none of them. -/
namespace CodeChunks.Ranking

/-- A list in the order of its keys, in which elements with the same key stay in their order. -/
structure Arranged {α κ : Type} [BEq κ] (R : κ → κ → Prop) (key : α → κ) (l r : List α) : Prop where
  perm : r.Perm l
  sorted : r.Pairwise fun a b => R (key a) (key b)
  stable : ∀ k, r.filter (fun a => key a == k) = l.filter (fun a => key a == k)

variable {α κ : Type} [LinearOrder κ] {less : α → α → Bool} {key : α → κ} {l r r' : List α} {a : α}

/-- On the elements of a list `less` says which of two keys is the less. -/
def Follows (less : α → α → Bool) (key : α → κ) (l : List α) : Prop :=
  ∀ a ∈ l, ∀ b ∈ l, less a b = decide (key a < key b)

theorem Follows.mono (h : Follows less key l) (hr : r ⊆ l) : Follows less key r :=
  fun a ha b hb => h a (hr ha) b (hr hb)

/-- Before the place of an element are those with a key not greater, behind it the greater ones. -/
theorem place_spec (h : Follows less key (a :: l)) (hl : l.Pairwise fun a b => key a ≤ key b)
    {lo hi : Nat} (hle : lo ≤ hi) (hhi : hi ≤ l.length)
    (hbefore : ∀ (i : Nat) (hin : i < l.length), i < lo → key l[i] ≤ key a)
    (hbehind : ∀ (i : Nat) (hin : i < l.length), hi ≤ i → key a < key l[i]) :
    (∀ b ∈ l.take (place less a l lo hi), key b ≤ key a) ∧
      ∀ b ∈ l.drop (place less a l lo hi), key a < key b := by
  have hmono (i j : Nat) (hi : i < l.length) (hj : j < l.length) (hij : i ≤ j) :
      key l[i] ≤ key l[j] := by
    rcases hij.eq_or_lt with rfl | hij
    · exact le_rfl
    · exact List.pairwise_iff_getElem.mp hl i j hi hj hij
  have hless (i : Nat) (hi : i < l.length) : less a l[i] = decide (key a < key l[i]) :=
    h a List.mem_cons_self _ (List.mem_cons_of_mem a (List.getElem_mem hi))
  fun_induction place less a l lo hi with
  | case1 lo hi hlohi mid hmid ih =>
    have hin : mid < l.length := by omega
    rw [List.getElem?_eq_getElem hin, Option.any_some, hless mid hin, decide_eq_true_iff] at hmid
    exact ih (by omega) (by omega) hbefore fun i hi hmi => hmid.trans_le (hmono mid i hin hi hmi)
  | case2 lo hi hlohi mid hmid ih =>
    have hin : mid < l.length := by omega
    rw [List.getElem?_eq_getElem hin, Option.any_some, hless mid hin, decide_eq_true_iff,
      not_lt] at hmid
    exact ih (by omega) hhi (fun i hi him => (hmono i mid hi hin (by omega)).trans hmid) hbehind
  | case3 lo hi hlohi =>
    obtain rfl : lo = hi := by omega
    constructor
    · intro b hb
      obtain ⟨i, hi, rfl⟩ := List.getElem_of_mem hb
      rw [List.length_take] at hi
      rw [List.getElem_take]
      exact hbefore i (by omega) (by omega)
    · intro b hb
      obtain ⟨i, hi, rfl⟩ := List.getElem_of_mem hb
      rw [List.length_drop] at hi
      rw [List.getElem_drop]
      exact hbehind _ (by omega) (by omega)

/-- What has a key beyond a bound stands first where the keys fall. -/
theorem filter_prefix_of_sorted {p : κ → Bool} (hp : ∀ j k, p j → j ≤ k → p k)
    (hr : r.Pairwise fun a b => key a ≥ key b) : r.filter (fun a => p (key a)) <+: r := by
  induction r with
  | nil => exact List.prefix_rfl
  | cons a r ih =>
    obtain ⟨ha, hr⟩ := List.pairwise_cons.mp hr
    rw [List.filter_cons]
    by_cases hpa : p (key a)
    · rw [if_pos hpa]
      exact (List.prefix_cons_inj a).mpr (ih hr)
    · rw [if_neg hpa]
      have hnone : r.filter (fun a => p (key a)) = [] := by
        rw [List.filter_eq_nil_iff]
        exact fun b hb hpb => hpa (hp _ _ hpb (ha b hb))
      rw [hnone]
      exact List.nil_prefix

variable [BEq κ]

theorem arranged_refl (hl : l.Pairwise fun a b => key a ≤ key b) : Arranged (· ≤ ·) key l l :=
  ⟨.refl l, hl, fun _ => rfl⟩

/-- Elements chosen by their keys are arranged as they stand in the arrangement of all. -/
theorem Arranged.filter (h : Arranged (· ≥ ·) key l r) (p : κ → Bool) :
    Arranged (· ≥ ·) key (l.filter fun a => p (key a)) (r.filter fun a => p (key a)) where
  perm := h.perm.filter _
  sorted := h.sorted.filter _
  stable := by
    intro k
    rw [List.filter_filter, List.filter_filter]
    have hswap (t : List α) : t.filter (fun a => key a == k && p (key a)) =
        (t.filter fun a => key a == k).filter fun a => p (key a) := by
      rw [List.filter_filter]
      exact List.filter_congr fun a _ => Bool.and_comm ..
    rw [hswap, hswap, h.stable]

variable [LawfulBEq κ]

theorem Arranged.insert (hr : Arranged (· ≤ ·) key l r) (h : Follows less key (a :: l)) :
    Arranged (· ≤ ·) key (l ++ [a]) (insert less r a) := by
  obtain ⟨hbefore, hbehind⟩ := place_spec
    (h.mono (List.cons_subset_cons a hr.perm.subset)) hr.sorted (Nat.zero_le _) le_rfl
    (fun _ _ hi => absurd hi (Nat.not_lt_zero _)) (fun _ hi hi' => absurd hi' (by omega))
  rw [Ranking.insert]
  generalize place less a r 0 r.length = k at hbefore hbehind ⊢
  have hsorted := hr.sorted
  have hstable := hr.stable
  have hperm := hr.perm
  rw [← List.take_append_drop k r] at hsorted hstable hperm
  refine ⟨?_, ?_, ?_⟩
  · exact List.perm_middle.trans ((hperm.cons a).trans (List.perm_append_singleton a l).symm)
  · rw [List.pairwise_append] at hsorted ⊢
    obtain ⟨htake, hdrop, hcross⟩ := hsorted
    refine ⟨htake, List.pairwise_cons.mpr ⟨fun b hb => (hbehind b hb).le, hdrop⟩, ?_⟩
    intro b hb c hc
    rcases List.mem_cons.mp hc with rfl | hc
    · exact hbefore b hb
    · exact hcross b hb c hc
  · intro j
    rw [List.filter_append, List.filter_append, ← hstable j, List.filter_append, List.append_assoc]
    congr 1
    by_cases hj : key a = j
    · have hnone : (r.drop k).filter (fun b => key b == j) = [] := by
        rw [List.filter_eq_nil_iff]
        intro b hb
        simpa [hj] using (hj ▸ hbehind b hb).ne'
      rw [List.filter_cons, hnone]
      simp [hj]
    · simp [hj]

theorem Arranged.foldl_insert {as : List α} (hr : Arranged (· ≤ ·) key l r)
    (h : Follows less key (l ++ as)) :
    Arranged (· ≤ ·) key (l ++ as) (as.foldl (Ranking.insert less) r) := by
  induction as generalizing l r with
  | nil => rwa [List.append_nil]
  | cons a as ih =>
    rw [List.append_cons] at h ⊢
    rw [List.foldl_cons]
    exact ih (hr.insert (h.mono (by simp))) h

/-- A run and its rest are the list, and along the run each element is to the one before as `next`
says. -/
theorem run_spec (next : α → α → Bool) (a : α) (l : List α) :
    (run next a l).1 ++ (run next a l).2 = l ∧
      (a :: (run next a l).1).IsChain fun x y => next y x := by
  induction l generalizing a with
  | nil => exact ⟨rfl, .singleton a⟩
  | cons b bs ih =>
    rw [run]
    by_cases hb : next b a
    · rw [if_pos hb]
      obtain ⟨hparts, hchain⟩ := ih b
      exact ⟨congrArg (b :: ·) hparts, .cons_cons hb hchain⟩
    · rw [if_neg hb]
      exact ⟨rfl, .singleton a⟩

/-- No two elements of a falling list have the same key, so that turning it round keeps the order of
those that do. -/
theorem arranged_reverse (hl : l.Pairwise fun a b => key b < key a) :
    Arranged (· ≤ ·) key l l.reverse where
  perm := l.reverse_perm
  sorted := List.pairwise_reverse.mpr (hl.imp le_of_lt)
  stable := by
    intro k
    rw [List.filter_reverse]
    have hone : (l.filter fun a => key a == k).length ≤ 1 := by
      have hpair := hl.filter fun a => key a == k
      generalize hf : l.filter (fun a => key a == k) = f at hpair ⊢
      match f, hpair with
      | [], _ => simp
      | [_], _ => simp
      | a :: b :: f, hpair =>
        have ha : a ∈ l.filter fun a => key a == k := by simp [hf]
        have hb : b ∈ l.filter fun a => key a == k := by simp [hf]
        have hak : key a = k := by simpa using (List.mem_filter.mp ha).2
        have hbk : key b = k := by simpa using (List.mem_filter.mp hb).2
        have hlt := (List.pairwise_cons.mp hpair).1 b List.mem_cons_self
        rw [hak, hbk] at hlt
        exact absurd hlt (lt_irrefl k)
    generalize l.filter (fun a => key a == k) = f at hone
    match f, hone with
    | [], _ => rfl
    | [_], _ => rfl

/-- The first run is arranged from a piece at the front of the list. -/
theorem firstRun_spec (h : Follows less key l) :
    ∃ front, front ++ (firstRun less l).2 = l ∧
      Arranged (· ≤ ·) key front (firstRun less l).1 := by
  match l, h with
  | [], _ => exact ⟨[], rfl, arranged_refl .nil⟩
  | [a], _ => exact ⟨[a], rfl, arranged_refl (List.pairwise_singleton _ a)⟩
  | a :: b :: bs, h =>
    obtain ⟨hparts, hchain⟩ := run_spec (fun y x => less y x == less b a) a (b :: bs)
    rw [firstRun]
    generalize run (fun y x => less y x == less b a) a (b :: bs) = p at hparts hchain ⊢
    refine ⟨a :: p.1, congrArg (a :: ·) hparts, ?_⟩
    have hsub : a :: p.1 ⊆ a :: b :: bs :=
      List.cons_subset_cons a (hparts ▸ List.subset_append_left p.1 p.2)
    have hkeys : (a :: p.1).IsChain fun x y => decide (key y < key x) = less b a := by
      refine hchain.imp_of_mem_imp fun x y hx hy hxy => ?_
      rw [← h y (hsub hy) x (hsub hx)]
      exact beq_iff_eq.mp hxy
    dsimp only
    cases hba : less b a with
    | false =>
      rw [hba] at hkeys
      rw [if_neg Bool.false_ne_true]
      have hrises : (a :: p.1).IsChain fun x y => key x ≤ key y :=
        hkeys.imp fun x y hxy => not_lt.mp (of_decide_eq_false hxy)
      exact arranged_refl (hrises.pairwise)
    | true =>
      rw [hba] at hkeys
      rw [if_pos rfl]
      have hfalls : (a :: p.1).IsChain fun x y => key y < key x :=
        hkeys.imp fun x y hxy => of_decide_eq_true hxy
      exact arranged_reverse (hfalls.pairwise)

theorem sort_arranged (h : Follows less key l) : Arranged (· ≤ ·) key l (sort less l) := by
  obtain ⟨front, hparts, hfront⟩ := firstRun_spec h
  rw [sort]
  generalize firstRun less l = p at hparts hfront ⊢
  subst hparts
  exact hfront.foldl_insert h

/-- Where `less` follows the keys, the ranking has the greatest key first and keeps the order of
elements with the same key. -/
theorem rank_arranged (h : Follows less key l) : Arranged (· ≥ ·) key l (rank less l) := by
  have hsort := sort_arranged (h.mono l.reverse_perm.subset)
  rw [rank]
  refine ⟨?_, ?_, ?_⟩
  · exact (sort less l.reverse).reverse_perm.trans (hsort.perm.trans l.reverse_perm)
  · exact List.pairwise_reverse.mpr hsort.sorted
  · intro k
    rw [List.filter_reverse, hsort.stable, List.filter_reverse, List.reverse_reverse]

/-- An arrangement is determined by the list. -/
theorem Arranged.unique (h : Arranged (· ≥ ·) key l r) (h' : Arranged (· ≥ ·) key l r') :
    r = r' := by
  have hperm := h.perm.trans h'.perm.symm
  have hstable (k : κ) := (h.stable k).trans (h'.stable k).symm
  have hr := h.sorted
  have hr' := h'.sorted
  clear h h'
  induction r generalizing r' with
  | nil => exact hperm.nil_eq
  | cons a r ih =>
    cases r' with
    | nil => exact absurd hperm.length_eq (by simp)
    | cons b r' =>
      rw [List.pairwise_cons] at hr hr'
      have hab : key a = key b := by
        apply le_antisymm
        · rcases List.mem_cons.mp (hperm.subset List.mem_cons_self) with rfl | ha
          · exact le_rfl
          · exact hr'.1 a ha
        · rcases List.mem_cons.mp (hperm.symm.subset List.mem_cons_self) with rfl | hb
          · exact le_rfl
          · exact hr.1 b hb
      obtain rfl : a = b := by
        have hhead := hstable (key a)
        rw [List.filter_cons, List.filter_cons, if_pos (by simp), if_pos (by simp [hab])] at hhead
        exact (List.cons.inj hhead).1
      rw [ih hperm.cons_inv ?_ hr.2 hr'.2]
      intro k
      have hk := hstable k
      rw [List.filter_cons, List.filter_cons] at hk
      split at hk
      · exact (List.cons.inj hk).2
      · exact hk

end CodeChunks.Ranking
