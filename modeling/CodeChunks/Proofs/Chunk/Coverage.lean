import CodeChunks.Proofs.Chunk.Origins

/-! # Splitting neither loses nor repeats what stands below the chosen nodes

The cuts of a node stand in order inside it, and each childless node below it is covered by them.
This holds of a whole node, of the pieces of a childless one, and of the children of a node when it
holds of each of them. -/
namespace CodeChunks

/-- Of ranges in order, at most one has an offset. -/
theorem countP_ranges_eq_one {rs : List (Nat × Nat)} (hrs : rs.Pairwise fun r q => r.2 ≤ q.1)
    {i : Nat} (hi : ∃ r ∈ rs, r.1 ≤ i ∧ i < r.2) : rs.countP (fun r => r.1 ≤ i ∧ i < r.2) = 1 := by
  induction rs with
  | nil => simp at hi
  | cons r rs ih =>
    obtain ⟨hr, hrs⟩ := List.pairwise_cons.mp hrs
    by_cases hri : r.1 ≤ i ∧ i < r.2
    · have hnone : rs.countP (fun r => r.1 ≤ i ∧ i < r.2) = 0 := by
        simp only [List.countP_eq_zero, decide_eq_true_eq]
        intro q hq
        have := hr q hq
        omega
      rw [List.countP_cons_of_pos (by simpa using hri), hnone]
    · rw [List.countP_cons_of_neg (by simpa using hri)]
      refine ih hrs ?_
      obtain ⟨q, hq, hqi⟩ := hi
      rcases List.mem_cons.mp hq with rfl | hq
      · exact absurd hqi hri
      · exact ⟨q, hq, hqi⟩

namespace Cut

def Before (k j : Cut) : Prop := k.bounds.2 ≤ j.bounds.1

def Has (i : Nat) (k : Cut) : Prop := k.bounds.1 ≤ i ∧ i < k.bounds.2

end Cut

namespace Node

/-- The span of the one node, if both have one, lies inside that of the other. -/
def Encloses (n c : Node) : Prop := ∀ s ∈ n.span, ∀ r ∈ c.span,
  s.start.offset ≤ r.start.offset ∧ r.stop.offset ≤ s.stop.offset

/-- The span of the one node, if both have one, ends before that of the other starts. -/
def Precedes (c d : Node) : Prop := ∀ s ∈ c.span, ∀ r ∈ d.span, s.stop.offset ≤ r.start.offset

instance (n c : Node) : Decidable (n.Encloses c) :=
  inferInstanceAs (Decidable (∀ s ∈ n.span, ∀ r ∈ c.span,
    s.start.offset ≤ r.start.offset ∧ r.stop.offset ≤ s.stop.offset))

instance (c d : Node) : Decidable (c.Precedes d) :=
  inferInstanceAs (Decidable (∀ s ∈ c.span, ∀ r ∈ d.span, s.stop.offset ≤ r.start.offset))

variable {source : Text} {n m : Node} {a b i j : Nat}

theorem Encloses.le (h : n.Encloses m) (hn : n.Covers source a b) (hm : m.Covers source i j) :
    a ≤ i ∧ j ≤ b := by
  have ⟨s, hs, _⟩ := hn
  have ⟨r, hr, _⟩ := hm
  have := h s hs r hr
  have := hn.offsets hs
  have := hm.offsets hr
  omega

theorem Precedes.le (h : n.Precedes m) (hn : n.Covers source a b) (hm : m.Covers source i j) :
    b ≤ i := by
  have ⟨s, hs, _⟩ := hn
  have ⟨r, hr, _⟩ := hm
  have := h s hs r hr
  have := hn.offsets hs
  have := hm.offsets hr
  omega

end Node

namespace Tree

/-- Every node has a span, which lies inside that of its parent, and siblings follow each other. -/
structure WellFormed (t : Tree) : Prop where
  anchored : t.Anchored
  spans : ∀ n ∈ t.nodes, n.span.isSome
  nested : ∀ n ∈ t.nodes, ∀ c ∈ t.children n, n.Encloses c
  ordered : ∀ n ∈ t.nodes, (t.children n).Pairwise Node.Precedes

theorem WellFormed.covers {t : Tree} (ht : t.WellFormed) {n : Node} (hn : n ∈ t.nodes) :
    ∃ a b, n.Covers t.source a b := by
  obtain ⟨s, hs⟩ := Option.isSome_iff_exists.mp (ht.spans n hn)
  exact ht.anchored.covers hn hs

/-- Cuts in order inside a node, which leave out nothing of the childless nodes below it. -/
structure Covering (t : Tree) (n : Node) (ks : List Cut) : Prop where
  ordered : ks.Pairwise Cut.Before
  inside : ∀ a b, n.Covers t.source a b → ∀ k ∈ ks,
    a ≤ k.bounds.1 ∧ k.bounds.1 ≤ k.bounds.2 ∧ k.bounds.2 ≤ b
  leaves : ∀ m, Relation.ReflTransGen t.IsChild n m → t.children m = [] → ∀ a b,
    m.Covers t.source a b → ∀ i, a ≤ i → i < b → ∃ k ∈ ks, k.Has i

namespace WellFormed

variable {t : Tree} (ht : t.WellFormed) {n : Node} (hn : n ∈ t.nodes)

include ht hn

/-- A node lies inside every node above it. -/
theorem nested_of_descends {m : Node} (hm : Relation.ReflTransGen t.IsChild n m) {a b i j : Nat}
    (hspan : n.Covers t.source a b) (hspan' : m.Covers t.source i j) : a ≤ i ∧ j ≤ b := by
  induction hm generalizing i j with
  | refl =>
    obtain ⟨rfl, rfl⟩ := hspan.unique hspan'
    exact ⟨Nat.le_refl _, Nat.le_refl _⟩
  | @tail c d hc hd ih =>
    have hcn := t.mem_nodes_of_descends hn hc
    obtain ⟨x, y, hxy⟩ := ht.covers hcn
    have hup := ih hxy
    have hdown := (ht.nested c hcn d hd).le hxy hspan'
    omega

theorem covering_single {k : Cut} {a b : Nat} (hspan : n.Covers t.source a b)
    (hk : k.bounds = (a, b)) : t.Covering n [k] := by
  constructor
  · exact List.pairwise_singleton _ _
  · intro x y hxy j hj
    obtain rfl := List.mem_singleton.mp hj
    obtain ⟨rfl, rfl⟩ := hspan.unique hxy
    rw [hk]
    exact ⟨Nat.le_refl _, hspan.le.1, Nat.le_refl _⟩
  · intro m hm _ x y hxy i hi hi'
    have := ht.nested_of_descends hn hm hspan hxy
    refine ⟨k, List.mem_cons_self, ?_⟩
    rw [Cut.Has, hk]
    exact ⟨by omega, by omega⟩

theorem covering_pieces (size : Budget) (hleaf : t.children n = []) :
    t.Covering n (t.pieceCuts size n) := by
  have htiles := (t.textOf n).tiles_cutRanges size
  obtain ⟨a, b, hspan⟩ := ht.covers hn
  have hmem : ∀ k ∈ t.pieceCuts size n, ∃ i r,
      k = .piece n i r ∧ r ∈ (t.textOf n).cutRanges size := by
    intro k hk
    obtain ⟨⟨r, i⟩, hri, rfl⟩ := List.mem_map.mp hk
    exact ⟨i, r, rfl, (List.mem_zipIdx' hri).2 ▸ List.getElem_mem _⟩
  constructor
  · have hpair := htiles.pairwise
    rw [← List.zipIdx_map_fst 0 ((t.textOf n).cutRanges size), List.pairwise_map] at hpair
    refine List.pairwise_map.mpr (hpair.imp ?_)
    intro p q hpq
    simp only [Cut.Before, Cut.bounds]
    omega
  · intro x y hxy k hk
    obtain ⟨rfl, rfl⟩ := hspan.unique hxy
    obtain ⟨i, r, rfl, hr⟩ := hmem k hk
    obtain ⟨x, y, rfl, hxy, hyb, hbounds⟩ := bounds_of_mem_cutRanges (i := i) hspan hr
    rw [hbounds]
    exact ⟨by omega, by omega, hyb⟩
  · intro m hm _ x y hxy i hi hi'
    rcases hm.cases_head with rfl | ⟨c, hc, -⟩
    · obtain ⟨rfl, rfl⟩ := hspan.unique hxy
      have hlen : (t.textOf n).length = b - a := by rw [hspan.textOf_eq, length_slice _ hspan.le.2]
      obtain ⟨r, hr, hri⟩ := htiles.covers (i := (i : Int) - a) (by omega) (by omega)
      obtain ⟨x, y, rfl, hxy, hyb, hbounds⟩ := bounds_of_mem_cutRanges (i := 0) hspan hr
      rw [← List.zipIdx_map_fst 0 ((t.textOf n).cutRanges size)] at hr
      obtain ⟨p, hp, hpr⟩ := List.mem_map.mp hr
      refine ⟨.piece n p.2 p.1, List.mem_map.mpr ⟨p, hp, rfl⟩, ?_⟩
      have hsame : (Cut.piece n p.2 p.1).bounds = (a + x, a + y) := by rw [hpr, ← hbounds]; rfl
      rw [Cut.Has, hsame]
      simp only at hri ⊢
      omega
    · rw [IsChild, hleaf] at hc
      cases hc

omit hn in
theorem ordered_flatMap {ns : List Node} (hns : ∀ c ∈ ns, c ∈ t.nodes)
    (hord : ns.Pairwise Node.Precedes) {f : Node → List Cut} (hf : ∀ c ∈ ns, t.Covering c (f c)) :
    (ns.flatMap f).Pairwise Cut.Before := by
  refine List.pairwise_flatMap.mpr ⟨fun c hc => (hf c hc).ordered, ?_⟩
  refine hord.imp_of_mem ?_
  intro c d hc hd hcd k hk j hj
  obtain ⟨a, b, hab⟩ := ht.covers (hns c hc)
  obtain ⟨x, y, hxy⟩ := ht.covers (hns d hd)
  have hk := (hf c hc).inside a b hab k hk
  have hj := (hf d hd).inside x y hxy j hj
  have hbx := hcd.le hab hxy
  rw [Cut.Before]
  omega

theorem covering_children {f : Node → List Cut} (hne : t.children n ≠ [])
    (hf : ∀ c ∈ t.children n, t.Covering c (f c)) : t.Covering n ((t.children n).flatMap f) := by
  have hnodes : ∀ c ∈ t.children n, c ∈ t.nodes := fun c hc => mem_nodes_of_mem_children hc
  constructor
  · exact ht.ordered_flatMap hnodes (ht.ordered n hn) hf
  · intro a b hab k hk
    obtain ⟨c, hc, hk⟩ := List.mem_flatMap.mp hk
    obtain ⟨x, y, hxy⟩ := ht.covers (hnodes c hc)
    have hin := (hf c hc).inside x y hxy k hk
    have hnest := (ht.nested n hn c hc).le hab hxy
    omega
  · intro m hm hleaf x y hxy i hi hi'
    rcases hm.cases_head with rfl | ⟨c, hc, hdown⟩
    · exact absurd hleaf hne
    · obtain ⟨k, hk, hki⟩ := (hf c hc).leaves m hdown hleaf x y hxy i hi hi'
      exact ⟨k, List.mem_flatMap.mpr ⟨c, hc, hk⟩, hki⟩

omit hn in
/-- Down the tree: the cuts of a node that is too large cover it. -/
theorem covering_cutsDown (size : Budget) (n : Node) (hn : n ∈ t.nodes) :
    t.Covering n (t.cutsDown size n) := by
  induction n using t.below_induction with
  | step n ih =>
    have hbelow := ht.anchored.below_eq hn
    rw [cutsDown_eq]
    by_cases hw : (t.works size n).isEmpty
    -- in a well-formed tree only a childless node has no children with a span
    · rw [if_pos hw]
      refine ht.covering_pieces hn size (List.eq_nil_iff_forall_not_mem.mpr fun c hc => ?_)
      obtain ⟨a, b, s, hs, -⟩ := ht.covers (mem_nodes_of_mem_children hc)
      have := (t.works_isEmpty_iff size n).mp hw c (hbelow ▸ hc)
      simp [hs] at this
    · rw [if_neg hw]
      rw [hbelow] at ih ⊢
      refine ht.covering_children hn ?_ ?_
      · intro hnil
        exact hw ((t.works_isEmpty_iff size n).mpr (by simp [hbelow, hnil]))
      · intro c hc
        have hcn := mem_nodes_of_mem_children hc
        obtain ⟨a, b, hspan⟩ := ht.covers hcn
        have ⟨s, hs, _⟩ := hspan
        simp only [childCuts, hs]
        split
        · exact ih c hc hcn
        · exact ht.covering_single hcn hspan (bounds_of_covers hspan hs).2

theorem covering_topCuts (size : Budget) (context : Text) :
    t.Covering n (t.topCuts size context n) := by
  obtain ⟨a, b, hspan⟩ := ht.covers hn
  have ⟨s, hs, _⟩ := hspan
  simp only [topCuts, hs]
  split
  · exact ht.covering_cutsDown size n hn
  · exact ht.covering_single hn hspan (bounds_of_covers hspan hs).1

omit hn in
theorem ordered_chosen (l : Option Language) (o : Options) :
    (t.chosen l o).Pairwise Node.Precedes := by
  rw [chosen]
  cases hroot : t.root? with
  | none => exact .nil
  | some root =>
    refine List.Pairwise.filter _ ?_
    obtain htop | ⟨m, hm, htop⟩ := t.topNodes_cases l root <;> rw [htop]
    · exact ht.ordered root (mem_nodes_of_node? hroot)
    · exact ht.ordered m (mem_nodes_of_mem_children hm)

omit hn in
theorem ordered_cuts (l : Option Language) (o : Options) : (t.cuts l o).Pairwise Cut.Before :=
  ht.ordered_flatMap (fun _ hc => t.mem_nodes_of_mem_chosen hc) (ht.ordered_chosen l o)
    fun _ hc => ht.covering_topCuts (t.mem_nodes_of_mem_chosen hc) _ _

omit hn in
theorem pairwise_startLine (l : Option Language) (o : Options) :
    (t.extract l o).Pairwise fun c d => c.startLine ≤ d.startLine := by
  rw [extract_eq_map, List.pairwise_map]
  refine (ht.ordered_cuts l o).imp_of_mem ?_
  intro k j hk hj hkj
  have hplaced := (ht.anchored.shape_of_mem_cuts hk).2
  have hmono := t.source.lineAt_mono (Nat.le_trans hplaced.le hkj)
  rw [hplaced.startLine, (ht.anchored.shape_of_mem_cuts hj).2.startLine]
  omega

end WellFormed

/-- Ranges that chunks are cut from, one each: they stand in order and do not meet, each lies inside
a chosen node, and each offset of a childless node below a chosen one is in exactly one of them. -/
structure Partition (t : Tree) (l : Option Language) (o : Options) (cs : List Chunk)
    (rs : List (Nat × Nat)) : Prop where
  shapes : List.Forall₂ (fun c r => t.Shape l o r.1 r.2 c) cs rs
  ordered : rs.Pairwise fun r q => r.2 ≤ q.1
  inside : ∀ r ∈ rs, r.1 ≤ r.2 ∧
    ∃ n ∈ t.chosen l o, ∃ a b, n.Covers t.source a b ∧ a ≤ r.1 ∧ r.2 ≤ b
  leaves : ∀ n ∈ t.chosen l o, ∀ m, Relation.ReflTransGen t.IsChild n m → t.children m = [] →
    ∀ a b, m.Covers t.source a b → ∀ i, a ≤ i → i < b →
      rs.countP (fun r => r.1 ≤ i ∧ i < r.2) = 1

/-- The chunks of a well-formed tree part its chosen nodes, so they stand in the order of their
first lines. -/
theorem extract_partition {t : Tree} (ht : t.WellFormed) (l : Option Language) (o : Options) :
    (∃ rs, t.Partition l o (t.extract l o) rs) ∧
      (t.extract l o).Pairwise fun c d => c.startLine ≤ d.startLine := by
  have hord : ((t.cuts l o).map Cut.bounds).Pairwise fun r q => r.2 ≤ q.1 :=
    List.pairwise_map.mpr (ht.ordered_cuts l o)
  refine ⟨⟨(t.cuts l o).map Cut.bounds, ?_, hord, ?_, ?_⟩, ht.pairwise_startLine l o⟩
  · rw [extract_eq_map, List.forall₂_map_left_iff, List.forall₂_map_right_iff, List.forall₂_same]
    exact fun k hk => (ht.anchored.shape_of_mem_cuts hk).1
  · intro r hr
    obtain ⟨k, hk, rfl⟩ := List.mem_map.mp hr
    obtain ⟨n, hn, hkn⟩ := List.mem_flatMap.mp hk
    have hnodes := t.mem_nodes_of_mem_chosen hn
    obtain ⟨a, b, hab⟩ := ht.covers hnodes
    have hin := (ht.covering_topCuts hnodes _ _).inside a b hab k hkn
    exact ⟨hin.2.1, n, hn, a, b, hab, hin.1, hin.2.2⟩
  · intro n hn m hm hleaf a b hab i hi hi'
    refine countP_ranges_eq_one hord ?_
    obtain ⟨k, hk, hki⟩ := (ht.covering_topCuts (t.mem_nodes_of_mem_chosen hn) o.maxSize
      (t.lead l o)).leaves m hm hleaf a b hab i hi hi'
    exact ⟨k.bounds, List.mem_map.mpr ⟨k, List.mem_flatMap.mpr ⟨n, hn, hk⟩, rfl⟩, hki⟩

theorem wellFormed_twoMembersTree : twoMembersTree.WellFormed where
  anchored := anchored_twoMembersTree
  spans := by decide
  nested := by decide
  ordered := by decide

/-- Under a budget of five the members of the class are cut into three ranges. -/
theorem extract_partition_members : twoMembersTree.WellFormed ∧
    (twoMembersTree.extract (some classes) { maxSize := 5 }).length = 3 ∧
    (∃ rs, twoMembersTree.Partition (some classes) { maxSize := 5 }
      (twoMembersTree.extract (some classes) { maxSize := 5 }) rs) ∧
    (twoMembersTree.extract (some classes) { maxSize := 5 }).Pairwise fun c d =>
      c.startLine ≤ d.startLine :=
  ⟨wellFormed_twoMembersTree, by cbv, extract_partition wellFormed_twoMembersTree _ _⟩

end Tree

end CodeChunks
