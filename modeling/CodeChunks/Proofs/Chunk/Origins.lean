import CodeChunks.Proofs.Chunk.Cuts
import CodeChunks.Proofs.Text.Tiles
import Mathlib

/-! # Every chunk of a tree can be found again in the source

A chunk is a top node with the context before it, a node below one that is too large, or a piece of
a node without children to speak of. Its lines are those of the whole source in each case. -/
namespace CodeChunks.Tree

def IsChild (t : Tree) (n c : Node) : Prop := c ∈ t.children n

/-- The three shapes of a chunk that covers `[start, stop)` of the source. -/
inductive Shape (t : Tree) (l : Option Language) (o : Options) (start stop : Nat) (c : Chunk) : Prop
  | top (n : Node) (hn : n ∈ t.chosen l o) (hspan : n.Covers t.source start stop)
      (content : c.content = t.lead l o ++ slice t.source start stop) (type : c.type = n.type)
      (metadata : c.metadata = n.data)
  | below (n m : Node) (hn : n ∈ t.chosen l o)
      (large : o.maxSize < (t.lead l o ++ t.textOf n).length)
      (hm : Relation.TransGen t.IsChild n m) (hspan : m.Covers t.source start stop)
      (content : c.content = slice t.source start stop) (type : c.type = m.type)
      (metadata : c.metadata = m.data)
  | piece (n m : Node) (a b i : Nat) (hn : n ∈ t.chosen l o)
      (large : o.maxSize < (t.lead l o ++ t.textOf n).length)
      (hm : Relation.ReflTransGen t.IsChild n m) (leaf : ∀ c ∈ t.children m, c.span = none)
      (hspan : m.Covers t.source a b) (inside : a ≤ start ∧ start < stop ∧ stop ≤ b)
      (content : c.content = slice t.source start stop) (type : c.type = s!"{m.type}[{i}]")
      (metadata : c.metadata = [("split", .bool true), ("index", .int i)])

section

variable (t : Tree) (size : Budget)

theorem works_isEmpty_iff (n : Node) :
    (t.works size n).isEmpty ↔ ∀ c ∈ t.below n, c.span = none := by
  simp only [works, List.isEmpty_iff, List.filterMap_eq_nil_iff, Option.map_eq_none_iff]

/-- The cuts of a node are nodes below it that fit, and pieces of nodes that have no children with
a span. -/
theorem mem_cutsDown {n : Node} {k : Cut} (hk : k ∈ t.cutsDown size n) :
    (∃ m s, k = .whole m s ∧ m.span = some s ∧ (t.textOf m).length ≤ size ∧
      Relation.TransGen t.IsChild n m) ∨
    ∃ m i r, k = .piece m i r ∧ r ∈ (t.textOf m).cutRanges size ∧
      Relation.ReflTransGen t.IsChild n m ∧ ∀ c ∈ t.below m, c.span = none := by
  induction n using t.below_induction with
  | step n ih =>
    rw [cutsDown_eq] at hk
    by_cases hw : (t.works size n).isEmpty
    · rw [if_pos hw] at hk
      obtain ⟨⟨r, i⟩, hri, rfl⟩ := List.mem_map.mp hk
      refine Or.inr ⟨n, i, r, rfl, ?_, .refl, (t.works_isEmpty_iff size n).mp hw⟩
      exact (List.mem_zipIdx' hri).2 ▸ List.getElem_mem _
    · rw [if_neg hw] at hk
      obtain ⟨c, hc, hk⟩ := List.mem_flatMap.mp hk
      have hchild : t.IsChild n c := (List.mem_filter.mp hc).1
      obtain ⟨s, hs, ⟨-, hk⟩ | ⟨hfit, rfl⟩⟩ := (t.mem_childCuts_iff size).mp hk
      · rcases ih c hc hk with ⟨m, s', rfl, hm, hfit, hdown⟩ | ⟨m, i, r, rfl, hr, hdown, hleaf⟩
        · exact Or.inl ⟨m, s', rfl, hm, hfit, .head hchild hdown⟩
        · exact Or.inr ⟨m, i, r, rfl, hr, .head hchild hdown, hleaf⟩
      · exact Or.inl ⟨c, s, rfl, hs, hfit, .single hchild⟩

theorem mem_nodes_of_descends {n m : Node} (hn : n ∈ t.nodes)
    (hm : Relation.ReflTransGen t.IsChild n m) : m ∈ t.nodes := by
  cases hm with
  | refl => exact hn
  | tail _ h => exact mem_nodes_of_mem_children h

theorem mem_nodes_of_mem_topNodes {l : Option Language} {root n : Node}
    (hn : n ∈ t.topNodes l root) : n ∈ t.nodes := by
  obtain htop | ⟨m, -, htop⟩ := t.topNodes_cases l root
  · exact mem_nodes_of_mem_children (htop ▸ hn)
  · exact mem_nodes_of_mem_children (htop ▸ hn)

theorem mem_nodes_of_mem_chosen {l : Option Language} {o : Options} {n : Node}
    (hn : n ∈ t.chosen l o) : n ∈ t.nodes := by
  rw [chosen] at hn
  split at hn
  · cases hn
  · exact t.mem_nodes_of_mem_topNodes (List.mem_filter.mp hn).1

end

/-- The chunk of a cut stands on the lines of its part of the source. -/
structure Placed (t : Tree) (l : Option Language) (o : Options) (k : Cut) : Prop where
  le : k.bounds.1 ≤ k.bounds.2
  le_length : k.bounds.2 ≤ t.source.length
  startLine : (k.chunk t (t.lead l o)).startLine = t.source.lineAt k.bounds.1
  endLine : (k.chunk t (t.lead l o)).endLine = t.source.lastLineAt k.bounds.1 k.bounds.2

variable {t : Tree} {l : Option Language} {o : Options}

theorem bounds_of_covers {n : Node} {s : Span} {a b : Nat} (hn : n.Covers t.source a b)
    (hs : n.span = some s) : (Cut.top n s).bounds = (a, b) ∧ (Cut.whole n s).bounds = (a, b) := by
  obtain ⟨ha, hb⟩ := hn.offsets hs
  simp [Cut.bounds, ha, hb]

theorem placed_top {n : Node} {s : Span} {a b : Nat} (hn : n.Covers t.source a b)
    (hs : n.span = some s) : t.Placed l o (.top n s) := by
  obtain ⟨hstart, hstop⟩ := hn.lines hs
  constructor <;> rw [(bounds_of_covers hn hs).1]
  · exact hn.le.1
  · exact hn.le.2
  · exact hstart
  · exact hstop

theorem placed_whole {n : Node} {s : Span} {a b : Nat} (hn : n.Covers t.source a b)
    (hs : n.span = some s) : t.Placed l o (.whole n s) := by
  obtain ⟨hstart, hstop⟩ := hn.lines hs
  constructor <;> rw [(bounds_of_covers hn hs).2]
  · exact hn.le.1
  · exact hn.le.2
  · exact hstart
  · exact hstop

theorem bounds_of_mem_cutRanges {n : Node} {a b i : Nat} {r : Int × Int} {size : Budget}
    (hn : n.Covers t.source a b) (hr : r ∈ (t.textOf n).cutRanges size) :
    ∃ x y : Nat, r = ((x : Int), (y : Int)) ∧ x < y ∧ a + y ≤ b ∧
      (Cut.piece n i r).bounds = (a + x, a + y) := by
  obtain ⟨h₁, h₂, h₃⟩ := ((t.textOf n).tiles_cutRanges size).bounds hr
  obtain ⟨hab, hb⟩ := hn.le
  rw [hn.textOf_eq, length_slice t.source hb] at h₃
  obtain ⟨x, hx⟩ := Int.eq_ofNat_of_zero_le h₁
  obtain ⟨y, hy⟩ := Int.eq_ofNat_of_zero_le (show 0 ≤ r.2 by omega)
  refine ⟨x, y, Prod.ext hx hy, by omega, by omega, ?_⟩
  have ⟨s, hs, _⟩ := hn
  have hstart := (hn.offsets hs).1
  simp only [Cut.bounds, hs, Option.map_some, Option.getD_some, hstart, Prod.mk.injEq]
  omega

/-- The lines of a piece, counted in the text of its node from the line of the node on, are those of
the whole source. -/
theorem placed_piece {n : Node} {a b i : Nat} {r : Int × Int} (hn : n.Covers t.source a b)
    (hr : r ∈ (t.textOf n).cutRanges o.maxSize) : t.Placed l o (.piece n i r) := by
  obtain ⟨x, y, rfl, hxy, hyb, hbounds⟩ := bounds_of_mem_cutRanges (i := i) hn hr
  have ⟨s, hs, hat⟩ := hn
  have hline : ∀ k ≤ b - a,
      t.source.lineAt (a + k) = (t.source.take a).count '\n' + (t.textOf n).lineAt k := by
    intro k hk
    rw [hn.textOf_eq, slice_natCast_eq]
    exact t.source.lineAt_drop_take hk
  have hlen := hn.le.2
  constructor <;> simp only [hbounds, Cut.chunk, hs, Option.map_some, Option.getD_some,
    hat.start_eq, LineIndex.line_ofText, LineIndex.lastLine_ofText]
  · omega
  · omega
  · rw [hline x (by omega)]
    omega
  · rw [Text.lastLineAt, if_pos hxy, Text.lastLineAt, if_pos (by omega),
      show a + y - 1 = a + (y - 1) by omega, hline (y - 1) (by omega)]
    omega

section

variable (ht : t.Anchored)

include ht

theorem Anchored.shape_piece {n m : Node} {i : Nat} {r : Int × Int} (hn : n ∈ t.chosen l o)
    (large : o.maxSize < (t.lead l o ++ t.textOf n).length)
    (hm : Relation.ReflTransGen t.IsChild n m) (leaf : ∀ c ∈ t.below m, c.span = none)
    (hr : r ∈ (t.textOf m).cutRanges o.maxSize) :
    let k := Cut.piece m i r
    t.Shape l o k.bounds.1 k.bounds.2 (k.chunk t (t.lead l o)) ∧ t.Placed l o k := by
  have hnodes := t.mem_nodes_of_descends (t.mem_nodes_of_mem_chosen hn) hm
  cases hs : m.span with
  | none =>
    have htext : t.textOf m = [] := by simp [textOf, hs]
    rw [htext] at hr
    have := ((Text.tiles_cutRanges [] o.maxSize).bounds hr)
    simp at this
    omega
  | some s =>
    obtain ⟨a, b, hspan⟩ := ht.covers hnodes hs
    obtain ⟨x, y, rfl, hxy, hyb, hbounds⟩ := bounds_of_mem_cutRanges (i := i) hspan hr
    refine ⟨?_, placed_piece hspan hr⟩
    rw [hbounds]
    refine .piece n m a b i hn large hm ?_ hspan (by omega) ?_ rfl rfl
    · intro c hc
      exact leaf c (ht.below_eq hnodes ▸ hc)
    · rw [Cut.chunk, hspan.textOf_eq]
      exact slice_slice t.source hyb

/-- What each cut covers: its shape, its place in the source and its lines. -/
theorem Anchored.shape_of_mem_cuts {k : Cut} (hk : k ∈ t.cuts l o) :
    t.Shape l o k.bounds.1 k.bounds.2 (k.chunk t (t.lead l o)) ∧ t.Placed l o k := by
  obtain ⟨n, hn, hk⟩ := List.mem_flatMap.mp hk
  have hnodes := t.mem_nodes_of_mem_chosen hn
  obtain ⟨s, hs, ⟨large, hk⟩ | ⟨-, rfl⟩⟩ := (t.mem_topCuts_iff o.maxSize).mp hk
  · rcases t.mem_cutsDown o.maxSize hk with
      ⟨m, s', rfl, hm, -, hdown⟩ | ⟨m, i, r, rfl, hr, hdown, hleaf⟩
    · obtain ⟨a, b, hspan⟩ :=
        ht.covers (t.mem_nodes_of_descends hnodes hdown.to_reflTransGen) hm
      refine ⟨?_, placed_whole hspan hm⟩
      rw [(bounds_of_covers hspan hm).2]
      exact .below n m hn large hdown hspan (by rw [← hspan.textOf_eq]; rfl) rfl rfl
    · exact ht.shape_piece hn large hdown hleaf hr
  · obtain ⟨a, b, hspan⟩ := ht.covers hnodes hs
    refine ⟨?_, placed_top hspan hs⟩
    rw [(bounds_of_covers hspan hs).1]
    exact .top n hn hspan (by rw [← hspan.textOf_eq]; rfl) rfl rfl

/-- Every chunk of a tree is that of a cut, and has its shape and its lines. -/
theorem Anchored.exists_cut {c : Chunk} (hc : c ∈ t.extract l o) :
    ∃ k, c = k.chunk t (t.lead l o) ∧ t.Shape l o k.bounds.1 k.bounds.2 c ∧ t.Placed l o k := by
  rw [extract_eq_map] at hc
  obtain ⟨k, hk, rfl⟩ := List.mem_map.mp hc
  exact ⟨k, rfl, ht.shape_of_mem_cuts hk⟩

end

/-- Every chunk of a tree is a whole top node after the context, a whole node below a top node that
is too large, or a piece of a node without children to speak of, and it stands on the lines that
its part of the source takes up. -/
theorem extract_traceable (ht : t.Anchored) {c : Chunk} (hc : c ∈ t.extract l o) :
    ∃ start stop, start ≤ stop ∧ stop ≤ t.source.length ∧ t.Shape l o start stop c ∧
      c.startLine = t.source.lineAt start ∧ c.endLine = t.source.lastLineAt start stop := by
  obtain ⟨k, rfl, hshape, hplaced⟩ := ht.exists_cut hc
  exact ⟨k.bounds.1, k.bounds.2, hplaced.le, hplaced.le_length, hshape, hplaced.startLine,
    hplaced.endLine⟩

/-- A class with a member of two characters and one of eight. -/
def twoMembers : Outline := [
  ⟨"module", some (0, 16), none, []⟩,
  ⟨"class", some (0, 15), some 0, []⟩,
  ⟨"name", some (4, 6), some 1, []⟩,
  ⟨"body", some (7, 15), some 1, []⟩]

def twoMembersTree : Tree where
  language := "classes"
  source := "k:\n aa\nbbb\ncccc\n".toList
  root := 0
  nodes := #[
    { id := 0, type := "module", span := some ⟨⟨0, 0, 0⟩, ⟨4, 0, 16⟩, by decide⟩, children := [1] },
    { id := 1, type := "class", span := some ⟨⟨0, 0, 0⟩, ⟨3, 4, 15⟩, by decide⟩, parent := some 0
      children := [2, 3] },
    { id := 2, type := "name", span := some ⟨⟨1, 1, 4⟩, ⟨1, 3, 6⟩, by decide⟩, parent := some 1 },
    { id := 3, type := "body", span := some ⟨⟨2, 0, 7⟩, ⟨3, 4, 15⟩, by decide⟩, parent := some 1 }]

theorem anchored_twoMembersTree : twoMembersTree.Anchored := by
  have h : twoMembers.tree "classes" twoMembersTree.source 0 = .ok twoMembersTree := by cbv
  exact Outline.anchored_of_tree h

def classes : Language := { name := "classes", grammar := "classes", boundaries := ["class"] }

/-- Under a budget of five the class is split, and so is its longer member. -/
theorem extract_traceable_member : twoMembersTree.Anchored ∧
    ∃ c ∈ twoMembersTree.extract (some classes) { maxSize := 5 }, c.content = "cccc".toList ∧
      ∃ start stop, start ≤ stop ∧ stop ≤ twoMembersTree.source.length ∧
        twoMembersTree.Shape (some classes) { maxSize := 5 } start stop c ∧
        c.startLine = twoMembersTree.source.lineAt start ∧
        c.endLine = twoMembersTree.source.lastLineAt start stop := by
  have h : (twoMembersTree.extract (some classes) { maxSize := 5 }).map (·.content) =
      ["aa".toList, "bbb\n".toList, "cccc".toList] := by cbv
  have hmem : "cccc".toList ∈
      (twoMembersTree.extract (some classes) { maxSize := 5 }).map (·.content) := by
    rw [h]
    decide
  obtain ⟨c, hc, hcontent⟩ := List.mem_map.mp hmem
  exact ⟨anchored_twoMembersTree, c, hc, hcontent, extract_traceable anchored_twoMembersTree hc⟩

end CodeChunks.Tree
