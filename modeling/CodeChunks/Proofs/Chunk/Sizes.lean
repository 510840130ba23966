import CodeChunks.Proofs.Chunk.Origins
import CodeChunks.Proofs.Chunk.Pipeline
import CodeChunks.Proofs.Chunk.Regrouping

/-! # The sizes of chunks

The budget bounds what is cut, and merging joins two pieces only when both are small. Only a code
as a whole may be longer, and such a chunk stands alone. -/
namespace CodeChunks

/-- A chunk of a tree keeps to the budget, the context included, and its metadata are the data of
a node or the number of a piece. -/
theorem Tree.size_of_mem_extract {t : Tree} {l : Option Language} {o : Options} {c : Chunk}
    (hc : c ∈ t.extract l o) : c.content.length ≤ o.maxSize ∧
      ((∃ n ∈ t.nodes, c.metadata = n.data) ∨
        ∃ i : Nat, c.metadata = [("split", .bool true), ("index", .int i)]) := by
  rw [extract_eq_map] at hc
  obtain ⟨k, hk, rfl⟩ := List.mem_map.mp hc
  obtain ⟨n, hn, hk⟩ := List.mem_flatMap.mp hk
  have hnodes := t.mem_nodes_of_mem_chosen hn
  obtain ⟨s, -, ⟨-, hk⟩ | ⟨hfit, rfl⟩⟩ := (t.mem_topCuts_iff o.maxSize).mp hk
  · rcases t.mem_cutsDown o.maxSize hk with ⟨m, s, rfl, -, hfit, hm⟩ | ⟨m, i, r, rfl, hr, -⟩
    · exact ⟨hfit, .inl ⟨m, t.mem_nodes_of_descends hnodes hm.to_reflTransGen, rfl⟩⟩
    · exact ⟨Text.length_slice_cutRanges _ o.maxSize_pos hr, .inr ⟨i, rfl⟩⟩
  · exact ⟨hfit, .inl ⟨n, hnodes, rfl⟩⟩

/-- The mark of a code in which no node became a chunk. -/
def Json.lacksBoundaries (fs : Json.Fields) : Prop :=
  Assoc.find? "reason" fs = some (.str "no-semantic-boundaries")

namespace Toolbox

/-- A parser of the session gives the tree for some code. -/
def Gives (b : Toolbox) (s : Session) (t : Tree) : Prop :=
  ∃ language h code options, b.handle? s language = some h ∧ h.parse code options = .tree t

/-- Chunks that come from the nodes of trees: those that are cut from one, and what moving into a
host and joining small pieces make of them. -/
inductive Structural (b : Toolbox) (s : Session) (o : Options) : Chunk → Prop
  | cut (t : Tree) (l : Option Language) (c : Chunk) (ht : b.Gives s t) (hc : c ∈ t.extract l o) :
      Structural b s o c
  | moved (host : Chunk) (name : String) (c : Chunk) (hc : Structural b s o c) :
      Structural b s o (host.moveInto name c)
  | joined (c d : Chunk) (hc : c.isSmall o.minSize) (hd : d.isSmall o.minSize)
      (first : Structural b s o c) (second : Structural b s o d) : Structural b s o (c.join d)

variable {b : Toolbox} {s s' : Session} {code : Text} {path : String} {o : Options}
  {cs : List Chunk}

theorem Structural.length_le {c : Chunk} (h : b.Structural s o c) :
    c.content.length ≤ max o.maxSize (2 * o.minSize) := by
  induction h with
  | cut t l c ht hc => exact Nat.le_trans (Tree.size_of_mem_extract hc).1 (Nat.le_max_left ..)
  | moved host name c hc ih => exact ih
  | joined c d hc hd => exact Nat.le_trans (length_join_le hc hd) (Nat.le_max_right ..)

/-- A key that cutting, moving and joining do not write is there by the data of a node. -/
theorem Structural.exists_node_of_find? {c : Chunk} (h : b.Structural s o c) {key : String}
    (hkey : ∀ k ∈ ["split", "index", "embeddedIn", "embeddedLanguage", "merged"], k ≠ key)
    {v : Json} (hc : Assoc.find? key c.metadata = some v) :
    ∃ t, b.Gives s t ∧ ∃ n ∈ t.nodes, Assoc.find? key n.data = some v := by
  simp only [List.forall_mem_cons] at hkey
  obtain ⟨hsplit, hindex, hin, hlanguage, hmerged, -⟩ := hkey
  induction h with
  | cut t l c ht hmem =>
    rcases (Tree.size_of_mem_extract hmem).2 with ⟨n, hn, hdata⟩ | ⟨i, hdata⟩
    · exact ⟨t, ht, n, hn, hdata ▸ hc⟩
    · simp [hdata, Assoc.find?, hsplit, hindex] at hc
  | moved host name c _ ih =>
    refine ih ?_
    simpa [Chunk.moveInto, Assoc.find?_insert, hin, hlanguage] using hc
  | joined c d _ _ _ _ ih _ =>
    refine ih ?_
    simpa [Chunk.join, Assoc.find?_insert, hmerged] using hc

/-- A chunk of a tree is marked as a whole code only by the data of a node. -/
theorem Structural.exists_node_of_lacksBoundaries {c : Chunk} (h : b.Structural s o c)
    (hc : Json.lacksBoundaries c.metadata) :
    ∃ t, b.Gives s t ∧ ∃ n ∈ t.nodes, Json.lacksBoundaries n.data :=
  h.exists_node_of_find? (by decide) hc

theorem gives_of_tree? {l : Option Language} {t : Tree} (h : b.tree? s code path = some (l, t)) :
    b.Gives s t := by
  obtain ⟨name, hd, -, hload, hparse, -⟩ := tree?_eq_some_iff.mp h
  exact ⟨name, hd, code, _, hload, hparse⟩

theorem structural_of_flat {c : Chunk} (h : b.Structural s o.flat c) : b.Structural s o c := by
  induction h with
  | cut t l c ht hc => exact .cut t l c ht hc
  | moved host name c _ ih => exact .moved host name c ih
  | joined c d hc hd _ _ first second => exact .joined c d hc hd first second

/-- Merging and whatever keeps to the nodes of trees give chunks of trees. -/
theorem structural_of_structure?
    {expand : Option Language → List Chunk → Option (List Chunk)}
    (hexpand : ∀ l cs es, expand l cs = some es →
      (∀ c ∈ cs, b.Structural s o c) → ∀ e ∈ es, b.Structural s o e)
    (h : b.structure? s expand code path o = some cs) : ∀ c ∈ cs, b.Structural s o c := by
  obtain ⟨⟨l, t⟩, htree, h⟩ := Option.bind_eq_some_iff.mp h
  obtain ⟨es, hes, rfl⟩ := Option.map_eq_some_iff.mp h
  have hcut : ∀ c ∈ t.extract l o, b.Structural s o c := fun c hc =>
    .cut t l c (gives_of_tree? htree) hc
  exact mergeSmall_induction .joined (hexpand l _ es hes hcut)

/-- What takes the place of a host comes from the nodes of trees, too: neither the pieces of a code
without structure nor a code as a whole do. -/
theorem structural_of_mem_hostChunks {l : Option Language} {host c : Chunk}
    (hhost : b.Structural s o host) (hc : c ∈ b.hostChunks s l o host) : b.Structural s o c := by
  rcases b.hostChunks_cases s l o host with hkept | ⟨name, l', t, -, htree, -, hmoved⟩
  · rw [hkept] at hc
    exact List.mem_singleton.mp hc ▸ hhost
  · rw [hmoved] at hc
    obtain ⟨n, hn, rfl⟩ := List.mem_map.mp hc
    have hcut : ∀ c ∈ t.extract l' o.flat, b.Structural s o c := fun c hc =>
      structural_of_flat (.cut t l' c (gives_of_tree? htree) hc)
    exact .moved host name n (mergeSmall_induction .joined hcut n hn)

theorem structural_of_expanded {l : Option Language} {es : List Chunk}
    (h : b.expanded s o l cs = some es) (hcs : ∀ c ∈ cs, b.Structural s o c) :
    ∀ e ∈ es, b.Structural s o e := by
  rw [expanded] at h
  split at h
  · cases h
    exact hcs
  · split at h
    · cases h
    · cases h
      intro e he
      obtain ⟨c, hc, he⟩ := List.mem_flatMap.mp he
      exact structural_of_mem_hostChunks (hcs c hc) he

/-- A run returns a whole code, or chunks of at most the budget or, where small pieces are joined,
twice the size below which they are small. No whole code is among these: they are pieces of the
code, or come from the nodes of trees. -/
theorem chunk_bounded (hrun : (b.chunk code path o).run.run s = (.ok cs, s')) :
    cs = [wholeChunk code] ∨
      (cs = fallbackChunks code o.maxSize ∨ ∀ c ∈ cs, b.Structural s o c) ∧
      ∀ c ∈ cs, c.content.length ≤ max o.maxSize (2 * o.minSize) ∧
        (2 * o.minSize ≤ o.maxSize → c.content.length ≤ o.maxSize) ∧
        (Json.lacksBoundaries c.metadata →
          ∃ t, b.Gives s t ∧ ∃ n ∈ t.nodes, Json.lacksBoundaries n.data) := by
  obtain ⟨rfl, -⟩ := (b.chunk_ends s code path o).of_run_eq hrun
  rw [chunks, chunksWith]
  split
  · simp
  cases hs : b.structure? s (b.expanded s o) code path o with
  | none =>
    refine .inr ⟨.inl rfl, fun c hc => ?_⟩
    have hlength := length_fallbackChunks code o.maxSize_pos hc
    refine ⟨Nat.le_trans hlength (Nat.le_max_left ..), fun _ => hlength, fun hmark => ?_⟩
    obtain ⟨i, hmetadata⟩ := metadata_of_mem_fallbackChunks code hc
    rw [hmetadata] at hmark
    cases hmark
  | some cs =>
    have hcs := structural_of_structure? (fun _ _ _ => structural_of_expanded) hs
    cases cs with
    | nil => exact .inl rfl
    | cons c cs =>
      refine .inr ⟨.inr hcs, fun c hc => ?_⟩
      have hlength := (hcs c hc).length_le
      exact ⟨hlength, fun h => Nat.le_trans hlength (Nat.max_le.mpr ⟨Nat.le_refl _, h⟩),
        (hcs c hc).exists_node_of_lacksBoundaries⟩

/-- Every code has the tree of a class with two members. -/
def twoMembers : Toolbox where
  languages := { table := [("classes", Tree.classes)] }
  discover _ := .handle ⟨.labelled "classes", "classes", fun _ _ => .tree Tree.twoMembersTree⟩

/-- Two pieces that are cut to a budget of five are joined where ten characters count as small. -/
theorem chunk_bounded_joined : ∃ cs s',
    (twoMembers.chunk Tree.twoMembersTree.source "classes" { maxSize := 5, minSize := 10 }).run.run
      {} = (.ok cs, s') ∧
    cs.map (·.content) = ["aa".toList, "bbb\n\n\ncccc".toList] ∧
    ∀ c ∈ cs, c.content.length ≤ max 5 20 := by
  have hanswers : twoMembers.Answers {} := ⟨by simp, by simp [twoMembers]⟩
  have hcontents : (twoMembers.chunks {} Tree.twoMembersTree.source "classes"
      { maxSize := 5, minSize := 10 }).map (·.content) =
        ["aa".toList, "bbb\n\n\ncccc".toList] := by cbv
  obtain ⟨cs, s', hrun, rfl, -⟩ := (twoMembers.chunk_ends {} Tree.twoMembersTree.source "classes"
    { maxSize := 5, minSize := 10 }).returns (not_mayStop hanswers (by decide +kernel))
  refine ⟨_, s', hrun, hcontents, ?_⟩
  rcases chunk_bounded hrun with hwhole | ⟨-, hbound⟩
  · rw [hwhole] at hcontents
    cases hcontents
  · exact fun c hc => (hbound c hc).1

end Toolbox

end CodeChunks
