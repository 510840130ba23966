import CodeChunks.Proofs.Chunk.Coverage
import CodeChunks.Proofs.Chunk.Paging
import CodeChunks.Proofs.Chunk.Regrouping
import CodeChunks.Proofs.Chunk.Substitution
import CodeChunks.Proofs.Parser.Outlines
import CodeChunks.Proofs.Text.FencePairs

/-! # Embedded chunks stay on the lines of their host

A payload has fewer lines than the fenced block around it, and chunks between two lines stay between
them when they are merged. So hosts that follow each other are replaced by chunks that do. -/
namespace CodeChunks

namespace Text

theorem count_le_innerBreaks (t : Text) : t.count '\n' ≤ t.innerBreaks + 1 := by
  cases t using List.reverseRec with
  | nil => simp
  | append_singleton t c =>
    have hlast : [c].count '\n' ≤ 1 := List.count_le_length
    rw [innerBreaks, List.dropLast_concat, List.count_append]
    omega

theorem lineAt_le_lastLineAt (t : Text) (a b : Nat) : t.lineAt a ≤ t.lastLineAt a b := by
  rw [lastLineAt]
  split
  · exact t.lineAt_mono (by omega)
  · exact Nat.le_refl _

theorem lastLineAt_le (t : Text) {a b : Nat} (h : a ≤ b) (hb : b ≤ t.length) :
    t.lastLineAt a b ≤ t.lineAt t.length := by
  rw [lastLineAt]
  split <;> exact t.lineAt_mono (by omega)

end Text

/-- The lines around the payload of a pair of fences are two at least. -/
theorem Fence.count_payload {t : Text} {i j m : Nat} (h : Pair t.lines i j m) :
    (payload t).count '\n' + 1 ≤ t.innerBreaks := by
  rcases firstEnclosed_cases t.lines with ⟨i, j, m, ⟨hpair, -, -, -⟩, hpayload⟩ | ⟨hnone, -⟩
  · obtain ⟨mark, -, -, tail, hclosing, -⟩ := hpair.marked
    have hapart := hpair.apart
    have hj : j < t.lines.length := List.getElem?_eq_some_iff.mp hclosing |>.1
    have hlength : ((t.lines.take j).drop (i + 1)).length = j - (i + 1) := by
      rw [List.length_drop, List.length_take, Nat.min_eq_left (Nat.le_of_lt hj)]
    have hlines : ∀ l ∈ (t.lines.take j).drop (i + 1), '\n' ∉ l := fun l hl =>
      Text.notMem_of_mem_lines (List.mem_of_mem_take (List.mem_of_mem_drop hl))
    have hcount := Text.count_unlines (List.ne_nil_of_length_pos (by omega)) hlines
    have hbreaks := t.count_le_innerBreaks
    rw [t.length_lines] at hj
    rw [payload, hpayload]
    dsimp only
    omega
  · exact absurd h (hnone i j m)

namespace Chunk

/-- Chunks between two lines, in the order of the lines on which they begin. -/
structure Within (first last : Int) (cs : List Chunk) : Prop where
  bounds : ∀ c ∈ cs, first ≤ c.startLine ∧ c.startLine ≤ c.endLine ∧ c.endLine ≤ last
  ordered : cs.Pairwise fun c d => c.startLine ≤ d.startLine

variable {least : Nat} {first last : Int} {c : Chunk} {cs ds g : List Chunk}

theorem within_cons : Within first last (c :: cs) ↔
    (first ≤ c.startLine ∧ c.startLine ≤ c.endLine ∧ c.endLine ≤ last) ∧
      Within c.startLine last cs := by
  constructor
  · rintro ⟨hbounds, hordered⟩
    rw [List.forall_mem_cons] at hbounds
    rw [List.pairwise_cons] at hordered
    exact ⟨hbounds.1, fun d hd => ⟨hordered.1 d hd, (hbounds.2 d hd).2⟩, hordered.2⟩
  · rintro ⟨hc, hbounds, hordered⟩
    refine ⟨List.forall_mem_cons.mpr ⟨hc, fun d hd => ?_⟩,
      List.pairwise_cons.mpr ⟨fun d hd => (hbounds d hd).1, hordered⟩⟩
    have := hbounds d hd
    omega

theorem Within.append (h : Within first last (cs ++ ds)) :
    Within first last cs ∧ Within first last ds := by
  obtain ⟨hbounds, hordered⟩ := h
  rw [List.forall_mem_append] at hbounds
  rw [List.pairwise_append] at hordered
  exact ⟨⟨hbounds.1, hordered.1⟩, hbounds.2, hordered.2.1⟩

/-- What becomes of a group begins where its first chunk does and ends where its last one does. -/
theorem Becomes.exists_lines (h : Becomes least g c) : ∃ d ∈ g.head?, ∃ e ∈ g.getLast?,
    c.startLine = d.startLine ∧ c.endLine = e.endLine := by
  rcases h with rfl | h
  · exact ⟨c, rfl, c, rfl, rfl, rfl⟩
  · obtain ⟨d, hd, hstart⟩ := Option.map_eq_some_iff.mp h.startLine_eq
    obtain ⟨e, he, hend⟩ := Option.map_eq_some_iff.mp h.endLine_eq
    exact ⟨d, hd, e, he, hstart.symm, hend.symm⟩

/-- Groups of chunks between two lines become chunks between them. -/
theorem Within.of_becomes {gs : List (List Chunk)} (hgs : List.Forall₂ (Becomes least) gs cs)
    (h : Within first last gs.flatten) : Within first last cs := by
  induction hgs generalizing first with
  | nil => exact h
  | @cons g c gs cs hbecomes _ ih =>
    obtain ⟨d, hd, e, he, hstart, hend⟩ := hbecomes.exists_lines
    obtain ⟨g, rfl⟩ := List.head?_eq_some_iff.mp hd
    rw [List.flatten_cons, List.cons_append, within_cons] at h
    obtain ⟨hfirst, h⟩ := h
    obtain ⟨hgroup, hrest⟩ := h.append
    rw [← hstart] at hfirst hgroup hrest
    refine within_cons.mpr ⟨?_, ih hrest⟩
    have hlast : c.startLine ≤ e.endLine ∧ e.endLine ≤ last := by
      rcases List.mem_cons.mp (List.mem_of_getLast? he) with rfl | he
      · exact hfirst.2
      · have := hgroup.bounds e he
        omega
    omega

theorem Within.mergeSmall (h : Within first last cs) :
    Within first last (mergeSmall least cs) := by
  obtain ⟨gs, hflat, hgs⟩ := mergeFrom_becomes least none cs [] rfl
  exact .of_becomes hgs (hflat ▸ h)

theorem Within.moveInto (h : Within first last cs) (host : Chunk) (name : String) :
    Within (first + (host.startLine - 1)) (last + (host.startLine - 1))
      (cs.map (host.moveInto name)) := by
  constructor
  · intro c hc
    obtain ⟨d, hd, rfl⟩ := List.mem_map.mp hc
    have := h.bounds d hd
    dsimp only [Chunk.moveInto]
    omega
  · rw [List.pairwise_map]
    refine h.ordered.imp ?_
    intro c d hcd
    dsimp only [Chunk.moveInto]
    omega

/-- Hosts that follow each other leave in order what is within their lines. -/
theorem pairwise_flatten {hosts : List Chunk} {rs : List (List Chunk)}
    (hchain : hosts.IsChain fun c d => c.endLine ≤ d.startLine)
    (hrs : List.Forall₂ (fun host ds => Within host.startLine host.endLine ds) hosts rs)
    (hlines : ∀ host ∈ hosts, host.startLine ≤ host.endLine) :
    rs.flatten.Pairwise (fun c d => c.startLine ≤ d.startLine) ∧
      ∀ host ∈ hosts.head?, ∀ c ∈ rs.flatten, host.startLine ≤ c.startLine := by
  induction hrs with
  | nil => simp
  | @cons host ds hosts rs hds hrs ih =>
    rw [List.forall_mem_cons] at hlines
    obtain ⟨hordered, hfirst⟩ := ih hchain.tail hlines.2
    have hbelow : ∀ c ∈ rs.flatten, host.endLine ≤ c.startLine := by
      intro c hc
      cases hrs with
      | nil => cases hc
      | cons =>
        have hnext := hchain.rel
        exact Int.le_trans hnext (hfirst _ rfl c hc)
    rw [List.flatten_cons, List.pairwise_append]
    refine ⟨⟨hds.ordered, hordered, fun c hc d hd => ?_⟩, ?_⟩
    · have := hds.bounds c hc
      have := hbelow d hd
      omega
    · rintro _ ⟨rfl⟩ c hc
      rcases List.mem_append.mp hc with hc | hc
      · exact (hds.bounds c hc).1
      · have := hbelow c hc
        omega

/-- Some line of the chunk opens a fence that another one closes. -/
def IsFenced (c : Chunk) : Prop := ∃ i j m, Fence.Pair c.content.lines i j m

/-- The chunk takes up as many lines as its content has. -/
structure Measured (c : Chunk) : Prop where
  le : c.startLine ≤ c.endLine
  lines : c.endLine - c.startLine = c.content.innerBreaks

end Chunk

open Chunk

theorem Tree.WellFormed.within {t : Tree} (ht : t.WellFormed) (l : Option Language) (o : Options) :
    Within 1 (t.source.lineAt t.source.length) (t.extract l o) := by
  refine ⟨fun c hc => ?_, ht.pairwise_startLine l o⟩
  obtain ⟨k, rfl, -, hplaced⟩ := ht.anchored.exists_cut hc
  have hfirst : 1 ≤ t.source.lineAt k.bounds.1 := Nat.le_add_left 1 _
  have hle := t.source.lineAt_le_lastLineAt k.bounds.1 k.bounds.2
  have hlast := t.source.lastLineAt_le hplaced.le hplaced.le_length
  rw [hplaced.startLine, hplaced.endLine]
  omega

namespace Toolbox

/-- A tree that the payload of a host is parsed to is well-formed and one of that payload. -/
def ParsesWell (b : Toolbox) (s : Session) (l : Option Language) (host : Chunk) : Prop :=
  ∀ name l' t, host.hosted? l = .ok (some (.str name)) →
    b.tree? s (Fence.payload host.content) name = some (l', t) →
    t.WellFormed ∧ t.source = Fence.payload host.content

variable {b : Toolbox} {s s' : Session} {l : Option Language} {o : Options} {host : Chunk}
  {name : String} {ns : List Chunk}

/-- What takes the place of a host comes from the tree of its payload. -/
theorem Replaces.exists_tree (h : b.Replaces s l o host name ns) : ∃ l' t,
    b.tree? s (Fence.payload host.content) name = some (l', t) ∧
      ns = mergeSmall o.minSize (t.extract l' o.flat) := by
  obtain ⟨⟨-, s₁, s₂, hfollows, hrun⟩, n, hn, hstructural⟩ := h
  have hns := ((b.chunkFlat_ends s₁ _ name o.flat).of_run_eq hrun).1
  rw [hfollows.flatChunks_eq] at hns
  obtain ⟨ns, rfl⟩ := List.head?_eq_some_iff.mp hn
  have hstructure := structure?_of_chunksWith_eq hns.symm hstructural
  obtain ⟨⟨l', t⟩, htree, hmerged⟩ := Option.bind_eq_some_iff.mp hstructure
  exact ⟨l', t, htree, (Option.some.inj hmerged).symm⟩

/-- What takes the place of a fenced block stands within its lines. -/
theorem Replaces.within (h : b.Replaces s l o host name ns) (hparses : b.ParsesWell s l host)
    (hlines : host.Measured) (hfenced : host.IsFenced) :
    Within host.startLine host.endLine (ns.map (host.moveInto name)) := by
  obtain ⟨l', t, htree, rfl⟩ := h.exists_tree
  obtain ⟨ht, hsource⟩ := hparses name l' t h.hosted htree
  obtain ⟨i, j, m, hpair⟩ := hfenced
  have hmerged : Within 1 (t.source.lineAt t.source.length)
      (mergeSmall o.minSize (t.extract l' o.flat)) := (ht.within l' o.flat).mergeSmall
  have hwithin := hmerged.moveInto host name
  rw [hsource, Text.lineAt_length] at hwithin
  have hpayload := Fence.count_payload hpair
  have hextent := hlines.lines
  refine ⟨fun c hc => ?_, hwithin.ordered⟩
  have := hwithin.bounds c hc
  omega

theorem Takes.within {ds : List Chunk} (h : b.Takes s l o host ds) (hparses : b.ParsesWell s l host)
    (hlines : host.Measured)
    (hfenced : ∀ name ns, b.Replaces s l o host name ns → host.IsFenced) :
    Within host.startLine host.endLine ds := by
  have hself : Within host.startLine host.endLine [host] :=
    ⟨by simpa using hlines.le, List.pairwise_singleton _ _⟩
  cases h with
  | alone _ => exact hself
  | kept _ _ _ _ => exact hself
  | replaced name ns hreplaces =>
    exact hreplaces.within hparses hlines (hfenced name ns hreplaces)

/-- Hosts are kept in their places or give way to what chunking their payloads gives, moved as a
whole. What takes the place of a fenced block stays within its lines, and if no other hosts give
way, all chunks are in the order of the lines on which they begin. -/
theorem expandHosts_enclosed {hosts es : List Chunk} (hlines : ∀ host ∈ hosts, host.Measured)
    (hchain : hosts.IsChain fun c d => c.endLine ≤ d.startLine)
    (hparses : ∀ host ∈ hosts, b.ParsesWell s l host)
    (hrun : (b.expandHosts l o hosts).run.run.run s = (.ok (.ok es), s')) :
    (∃ rs, rs.flatten = es ∧ List.Forall₂ (b.Takes s l o) hosts rs) ∧
    (∀ host ∈ hosts, ∀ name ns, b.Replaces s l o host name ns →
      (∀ n ∈ ns, ∀ m ∈ ns,
        let c := host.moveInto name n
        let d := host.moveInto name m
        c.startLine - d.startLine = n.startLine - m.startLine ∧
        c.endLine - d.endLine = n.endLine - m.endLine ∧
        c.endLine - d.startLine = n.endLine - m.startLine) ∧
      (host.IsFenced → ∀ n ∈ ns,
        let c := host.moveInto name n
        host.startLine ≤ c.startLine ∧ c.startLine ≤ c.endLine ∧ c.endLine ≤ host.endLine)) ∧
    ((∀ host ∈ hosts, ∀ name ns, b.Replaces s l o host name ns → host.IsFenced) →
      es.Pairwise fun c d => c.startLine ≤ d.startLine) := by
  obtain ⟨rs, rfl, hrs⟩ := (expandHosts_takes (.refl b s) hosts).of_run_eq hrun es rfl
  refine ⟨⟨rs, rfl, hrs⟩, fun host hhost name ns hreplaces => ⟨?_, fun hfenced n hn => ?_⟩,
    fun hfenced => ?_⟩
  · intro n _ m _
    dsimp only [Chunk.moveInto]
    omega
  · have hwithin := hreplaces.within (hparses host hhost) (hlines host hhost) hfenced
    exact hwithin.bounds _ (List.mem_map_of_mem hn)
  · have hmem := (List.forall₂_and_left hosts rs).mpr ⟨fun _ hhost => hhost, hrs⟩
    have hwithin := hmem.imp fun host ds h =>
      h.2.within (hparses host h.1) (hlines host h.1) (hfenced host h.1)
    exact (pairwise_flatten hchain hwithin fun host hhost => (hlines host hhost).le).1

/-- A language of units, one on each of the first two lines, and documents that hold such code. -/
def twoUnits : Outline := [
  ⟨"root", some (0, 3), none, []⟩,
  ⟨"unit", some (0, 1), some 0, []⟩,
  ⟨"unit", some (2, 3), some 0, []⟩]

def unitGuests : Toolbox := ofOutlines [
  ({ name := "doc", grammar := "doc"
     embeddings := [{ nodeType := "fence", default := .str "y" }] }, []),
  ({ name := "y", grammar := "y", boundaries := ["unit"] }, twoUnits)]

/-- A block with a line of text above it, and a line of text below the block. -/
def unitBlock : Chunk := ⟨"t\n\x60\x60\x60\na\nb\n\x60\x60\x60\n".toList, "fence", 1, 5, []⟩

def lineBelow : Chunk := ⟨"x".toList, "text", 6, 6, []⟩

def twoUnitsTree : Tree where
  language := "y"
  source := "a\nb".toList
  root := 0
  nodes := #[
    { id := 0, type := "root", span := some ⟨⟨0, 0, 0⟩, ⟨1, 1, 3⟩, by decide⟩, children := [1, 2] },
    { id := 1, type := "unit", span := some ⟨⟨0, 0, 0⟩, ⟨0, 1, 1⟩, by decide⟩, parent := some 0 },
    { id := 2, type := "unit", span := some ⟨⟨1, 0, 2⟩, ⟨1, 1, 3⟩, by decide⟩, parent := some 0 }]

theorem wellFormed_twoUnitsTree : twoUnitsTree.WellFormed where
  anchored := by
    have h : twoUnits.tree "y" "a\nb".toList 0 = .ok twoUnitsTree := by cbv
    exact Outline.anchored_of_tree h
  spans := by decide
  nested := by decide
  ordered := by decide

theorem parsesWell_unitBlock :
    unitGuests.ParsesWell {} (unitGuests.languages.find? "doc") unitBlock := by
  intro name l' t hhosted htree
  have hname : unitBlock.hosted? (unitGuests.languages.find? "doc") = .ok (some (.str "y")) := by
    cbv
  have hpayload : Fence.payload unitBlock.content = "a\nb".toList := by decide
  have hunits : unitGuests.tree? {} "a\nb".toList "y" =
      some (unitGuests.languages.find? "y", twoUnitsTree) := by cbv
  cases hname.symm.trans hhosted
  rw [hpayload] at htree ⊢
  cases hunits.symm.trans htree
  exact ⟨wellFormed_twoUnitsTree, rfl⟩

/-- The units of the block begin on its first two lines, before the line below it. -/
theorem expandHosts_enclosed_unitBlock : ∃ es s',
    (unitGuests.expandHosts (unitGuests.languages.find? "doc") {}
      [unitBlock, lineBelow]).run.run.run {} = (.ok (.ok es), s') ∧
    es.map (fun c => (c.type, c.startLine, c.endLine)) =
      [("unit", 1, 1), ("unit", 2, 2), ("text", 6, 6)] ∧
    unitBlock.IsFenced ∧
    es.Pairwise fun c d => c.startLine ≤ d.startLine := by
  have hrefuses : [unitBlock, lineBelow].any
      (·.refuses (unitGuests.languages.find? "doc")) = false := by cbv
  have hchunks : ([unitBlock, lineBelow].flatMap
      (unitGuests.hostChunks {} (unitGuests.languages.find? "doc") {})).map
      (fun c => (c.type, c.startLine, c.endLine)) =
      [("unit", 1, 1), ("unit", 2, 2), ("text", 6, 6)] := by cbv
  have hplain : lineBelow.hosted? (unitGuests.languages.find? "doc") = .ok none := by cbv
  have hfenced : unitBlock.IsFenced :=
    ⟨1, 4, 3, by decide, Nat.le_refl 3, '\x60', .inl rfl, ⟨_, rfl, by decide⟩, [], rfl, by simp⟩
  obtain ⟨r, s', hrun, hr, -⟩ := (unitGuests.expandHosts_ends {}
    (unitGuests.languages.find? "doc") {} [unitBlock, lineBelow]).returns
    (not_mayStop (answers_ofOutlines _) (by decide +kernel))
  rw [hrefuses, if_neg (by simp)] at hr
  cases r with
  | error e => cases hr
  | ok es =>
    obtain rfl := Option.some.inj hr
    refine ⟨_, s', hrun, hchunks, hfenced, (expandHosts_enclosed ?_ ?_ ?_ hrun).2.2 ?_⟩
    · simp only [List.forall_mem_cons]
      exact ⟨⟨by decide, by decide⟩, ⟨by decide, by decide⟩, by simp⟩
    · decide
    · simp only [List.forall_mem_cons]
      refine ⟨parsesWell_unitBlock, ?_, by simp⟩
      intro name l' t hhosted
      cases hplain.symm.trans hhosted
    · simp only [List.forall_mem_cons]
      refine ⟨fun _ _ _ => hfenced, ?_, by simp⟩
      intro name ns hreplaces
      cases hplain.symm.trans hreplaces.hosted

end Toolbox

end CodeChunks
