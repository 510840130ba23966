import CodeChunks.Proofs.Chunk.Regrouping
import CodeChunks.Proofs.Chunk.Sizes
import CodeChunks.Proofs.Parser.Outlines

/-! # Where merged chunks say that they come from

A merged chunk says of itself what the first of its pieces says. That is true of the others when
neighbouring small pieces say the same, and false when pieces of two embedded languages meet. -/
namespace CodeChunks

namespace Chunk

/-- What a chunk says it is embedded in, and in which language it says it is written. -/
def provenance (c : Chunk) : Option Json × Option Json :=
  (Assoc.find? "embeddedIn" c.metadata, Assoc.find? "embeddedLanguage" c.metadata)

@[simp] theorem provenance_moveInto (host : Chunk) (name : String) (c : Chunk) :
    (host.moveInto name c).provenance = (some (.str host.type), some (.str name)) := by
  simp [provenance, moveInto, Assoc.find?_insert]

/-- A chunk and its neighbour, if both are small, come from the same place. -/
def Akin (least : Nat) (c d : Chunk) : Prop :=
  c.isSmall least → d.isSmall least → c.provenance = d.provenance

variable {least : Nat} {g : List Chunk} {c : Chunk}

theorem Becomes.provenance_head (h : Becomes least g c) :
    ∀ d ∈ g.head?, c.provenance = d.provenance := by
  intro d hd
  rcases h with rfl | h
  · cases hd
    rfl
  · obtain ⟨d', hd', hmetadata⟩ := Option.map_eq_some_iff.mp h.metadata_eq
    obtain rfl : d = d' := Option.some.inj (hd.symm.trans hd')
    simp [provenance, ← hmetadata, Assoc.find?_insert]

/-- Where neighbours agree, the first piece of a group speaks for all. -/
theorem Becomes.provenance_eq (h : Becomes least g c) (hg : g.IsChain (Akin least)) :
    ∀ d ∈ g, c.provenance = d.provenance := by
  rcases h with rfl | hjoins
  · simp
  have hsame : g.IsChain fun d e : Chunk => d.provenance = e.provenance :=
    hg.imp_of_mem_imp fun d e hd he hakin => hakin (hjoins.small d hd) (hjoins.small e he)
  have : Trans (fun d e : Chunk => d.provenance = e.provenance)
      (fun d e : Chunk => d.provenance = e.provenance)
      (fun d e : Chunk => d.provenance = e.provenance) :=
    ⟨fun hde hef => hde.trans hef⟩
  cases g with
  | nil => simp
  | cons d g =>
    have hfirst : c.provenance = d.provenance := Becomes.provenance_head (.inr hjoins) d rfl
    have hrest := (List.pairwise_cons.mp hsame.pairwise).1
    intro e he
    rcases List.mem_cons.mp he with rfl | he
    · exact hfirst
    · exact hfirst.trans (hrest e he)

end Chunk

open Chunk

namespace Toolbox

/-- What a chunk was before merging, with the place that it comes from: a piece of the code cut by
size or the code as a whole, a chunk of the tree of the code, or a chunk of the payload of one. -/
inductive Stems (b : Toolbox) (s : Session) (code : Text) (path : String) (o : Options) :
    Chunk → Option Json × Option Json → Prop
  | size (c : Chunk) (hc : c ∈ fallbackChunks code o.maxSize) : Stems b s code path o c (none, none)
  | whole : Stems b s code path o (wholeChunk code) (none, none)
  | host (l : Option Language) (t : Tree) (c : Chunk) (htree : b.tree? s code path = some (l, t))
      (hc : c ∈ t.extract l o) : Stems b s code path o c (none, none)
  | guest (l : Option Language) (t : Tree) (host : Chunk) (name : String) (n : Chunk)
      (htree : b.tree? s code path = some (l, t)) (hhost : host ∈ t.extract l o)
      (hosted : host.hosted? l = .ok (some (.str name)))
      (hn : n ∈ b.flatChunks s (Fence.payload host.content) name o.flat) :
      Stems b s code path o (host.moveInto name n) (some (.str host.type), some (.str name))

/-- The chunks that a run merges. -/
def pieces (b : Toolbox) (s : Session) (code : Text) (path : String) (o : Options) : List Chunk :=
  ((b.tree? s code path).bind fun (l, t) => b.expanded s o l (t.extract l o)).getD []

/-- Groups of pieces that say truly where they come from, and the chunks that these groups become;
neighbours in a group are akin if all neighbours are that are merged. -/
structure Groups (b : Toolbox) (s : Session) (code : Text) (path : String) (o : Options)
    (gs : List (List Chunk)) (cs : List Chunk) : Prop where
  stems : ∀ d ∈ gs.flatten, b.Stems s code path o d d.provenance
  akin : (b.pieces s code path o).IsChain (Akin o.minSize) → ∀ g ∈ gs, g.IsChain (Akin o.minSize)
  becomes : List.Forall₂ (Becomes o.minSize) gs cs

variable {b : Toolbox} {s s' : Session} {code : Text} {path : String} {o : Options}
  {cs : List Chunk}

theorem Groups.singletons (hcs : ∀ c ∈ cs, b.Stems s code path o c c.provenance) :
    b.Groups s code path o (cs.map ([·])) cs where
  stems := by simpa [← List.flatMap_def] using hcs
  akin _ g hg := by
    obtain ⟨c, -, rfl⟩ := List.mem_map.mp hg
    exact .singleton c
  becomes := by
    rw [List.forall₂_map_left_iff, List.forall₂_same]
    exact fun c _ => .inl rfl

theorem structure?_eq_some {cs : List Chunk}
    (h : b.structure? s (b.expanded s o) code path o = some cs) :
    cs = mergeSmall o.minSize (b.pieces s code path o) := by
  obtain ⟨⟨l, t⟩, htree, h⟩ := Option.bind_eq_some_iff.mp h
  obtain ⟨es, hes, rfl⟩ := Option.map_eq_some_iff.mp h
  rw [pieces, htree, Option.bind_some]
  dsimp only
  rw [hes, Option.getD_some]

section

-- no data of a node of the code say that the node is embedded
variable (hdata : ∀ l t, b.tree? s code path = some (l, t) → ∀ n ∈ t.nodes,
  Assoc.find? "embeddedIn" n.data = none ∧ Assoc.find? "embeddedLanguage" n.data = none)

include hdata

theorem provenance_of_mem_extract {l : Option Language} {t : Tree}
    (htree : b.tree? s code path = some (l, t)) {c : Chunk} (hc : c ∈ t.extract l o) :
    c.provenance = (none, none) := by
  rcases (Tree.size_of_mem_extract hc).2 with ⟨n, hn, hmetadata⟩ | ⟨i, hmetadata⟩
  · obtain ⟨hin, hlanguage⟩ := hdata l t htree n hn
    rw [provenance, hmetadata, hin, hlanguage]
  · rw [provenance, hmetadata]
    rfl

/-- Before they are merged, chunks say truly where they come from. -/
theorem stems_of_mem_pieces {d : Chunk} (hd : d ∈ b.pieces s code path o) :
    b.Stems s code path o d d.provenance := by
  rw [pieces] at hd
  cases htree : b.tree? s code path with
  | none =>
    rw [htree] at hd
    cases hd
  | some p =>
    obtain ⟨l, t⟩ := p
    have hhost : ∀ c ∈ t.extract l o, b.Stems s code path o c c.provenance := fun c hc =>
      provenance_of_mem_extract hdata htree hc ▸ .host l t c htree hc
    simp only [htree, Option.bind_some, expanded] at hd
    split at hd
    · exact hhost d hd
    · split at hd
      · cases hd
      · obtain ⟨host, hmem, hd⟩ := List.mem_flatMap.mp hd
        rcases b.hostChunks_cases s l o host with
          hkept | ⟨name, l', t', hosted, -, hflat, hmoved⟩
        · rw [hkept] at hd
          exact List.mem_singleton.mp hd ▸ hhost host hmem
        · rw [hmoved, ← hflat] at hd
          obtain ⟨n, hn, rfl⟩ := List.mem_map.mp hd
          rw [provenance_moveInto]
          exact .guest l t host name n htree hmem hosted hn

theorem exists_groups (hrun : (b.chunk code path o).run.run s = (.ok cs, s')) :
    ∃ gs, b.Groups s code path o gs cs := by
  obtain ⟨rfl, -⟩ := (b.chunk_ends s code path o).of_run_eq hrun
  rw [chunks, chunksWith]
  split
  · exact ⟨_, .singletons (by simp)⟩
  cases hs : b.structure? s (b.expanded s o) code path o with
  | none =>
    refine ⟨_, .singletons fun c hc => ?_⟩
    obtain ⟨i, hmetadata⟩ := metadata_of_mem_fallbackChunks code hc
    have hnone : c.provenance = (none, none) := by
      rw [provenance, hmetadata]
      rfl
    exact hnone ▸ .size c hc
  | some cs =>
    cases cs with
    | nil =>
      refine ⟨_, .singletons fun c hc => ?_⟩
      obtain rfl := List.mem_singleton.mp hc
      exact .whole
    | cons c cs =>
      obtain ⟨gs, hflat, hgs⟩ := mergeFrom_becomes o.minSize none (b.pieces s code path o) [] rfl
      rw [List.nil_append] at hflat
      rw [settled, structure?_eq_some hs]
      refine ⟨gs, fun d hd => stems_of_mem_pieces hdata (hflat ▸ hd), fun hchain g hg => ?_, hgs⟩
      rw [← hflat] at hchain
      exact hchain.infix (List.infix_of_mem_flatten hg)

/-- Every chunk of a run is made of a group of pieces, each of which says truly where it comes from,
and says what the first of these says. If neighbouring small pieces come from the same place, that
is true of the whole group. -/
theorem chunk_provenance (hrun : (b.chunk code path o).run.run s = (.ok cs, s')) :
    ∃ gs : List (List Chunk), (∀ d ∈ gs.flatten, b.Stems s code path o d d.provenance) ∧
      List.Forall₂ (fun g c => Becomes o.minSize g c ∧
        (∀ d ∈ g.head?, c.provenance = d.provenance) ∧
        ((b.pieces s code path o).IsChain (Akin o.minSize) →
          ∀ d ∈ g, c.provenance = d.provenance)) gs cs := by
  obtain ⟨gs, hgs⟩ := exists_groups hdata hrun
  refine ⟨gs, hgs.stems, ?_⟩
  have hmem : List.Forall₂ (fun g c => g ∈ gs ∧ Becomes o.minSize g c) gs cs :=
    (List.forall₂_and_left _ _).mpr ⟨fun g hg => hg, hgs.becomes⟩
  refine hmem.imp fun g c h => ?_
  obtain ⟨hg, hbecomes⟩ := h
  exact ⟨hbecomes, hbecomes.provenance_head, fun h => hbecomes.provenance_eq (hgs.akin h g hg)⟩

end

def leadAndUnit : Outline := [
  ⟨"root", some (0, 4), none, []⟩,
  ⟨"lead", some (0, 2), some 0, []⟩,
  ⟨"unit", some (2, 4), some 0, []⟩]

/-- A document with two fences, each of a lead and a unit in the language that is given for it. -/
def fencePair (first second : String) : Toolbox := ofOutlines [
  ({ name := "doc", grammar := "doc", boundaries := ["fence"]
     embeddings := [{ nodeType := "fence", languageKey := .str "lang" }] }, [
    ⟨"root", some (0, 9), none, []⟩,
    ⟨"fence", some (0, 4), some 0, [("lang", .str first)]⟩,
    ⟨"fence", some (5, 9), some 0, [("lang", .str second)]⟩]),
  ({ name := "x", grammar := "x", boundaries := ["unit"], contexts := ["lead"] }, leadAndUnit),
  ({ name := "y", grammar := "y", boundaries := ["unit"], contexts := ["lead"] }, leadAndUnit)]

def pairCode : Text := "aabb\nccdd".toList

/-- The units, which are too large with the lead before them, are pieces of one language here. -/
theorem chunk_provenance_fencePair : ∃ cs s' gs,
    ((fencePair "y" "y").chunk pairCode "doc" { maxSize := 4 }).run.run {} = (.ok cs, s') ∧
    cs.map (·.content) = ["bb\n\ndd".toList] ∧
    List.Forall₂ (fun g c => Becomes 100 g c ∧ ∀ d ∈ g, c.provenance = d.provenance) gs cs := by
  have hplain : ((fencePair "y" "y").tree? {} pairCode "doc").all fun p => p.2.nodes.toList.all
      fun n => (Assoc.find? "embeddedIn" n.data).isNone &&
        (Assoc.find? "embeddedLanguage" n.data).isNone := by cbv
  have hdata : ∀ l t, (fencePair "y" "y").tree? {} pairCode "doc" = some (l, t) → ∀ n ∈ t.nodes,
      Assoc.find? "embeddedIn" n.data = none ∧ Assoc.find? "embeddedLanguage" n.data = none := by
    intro l t htree n hn
    rw [htree] at hplain
    simpa using List.all_eq_true.mp hplain n (Array.mem_toList_iff.mpr hn)
  have hpieces : ((fencePair "y" "y").pieces {} pairCode "doc" { maxSize := 4 }).map
      (·.provenance) = List.replicate 2 (some (.str "fence"), some (.str "y")) := by cbv
  have hsame : ∀ d ∈ (fencePair "y" "y").pieces {} pairCode "doc" { maxSize := 4 },
      d.provenance = (some (.str "fence"), some (.str "y")) := fun d hd =>
    List.eq_of_mem_replicate (hpieces ▸ List.mem_map_of_mem hd)
  have hakin : ((fencePair "y" "y").pieces {} pairCode "doc" { maxSize := 4 }).IsChain
      (Akin 100) :=
    (List.pairwise_of_forall_mem_list fun c hc d hd _ _ =>
      (hsame c hc).trans (hsame d hd).symm).isChain
  have hcontents : ((fencePair "y" "y").chunks {} pairCode "doc" { maxSize := 4 }).map
      (·.content) = ["bb\n\ndd".toList] := by cbv
  obtain ⟨s', hrun⟩ := chunk_returns (b := fencePair "y" "y") (o := { maxSize := 4 })
    (answers_ofOutlines _) (by decide +kernel) pairCode "doc"
  obtain ⟨gs, -, hgs⟩ := chunk_provenance hdata hrun
  exact ⟨_, s', gs, hrun, hcontents, hgs.imp fun g c h => ⟨h.1, h.2.2 hakin⟩⟩

/-- Units of two languages are joined, and the text of the second is returned as of the first. -/
theorem provenance_fencePair :
    ((fencePair "x" "y").pieces {} pairCode "doc" { maxSize := 4 }).map
      (fun d => (d.content, d.provenance)) = [
        ("bb".toList, (some (.str "fence"), some (.str "x"))),
        ("dd".toList, (some (.str "fence"), some (.str "y")))] ∧
    (((fencePair "x" "y").chunk pairCode "doc" { maxSize := 4 }).run.run {}).1.map
      (fun cs => cs.map fun c => (c.content, c.provenance)) = .ok [
        ("bb\n\ndd".toList, (some (.str "fence"), some (.str "x")))] :=
  ⟨by cbv, by cbv⟩

end Toolbox

end CodeChunks
