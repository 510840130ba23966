import CodeChunks.Proofs.Chunk.Origins
import CodeChunks.Proofs.Chunk.Pipeline
import CodeChunks.Proofs.Chunk.Regrouping

/-! # Chunking always answers

Whatever fails on the way to the structure of a code, the code is cut by size, so that no code with
more than blanks is lost. -/
namespace CodeChunks.Toolbox

/-- The stages at which the way to the structure of a code can end: its language is unknown, no
parser loads, the parse gives no tree, or a chunk refuses to have what it hosts chunked. -/
inductive Fails (b : Toolbox) (s : Session) (code : Text) (path : String) (o : Options) : Prop
  | language (hname : b.languages.detect path = none)
  | parser (name : String) (hname : b.languages.detect path = some name)
      (hload : b.handle? s name = none)
  | parse (name : String) (h : Handle) (hname : b.languages.detect path = some name)
      (hload : b.handle? s name = some h) (hparse : ∀ t, h.parse code (b.options name) ≠ .tree t)
  | embedding (name : String) (h : Handle) (t : Tree) (host : Chunk)
      (hname : b.languages.detect path = some name) (hload : b.handle? s name = some h)
      (hparse : h.parse code (b.options name) = .tree t) (hembed : o.parseEmbedded)
      (hhost : host ∈ t.extract (b.languages.find? name) o)
      (refuses : host.refuses (b.languages.find? name))

/-- A code has a tree, but none of its nodes becomes a chunk. -/
inductive Bare (b : Toolbox) (s : Session) (code : Text) (path : String) (o : Options) : Prop
  | intro (name : String) (h : Handle) (t : Tree) (hname : b.languages.detect path = some name)
      (hload : b.handle? s name = some h) (hparse : h.parse code (b.options name) = .tree t)
      (bare : t.extract (b.languages.find? name) o = [])

variable {b : Toolbox} {s : Session} {code : Text} {path : String} {o : Options}

theorem tree?_eq_some {name : String} {h : Handle} {t : Tree}
    (hname : b.languages.detect path = some name) (hload : b.handle? s name = some h)
    (hparse : h.parse code (b.options name) = .tree t) :
    b.tree? s code path = some (b.languages.find? name, t) :=
  tree?_eq_some_iff.mpr ⟨name, h, hname, hload, hparse, rfl⟩

theorem Fails.structure?_eq_none (h : b.Fails s code path o) :
    b.structure? s (b.expanded s o) code path o = none := by
  cases h with
  | language hname => simp [structure?, tree?, hname]
  | parser name hname hload => simp [structure?, tree?, source?, hname, hload]
  | parse name h hname hload hparse =>
    have htree : b.tree? s code path = none := by
      simp only [tree?, hname, source?, hload]
      cases hp : h.parse code (b.options name) with
      | tree t => exact absurd hp (hparse t)
      | _ => rfl
    simp [structure?, htree]
  | embedding name h t host hname hload hparse hembed hhost refuses =>
    simp only [structure?, tree?_eq_some hname hload hparse, Option.bind_some, expanded, hembed,
      Bool.not_true, Bool.false_eq_true, if_false,
      if_pos (List.any_eq_true.mpr ⟨host, hhost, refuses⟩), Option.map_none]

theorem Bare.structure?_eq_nil (h : b.Bare s code path o) :
    b.structure? s (b.expanded s o) code path o = some [] := by
  obtain ⟨name, h, t, hname, hload, hparse, bare⟩ := h
  simp [structure?, tree?_eq_some hname hload hparse, expanded, bare]

theorem settled_ne_nil (hcode : code ≠ []) (size : Budget) (r : Option (List Chunk)) :
    settled code size r ≠ [] := by
  match r with
  | none =>
    intro h
    have hwhole := flatMap_fallbackChunks code size
    rw [show fallbackChunks code size = [] from h] at hwhole
    exact hcode hwhole.symm
  | some [] => simp [settled]
  | some (c :: cs) => simp [settled]

theorem chunks_eq_nil_iff : b.chunks s code path o = [] ↔ code.allBlank := by
  rw [chunks, chunksWith]
  by_cases h : code.allBlank
  · simp [h]
  · have hcode : code ≠ [] := by
      rintro rfl
      exact h rfl
    simp [settled_ne_nil hcode, h]

/-- As long as the loads come to an end, a run returns chunks: none for a blank code, the pieces of
the code where the way to its structure ends early, and the code as one chunk where nothing of its
structure becomes a chunk. -/
theorem chunk_answers (code : Text) (path : String) (o : Options) (hanswers : b.Answers s)
    (hsize : o.maxSize < 2 ^ 1023) :
    ∃ cs s', (b.chunk code path o).run.run s = (.ok cs, s') ∧
      (cs = [] ↔ code.allBlank) ∧
      (¬ code.allBlank → b.Fails s code path o →
        cs = fallbackChunks code o.maxSize ∧ cs.flatMap (·.content) = code) ∧
      (¬ code.allBlank → b.Bare s code path o → cs = [wholeChunk code]) := by
  have hstop := not_mayStop hanswers (Budget.hasHalf_of_lt hsize)
  obtain ⟨cs, s', hrun, rfl, -⟩ := (b.chunk_ends s code path o).returns hstop
  refine ⟨_, s', hrun, chunks_eq_nil_iff, fun hcode hfails => ?_, fun hcode hbare => ?_⟩
  · have hcs : b.chunks s code path o = fallbackChunks code o.maxSize := by
      rw [chunks, chunksWith, if_neg hcode, hfails.structure?_eq_none, settled]
    exact ⟨hcs, hcs ▸ flatMap_fallbackChunks code o.maxSize⟩
  · rw [chunks, chunksWith, if_neg hcode, hbare.structure?_eq_nil, settled]

/-- Every code has the tree of a class, and classes host code in a language named by a number. -/
def numbered : Toolbox where
  languages := { table := [("classes", { Tree.classes with
    embeddings := [{ nodeType := "class", default := .int 5 }] })] }
  discover _ := .handle ⟨.labelled "classes", "classes", fun _ _ => .tree Tree.twoMembersTree⟩

/-- Embedding fails where the name of a language is a number, and the code is cut by size. -/
theorem chunk_answers_numbered : numbered.Answers {} ∧ ∃ cs s',
    (numbered.chunk Tree.twoMembersTree.source "classes" { maxSize := 16 }).run.run {} =
      (.ok cs, s') ∧
    cs = fallbackChunks Tree.twoMembersTree.source 16 := by
  have hanswers : numbered.Answers {} := ⟨by simp, by simp [numbered]⟩
  have hname : numbered.languages.detect "classes" = some "classes" := by cbv
  have hload : numbered.handle? {} "classes" =
      some ⟨.labelled "classes", "classes", fun _ _ => .tree Tree.twoMembersTree⟩ := by cbv
  have hrefuses : (Tree.twoMembersTree.extract (numbered.languages.find? "classes")
      { maxSize := 16 }).any (·.refuses (numbered.languages.find? "classes")) := by cbv
  obtain ⟨host, hhost, hrefuses⟩ := List.any_eq_true.mp hrefuses
  obtain ⟨cs, s', hrun, -, hfails, -⟩ := chunk_answers Tree.twoMembersTree.source "classes"
    { maxSize := 16 } hanswers (by decide +kernel)
  exact ⟨hanswers, cs, s', hrun, (hfails (by decide)
    (.embedding "classes" _ _ host hname hload rfl rfl hhost hrefuses)).1⟩

end CodeChunks.Toolbox
