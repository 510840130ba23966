import CodeChunks.Proofs.Chunk.Sizes

/-! # Which hosts are kept

The chunks of a run are all marked as cut by size or none of them is, unless the data of nodes
carry that mark. So the first chunk that comes of a payload tells whether its host is kept. -/
namespace CodeChunks.Toolbox

/-- A host holds code in a language of this name, and chunking its payload returns the chunks. -/
structure Nested (b : Toolbox) (s : Session) (l : Option Language) (o : Options) (host : Chunk)
    (name : String) (ns : List Chunk) : Prop where
  hosted : host.hosted? l = .ok (some (.str name))
  returns : ∃ s₁ s₂, b.Follows s s₁ ∧
    (b.chunk (Fence.payload host.content) name o.flat).run.run s₁ = (.ok ns, s₂)

/-- A host is kept when its payload is not chunked, or gives nothing but pieces cut by size; else
what its payload gives takes its place. -/
inductive Yields (b : Toolbox) (s : Session) (l : Option Language) (o : Options) (host : Chunk) :
    List Chunk → Prop
  | alone (hosted : ∀ name, host.hosted? l ≠ .ok (some (.str name))) : Yields b s l o host [host]
  | kept (name : String) (ns : List Chunk) (nested : b.Nested s l o host name ns)
      (fallback : ∀ n ∈ ns, n.isFallback) : Yields b s l o host [host]
  | replaced (name : String) (ns : List Chunk) (nested : b.Nested s l o host name ns)
      (nonempty : ns ≠ []) (structural : ∀ n ∈ ns, ¬ n.isFallback) :
      Yields b s l o host (ns.map (host.moveInto name))

/-- Chunking the payload of a host returns chunks of which the first is not cut by size. -/
structure Replaces (b : Toolbox) (s : Session) (l : Option Language) (o : Options) (host : Chunk)
    (name : String) (ns : List Chunk) : Prop extends Nested b s l o host name ns where
  structural : ∃ n ∈ ns.head?, ¬ n.isFallback

/-- A host is kept when its payload is not chunked, or gives nothing or first of all a piece cut by
size; else what its payload gives takes its place. -/
inductive Takes (b : Toolbox) (s : Session) (l : Option Language) (o : Options) (host : Chunk) :
    List Chunk → Prop
  | alone (hosted : ∀ name, host.hosted? l ≠ .ok (some (.str name))) : Takes b s l o host [host]
  | kept (name : String) (ns : List Chunk) (nested : b.Nested s l o host name ns)
      (fallback : ∀ n ∈ ns.head?, n.isFallback) : Takes b s l o host [host]
  | replaced (name : String) (ns : List Chunk) (replaces : b.Replaces s l o host name ns) :
      Takes b s l o host (ns.map (host.moveInto name))

/-- No data of a node that a parser of the session gives carry the key. -/
def Lacks (b : Toolbox) (s : Session) (key : String) : Prop :=
  ∀ t, b.Gives s t → ∀ n ∈ t.nodes, Assoc.find? key n.data = none

variable {b : Toolbox} {s s' : Session} {l : Option Language} {o : Options}

theorem Follows.lacks (h : b.Follows s s') {key : String} (hdata : b.Lacks s key) :
    b.Lacks s' key := by
  rintro t ⟨language, hd, code, options, hload, hparse⟩
  rw [h.handle?_eq] at hload
  exact hdata t ⟨language, hd, code, options, hload, hparse⟩

/-- What a payload gives, and in which language, is settled by the session. -/
theorem Nested.unique {host : Chunk} {name name' : String} {ns ns' : List Chunk}
    (h : b.Nested s l o host name ns) (h' : b.Nested s l o host name' ns') :
    name = name' ∧ ns = ns' := by
  have hname : name = name' := by
    have hhosted := h.hosted.symm.trans h'.hosted
    cases hhosted
    rfl
  subst hname
  obtain ⟨s₁, s₂, hfollows, hrun⟩ := h.returns
  obtain ⟨s₁', s₂', hfollows', hrun'⟩ := h'.returns
  have hns := ((b.chunkFlat_ends s₁ _ name o.flat).of_run_eq hrun).1
  have hns' := ((b.chunkFlat_ends s₁' _ name o.flat).of_run_eq hrun').1
  rw [hfollows.flatChunks_eq] at hns
  rw [hfollows'.flatChunks_eq] at hns'
  exact ⟨rfl, hns.trans hns'.symm⟩

theorem Structural.not_isFallback (hdata : b.Lacks s "fallback") {c : Chunk}
    (h : b.Structural s o c) : ¬ c.isFallback := by
  rw [Chunk.isFallback, Chunk.flag]
  cases hfind : Assoc.find? "fallback" c.metadata with
  | none => simp [Json.truthy]
  | some v =>
    obtain ⟨t, ht, n, hn, hmark⟩ := h.exists_node_of_find? (by decide) hfind
    rw [hdata t ht n hn] at hmark
    cases hmark

/-- Either all chunks are marked as cut by size and none as embedded, or none is marked as cut by
size. -/
theorem fallback_or_structural (hdata : b.Lacks s "fallback") {code : Text} {path : String}
    {cs : List Chunk} (hrun : (b.chunk code path o).run.run s = (.ok cs, s')) :
    (∀ c ∈ cs, c.isFallback ∧ Assoc.find? "embeddedIn" c.metadata = none) ∨
      ∀ c ∈ cs, ¬ c.isFallback := by
  obtain ⟨rfl, -⟩ := (b.chunk_ends s code path o).of_run_eq hrun
  rw [chunks, chunksWith]
  split
  · simp
  cases hs : b.structure? s (b.expanded s o) code path o with
  | none =>
    refine .inl fun c hc => ⟨isFallback_of_mem_fallbackChunks code hc, ?_⟩
    obtain ⟨i, hmetadata⟩ := metadata_of_mem_fallbackChunks code hc
    rw [hmetadata]
    rfl
  | some cs =>
    cases cs with
    | nil =>
      refine .inl fun c hc => ?_
      obtain rfl := List.mem_singleton.mp hc
      exact ⟨rfl, rfl⟩
    | cons c cs =>
      exact .inr fun d hd => Structural.not_isFallback hdata
        (structural_of_structure? (fun _ _ _ => structural_of_expanded) hs d hd)

/-- What becomes of a host is told by the first chunk that its payload gives. -/
theorem expandHost_takes (hs : b.Follows s s') (host : Chunk) :
    (b.expandHost l o host).run.Ends s' (fun _ => True) fun r _ =>
      ∀ ds, r = .ok ds → b.Takes s l o host ds := by
  unfold expandHost
  dsimp only
  rw [ends_run_bind, ends_run_ofExcept]
  rcases hhosted : host.hosted? l with e | _ | v
  · simp
  · simpa using Takes.alone (b := b) (s := s) (o := o) (by simp [hhosted])
  cases v with
  | str name =>
    dsimp only
    rw [ends_run_bind, ends_run_lift]
    apply (Run.ends_self _ s').mono
    intro ns s'' hrun
    have hnested : b.Nested s l o host name ns := ⟨hhosted, s', s'', hs, hrun⟩
    cases ns with
    | nil => simpa using Takes.kept name [] hnested (by simp)
    | cons n ns =>
      by_cases hn : n.isFallback
      · simpa [hn] using Takes.kept name _ hnested (by simpa using hn)
      · simpa [hn] using Takes.replaced name _ ⟨hnested, n, rfl, hn⟩
  | _ =>
    dsimp only
    split
    · simpa using Takes.alone (b := b) (s := s) (o := o) (by simp [hhosted])
    · simp

theorem expandHosts_takes (hs : b.Follows s s') (hosts : List Chunk) :
    (b.expandHosts l o hosts).run.Ends s' (fun _ => True) fun r _ =>
      ∀ es, r = .ok es → ∃ rs, rs.flatten = es ∧ List.Forall₂ (b.Takes s l o) hosts rs := by
  induction hosts generalizing s' with
  | nil => simp [expandHosts]
  | cons host hosts ih =>
    rw [expandHosts, ends_run_bind]
    refine ((b.expandHost_ends s' l o host).and (expandHost_takes hs host)).imp
      (fun _ _ => trivial) ?_
    rintro r s'' ⟨⟨-, hs'⟩, hhost⟩
    cases r with
    | error e => simp
    | ok ds =>
      dsimp only
      rw [ends_run_bind]
      apply (ih (hs.trans hs')).mono
      intro r s''' hrest
      cases r with
      | error e => simp
      | ok es =>
        obtain ⟨rs, hflat, hrs⟩ := hrest es rfl
        simpa using ⟨ds :: rs, by rw [List.flatten_cons, hflat], .cons (hhost ds rfl) hrs⟩

/-- Where no data of nodes carry the mark, the first chunk speaks for all of them. -/
theorem Takes.yields (hdata : b.Lacks s "fallback") {host : Chunk} {ds : List Chunk}
    (h : b.Takes s l o host ds) : b.Yields s l o host ds := by
  have huniform : ∀ {name ns}, b.Nested s l o host name ns →
      (∀ n ∈ ns, n.isFallback) ∨ ∀ n ∈ ns, ¬ n.isFallback := by
    intro name ns hnested
    obtain ⟨s₁, s₂, hfollows, hrun⟩ := hnested.returns
    exact (fallback_or_structural (hfollows.lacks hdata) hrun).imp_left
      fun hall n hn => (hall n hn).1
  cases h with
  | alone hosted => exact .alone hosted
  | kept name ns nested fallback =>
    refine .kept name ns nested ?_
    cases ns with
    | nil => simp
    | cons n ns =>
      have hfirst : n ∈ n :: ns := List.mem_cons_self
      exact (huniform nested).resolve_right fun hnone => hnone n hfirst (fallback n rfl)
  | replaced name ns replaces =>
    obtain ⟨nested, n, hn, hstructural⟩ := replaces
    have hmem : n ∈ ns := List.mem_of_mem_head? hn
    exact .replaced name ns nested (List.ne_nil_of_mem hmem)
      ((huniform nested).resolve_left fun hall => hstructural (hall n hmem))

/-- Where no data of nodes carry the mark of pieces cut by size, the chunks of a run are all marked
so or none of them is, and no embedded chunk is. Expansion keeps a host exactly when its payload is
not chunked or gives nothing else. -/
theorem chunk_uniform (hdata : b.Lacks s "fallback") :
    (∀ code path o cs s', (b.chunk code path o).run.run s = (.ok cs, s') →
      ((∀ c ∈ cs, c.isFallback) ∨ ∀ c ∈ cs, ¬ c.isFallback) ∧
      ∀ c ∈ cs, Assoc.has "embeddedIn" c.metadata → ¬ c.isFallback) ∧
    ∀ l o hosts es s', (b.expandHosts l o hosts).run.run.run s = (.ok (.ok es), s') →
      ∃ rs, rs.flatten = es ∧ List.Forall₂ (b.Yields s l o) hosts rs := by
  refine ⟨fun code path o cs s' hrun => ?_, fun l o hosts es s' hrun => ?_⟩
  · rcases fallback_or_structural hdata hrun with hall | hnone
    · refine ⟨.inl fun c hc => (hall c hc).1, fun c hc hembedded => ?_⟩
      rw [Assoc.has, (hall c hc).2] at hembedded
      cases hembedded
    · exact ⟨.inr hnone, fun c hc _ => hnone c hc⟩
  · obtain ⟨rs, hflat, hrs⟩ := (expandHosts_takes (.refl b s) hosts).of_run_eq hrun es rfl
    exact ⟨rs, hflat, hrs.imp fun _ _ h => h.yields hdata⟩

/-- Every code has the tree of a class with two members, and a class hosts code of that kind. -/
def selfHosting : Toolbox where
  languages := { table := [("classes", { Tree.classes with
    embeddings := [{ nodeType := "class", default := .str "classes" }] })] }
  discover _ := .handle ⟨.labelled "classes", "classes", fun _ _ => .tree Tree.twoMembersTree⟩

theorem lacks_selfHosting (key : String) : selfHosting.Lacks {} key := by
  rintro t ⟨language, h, code, options, hload, hparse⟩
  rw [handle?] at hload
  split at hload
  · cases hload
  · cases hload
    cases hparse
    simp [Tree.twoMembersTree, Assoc.find?]

/-- The class gives way to the one in it, which is marked as embedded and so not as a fallback. -/
theorem chunk_uniform_selfHosting : selfHosting.Lacks {} "fallback" ∧ ∃ cs s',
    (selfHosting.chunk Tree.twoMembersTree.source "classes" {}).run.run {} = (.ok cs, s') ∧
      cs.map (·.metadata) = [[("embeddedIn", .str "class"), ("embeddedLanguage", .str "classes")]] ∧
      ∀ c ∈ cs, ¬ c.isFallback := by
  have hanswers : selfHosting.Answers {} := ⟨by simp, by simp [selfHosting]⟩
  have hchunks : (selfHosting.chunks {} Tree.twoMembersTree.source "classes" {}).map
      (·.metadata) = [[("embeddedIn", .str "class"), ("embeddedLanguage", .str "classes")]] := by
    cbv
  obtain ⟨s', hrun⟩ := chunk_returns (o := {}) hanswers (by decide +kernel)
    Tree.twoMembersTree.source "classes"
  refine ⟨lacks_selfHosting _, _, s', hrun, hchunks, fun c hc => ?_⟩
  refine ((chunk_uniform (lacks_selfHosting _)).1 _ _ _ _ s' hrun).2 c hc ?_
  have hmetadata := hchunks ▸ List.mem_map_of_mem hc
  rw [List.mem_singleton.mp hmetadata]
  rfl

end CodeChunks.Toolbox
