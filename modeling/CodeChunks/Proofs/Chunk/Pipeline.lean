import CodeChunks.Chunk.Pipeline
import CodeChunks.Proofs.Chunk.Paging
import CodeChunks.Proofs.Parser.Runs

/-! # Chunking, told from the parsers that a session would decide on

A run decides on parsers as it goes, also for the code embedded in a chunk. What it returns is a
function of the session at its start. -/
namespace CodeChunks

/-- What becomes of the chunks that extraction, expansion and merging give, if they do. -/
def settled (code : Text) (size : Budget) : Option (List Chunk) → List Chunk
  | none => fallbackChunks code size
  | some [] => [wholeChunk code]
  | some (c :: cs) => c :: cs

/-- A host refuses when it holds more than blanks, but its language has no name to go by. -/
def Chunk.refuses (l : Option Language) (host : Chunk) : Bool :=
  match host.hosted? l with
  | .error _ => true
  | .ok none => false
  | .ok (some (.str _)) => false
  | .ok (some _) => !(Fence.payload host.content).allBlank

namespace Toolbox

def options (b : Toolbox) (language : String) : Json.Fields :=
  ((b.languages.find? language).map (·.options)).getD []

/-- The language that a path points to, with the tree that its parser gives. -/
def tree? (b : Toolbox) (s : Session) (code : Text) (path : String) :
    Option (Option Language × Tree) :=
  match b.languages.detect path with
  | none => none
  | some name => match b.source? s code name (b.options name) with
    | some (.tree t) => some (b.languages.find? name, t)
    | _ => none

theorem tree?_eq_some_iff {b : Toolbox} {s : Session} {code : Text} {path : String}
    {l : Option Language} {t : Tree} :
    b.tree? s code path = some (l, t) ↔ ∃ name h, b.languages.detect path = some name ∧
      b.handle? s name = some h ∧ h.parse code (b.options name) = .tree t ∧
      b.languages.find? name = l := by
  rw [tree?]
  constructor
  · intro ht
    cases hname : b.languages.detect path with
    | none => simp [hname] at ht
    | some name =>
      rcases hsource : b.source? s code name (b.options name) with _ | t' | _
      · simp [hname, hsource] at ht
      · obtain ⟨h, hload, hparse⟩ := source?_eq_tree_iff.mp hsource
        simp only [hname, hsource, Option.some.injEq, Prod.mk.injEq] at ht
        obtain ⟨rfl, rfl⟩ := ht
        exact ⟨name, h, rfl, hload, hparse, rfl⟩
      · simp [hname, hsource] at ht
  · rintro ⟨name, h, hname, hload, hparse, rfl⟩
    rw [hname]
    dsimp only
    rw [source?_eq_tree_iff.mpr ⟨h, hload, hparse⟩]

section

variable (b : Toolbox) (s : Session)

/-- The merged chunks of a code, where it has a tree and `expand` does not fail. -/
def structure? (expand : Option Language → List Chunk → Option (List Chunk)) (code : Text)
    (path : String) (o : Options) : Option (List Chunk) :=
  (b.tree? s code path).bind fun (l, t) =>
    (expand l (t.extract l o)).map (mergeSmall o.minSize)

def chunksWith (expand : Option Language → List Chunk → Option (List Chunk)) (code : Text)
    (path : String) (o : Options) : List Chunk :=
  if code.allBlank then [] else settled code o.maxSize (b.structure? s expand code path o)

def flatChunks : Text → String → Options → List Chunk :=
  b.chunksWith s fun _ cs => some cs

def hostChunks (l : Option Language) (o : Options) (host : Chunk) : List Chunk :=
  match host.hosted? l with
  | .ok (some (.str name)) =>
    match b.flatChunks s (Fence.payload host.content) name o.flat with
    | [] => [host]
    | c :: cs => if c.isFallback then [host] else (c :: cs).map (host.moveInto name)
  | _ => [host]

def expanded (o : Options) (l : Option Language) (cs : List Chunk) : Option (List Chunk) :=
  if !o.parseEmbedded then some cs
  else if cs.any (·.refuses l) then none
  else some (cs.flatMap (b.hostChunks s l o))

def chunks (code : Text) (path : String) (o : Options) : List Chunk :=
  b.chunksWith s (b.expanded s o) code path o

/-- A run ends early for a load that never answers or for a budget out of range. -/
def MayStop (size : Budget) (e : Stop) : Prop :=
  b.Hangs s e ∨ e = .tooLarge ∧ ¬ size.hasHalf

end

/-- Chunks of which the first is not marked as cut by size come from the structure of the code. -/
theorem structure?_of_chunksWith_eq {b : Toolbox} {s : Session}
    {expand : Option Language → List Chunk → Option (List Chunk)} {code : Text} {path : String}
    {o : Options} {c : Chunk} {cs : List Chunk}
    (h : b.chunksWith s expand code path o = c :: cs) (hc : ¬ c.isFallback) :
    b.structure? s expand code path o = some (c :: cs) := by
  rw [chunksWith] at h
  split at h
  · cases h
  · cases hs : b.structure? s expand code path o with
    | none =>
      rw [hs, settled] at h
      exact absurd (isFallback_of_mem_fallbackChunks code (h ▸ List.mem_cons_self)) hc
    | some ds =>
      rw [hs] at h
      cases ds with
      | nil =>
        cases h
        exact absurd rfl hc
      | cons d ds => rw [← h, settled]

/-- A host stays, or gives way to the merged chunks of the tree of its payload. -/
theorem hostChunks_cases (b : Toolbox) (s : Session) (l : Option Language) (o : Options)
    (host : Chunk) : b.hostChunks s l o host = [host] ∨
      ∃ name l' t, host.hosted? l = .ok (some (.str name)) ∧
        b.tree? s (Fence.payload host.content) name = some (l', t) ∧
        b.flatChunks s (Fence.payload host.content) name o.flat =
          mergeSmall o.minSize (t.extract l' o.flat) ∧
        b.hostChunks s l o host =
          (mergeSmall o.minSize (t.extract l' o.flat)).map (host.moveInto name) := by
  rw [hostChunks]
  cases hhosted : host.hosted? l with
  | error e => exact .inl rfl
  | ok v =>
  rcases v with _ | _ | _ | _ | _ | name | _ | _
  case some.str =>
    cases hflat : b.flatChunks s (Fence.payload host.content) name o.flat with
    | nil => simp [hflat]
    | cons c cs =>
      by_cases hc : c.isFallback
      · simp [hflat, hc]
      · -- the first chunk is no fallback, so the nested run gave what it merged from a tree
        have hstructure := structure?_of_chunksWith_eq hflat hc
        obtain ⟨⟨l', t⟩, htree, hcs⟩ := Option.bind_eq_some_iff.mp hstructure
        have hmerged : mergeSmall o.minSize (t.extract l' o.flat) = c :: cs := Option.some.inj hcs
        refine .inr ⟨name, l', t, rfl, htree, hflat.trans hmerged.symm, ?_⟩
        simp only [hflat, hmerged, if_neg hc]
  all_goals exact .inl rfl

theorem not_mayStop {b : Toolbox} {s : Session} {size : Budget} (hanswers : b.Answers s)
    (hsize : size.hasHalf) (e : Stop) : ¬ b.MayStop s size e := by
  rintro (⟨-, hhangs⟩ | ⟨-, hlarge⟩)
  · exact hhangs hanswers
  · exact hlarge hsize

theorem fallback_ends (b : Toolbox) (s : Session) (code : Text) (size : Budget) (s' : Session) :
    (fallback code size).Ends s' (b.MayStop s size) fun cs s'' =>
      cs = fallbackChunks code size ∧ s'' = s' := by
  rw [fallback, fallbackChunks?, Budget.guard]
  by_cases hsize : code.isEmpty || (0 ≤ (size : Int) && Budget.hasHalf (size : Int).toNat)
  · rw [if_pos hsize]
    simp
  · rw [if_neg hsize]
    simp only [Bool.or_eq_true, Bool.and_eq_true, not_or, not_and] at hsize
    simp only [Run.ends_throw, MayStop]
    exact .inr ⟨trivial, fun hhalf => hsize.2 (by simp) (by simpa using hhalf)⟩

/-- Chunking returns what `chunksWith` says when `expand` gives what `spec` says. -/
theorem chunkWith_ends {b : Toolbox} {s : Session} {o : Options}
    {expand : Option Language → List Chunk → Expansion}
    {spec : Option Language → List Chunk → Option (List Chunk)}
    (hexpand : ∀ l cs s', b.Follows s s' →
      (expand l cs).run.Ends s' (b.MayStop s o.maxSize) fun r s'' =>
        r.toOption = spec l cs ∧ b.Follows s s'') (code : Text) (path : String) :
    (b.chunkWith expand code path o).Ends s (b.MayStop s o.maxSize) fun cs s' =>
      cs = b.chunksWith s spec code path o ∧ b.Follows s s' := by
  unfold chunkWith chunksWith structure? tree? options
  split
  · simp [Follows.refl]
  dsimp only
  -- every way out but the last one ends in cutting by size, from whatever session it is reached in
  have hfallback : ∀ s', b.Follows s s' → (fallback code o.maxSize).Ends s' (b.MayStop s o.maxSize)
      fun cs s'' => cs = fallbackChunks code o.maxSize ∧ b.Follows s s'' := by
    intro s' hs
    apply (b.fallback_ends s code o.maxSize s').mono
    rintro cs s'' ⟨rfl, rfl⟩
    exact ⟨rfl, hs⟩
  cases b.languages.detect path with
  | none => exact hfallback s (.refl b s)
  | some name =>
    dsimp only
    generalize b.languages.find? name = l
    rw [Run.ends_bind]
    apply (b.parse_ends s code name _).imp (fun e he => .inl he)
    rintro r s' ⟨hr, hs⟩
    rw [← hr]
    match r with
    | none => exact hfallback s' hs
    | some .malformed => exact hfallback s' hs
    | some (.tree t) =>
      dsimp only
      rw [Run.ends_bind]
      apply (hexpand l (t.extract l o) s' hs).mono
      rintro r s'' ⟨hr, hs'⟩
      simp only [Option.bind_some, ← hr]
      cases r with
      | error e => exact hfallback s'' hs'
      | ok cs =>
        rw [Run.ends_pure]
        refine ⟨?_, hs'⟩
        simp only [Except.toOption, Option.map_some]
        cases mergeSmall o.minSize cs <;> rfl

theorem chunkFlat_ends (b : Toolbox) (s : Session) (code : Text) (path : String) (o : Options) :
    (b.chunkFlat code path o).Ends s (b.MayStop s o.maxSize) fun cs s' =>
      cs = b.flatChunks s code path o ∧ b.Follows s s' :=
  chunkWith_ends (fun l cs s' hs => by
    simpa [ExceptT.run_pure, Except.toOption] using hs) code path

section

variable {b : Toolbox} {s s' : Session} (h : b.Follows s s')

include h

theorem Follows.tree?_eq : b.tree? s' = b.tree? s := by
  funext code path
  simp only [tree?, h.source?_eq]

theorem Follows.flatChunks_eq : b.flatChunks s' = b.flatChunks s := by
  funext code path o
  simp only [flatChunks, chunksWith, structure?, h.tree?_eq]

theorem Follows.hostChunks_eq : b.hostChunks s' = b.hostChunks s := by
  funext l o host
  simp only [hostChunks, h.flatChunks_eq]

theorem Follows.mayStop_eq : b.MayStop s' = b.MayStop s := by
  funext size e
  simp only [MayStop, h.hangs_eq]

end

theorem ends_run_bind {α β : Type} {s : Session} {stop : Stop → Prop}
    {ok : Except EmbeddingFault α → Session → Prop} (m : ExceptT EmbeddingFault Run β)
    (f : β → ExceptT EmbeddingFault Run α) :
    (m >>= f).run.Ends s stop ok ↔ m.run.Ends s stop fun r s' => match r with
      | .ok a => (f a).run.Ends s' stop ok
      | .error e => ok (.error e) s' := by
  rw [ExceptT.run_bind, Run.ends_bind]
  apply iff_of_eq
  congr
  funext r s'
  cases r <;> simp

@[simp] theorem ends_run_lift {α : Type} {s : Session} {stop : Stop → Prop}
    {ok : Except EmbeddingFault α → Session → Prop} (m : Run α) :
    (m : ExceptT EmbeddingFault Run α).run.Ends s stop ok ↔
      m.Ends s stop fun a s' => ok (.ok a) s' := by
  simp

@[simp] theorem ends_run_ofExcept {α : Type} {s : Session} {stop : Stop → Prop}
    {ok : Except EmbeddingFault α → Session → Prop} (r : Except EmbeddingFault α) :
    (MonadExcept.ofExcept r : ExceptT EmbeddingFault Run α).run.Ends s stop ok ↔ ok r s := by
  cases r <;> simp [MonadExcept.ofExcept]

theorem expandHost_ends (b : Toolbox) (s : Session) (l : Option Language) (o : Options)
    (host : Chunk) :
    (b.expandHost l o host).run.Ends s (b.MayStop s o.maxSize) fun r s' =>
      r.toOption = (if host.refuses l then none else some (b.hostChunks s l o host)) ∧
        b.Follows s s' := by
  unfold expandHost hostChunks Chunk.refuses
  dsimp only
  rw [ends_run_bind, ends_run_ofExcept]
  rcases host.hosted? l with e | _ | v
  · simp [Except.toOption, Follows.refl]
  · simp [Except.toOption, Follows.refl]
  cases v with
  | str name =>
    dsimp only
    rw [ends_run_bind, ends_run_lift]
    apply (b.chunkFlat_ends s (Fence.payload host.content) name o.flat).mono
    rintro cs s' ⟨hcs, hs⟩
    rw [← hcs]
    cases cs with
    | nil => simpa [Except.toOption] using hs
    | cons c cs => simpa [Except.toOption] using hs
  | _ =>
    dsimp only
    split <;> simp_all [Except.toOption, Follows.refl]

/-- One host that refuses is enough for none to be expanded. -/
theorem expandHosts_ends (b : Toolbox) (s : Session) (l : Option Language) (o : Options)
    (cs : List Chunk) :
    (b.expandHosts l o cs).run.Ends s (b.MayStop s o.maxSize) fun r s' =>
      r.toOption = (if cs.any (·.refuses l) then none else some (cs.flatMap (b.hostChunks s l o))) ∧
        b.Follows s s' := by
  induction cs generalizing s with
  | nil => simp [expandHosts, Except.toOption, Follows.refl]
  | cons c cs ih =>
    rw [expandHosts, ends_run_bind]
    apply (b.expandHost_ends s l o c).mono
    rintro r s' ⟨hr, hs⟩
    rw [List.any_cons, List.flatMap_cons]
    cases hc : c.refuses l <;> rw [hc] at hr
    · cases r with
      | error e => cases hr
      | ok ds =>
        obtain rfl : ds = b.hostChunks s l o c := by simpa [Except.toOption] using hr
        dsimp only
        rw [ends_run_bind, ← hs.mayStop_eq]
        apply (ih s').mono
        rintro r s'' ⟨hr, hs'⟩
        rw [hs.hostChunks_eq] at hr
        have hfollows := hs.trans hs'
        cases hcs : cs.any (·.refuses l) <;> rw [hcs] at hr <;> cases r <;>
          simp_all [Except.toOption]
    · cases r with
      | error e => simpa [Except.toOption] using hs
      | ok ds => cases hr

/-- What a run returns is told from the session at its start, if a load does not hang and the budget
is in range. -/
theorem chunk_ends (b : Toolbox) (s : Session) (code : Text) (path : String) (o : Options) :
    (b.chunk code path o).Ends s (b.MayStop s o.maxSize) fun cs s' =>
      cs = b.chunks s code path o ∧ b.Follows s s' := by
  apply chunkWith_ends
  intro l cs s' hs
  rw [expanded]
  cases o.parseEmbedded with
  | false => simpa [Except.toOption] using hs
  | true =>
    simp only [Bool.not_true, Bool.false_eq_true, if_false, if_true]
    rw [← hs.mayStop_eq, ← hs.hostChunks_eq]
    apply (b.expandHosts_ends s' l o cs).mono
    rintro r s'' ⟨hr, hs'⟩
    exact ⟨hr, hs.trans hs'⟩

theorem chunk_returns {b : Toolbox} {s : Session} {o : Options} (hanswers : b.Answers s)
    (hsize : o.maxSize.hasHalf) (code : Text) (path : String) :
    ∃ s', (b.chunk code path o).run.run s = (.ok (b.chunks s code path o), s') := by
  obtain ⟨cs, s', hrun, rfl, -⟩ :=
    (b.chunk_ends s code path o).returns (not_mayStop hanswers hsize)
  exact ⟨s', hrun⟩

end Toolbox

end CodeChunks
