import CodeChunks.Chunk.Pipeline
import CodeChunks.Proofs.Parser.Slots

/-! # Runs keep out of each other's way

What a run returns depends on the parsers that its session decides on, and the run leaves them as
they are, also when a load never ends. So a run returns the same after another one as without it. -/
namespace CodeChunks

open Steps

namespace Toolbox

/-- Sessions that decide alike on every parser, whether they have done so or not. -/
def alike (b : Toolbox) : Setoid Session where
  r s t := ∀ key, (s.slot key).outcome b key = (t.slot key).outcome b key
  iseqv := ⟨fun _ _ => rfl, fun h key => (h key).symm, fun h h' key => (h key).trans (h' key)⟩

theorem alike_logParse (b : Toolbox) (name : String) (code : Text) (s : Session) :
    b.alike.r s (s.logParse name code) :=
  fun _ => rfl

theorem alike_resolved (b : Toolbox) (key : String) (s : Session) :
    b.alike.r s (s.resolved b key) := by
  intro other
  by_cases hkey : key = other
  · subst hkey
    rw [Session.slot_resolved_self, Slot.outcome_resolved]
  · rw [Session.slot_resolved_of_ne b hkey]

end Toolbox

namespace Run

variable {α β : Type} {b : Toolbox}

theorem isolated_run_bind {m : ExceptT EmbeddingFault Run β} {f : β → ExceptT EmbeddingFault Run α}
    (hm : Isolated b.alike m.run) (hf : ∀ a, Isolated b.alike (f a).run) :
    Isolated b.alike (m >>= f).run := by
  rw [ExceptT.run_bind]
  refine hm.bind fun r => ?_
  cases r with
  | error e => exact isolated_pure b.alike _
  | ok a => exact hf a

theorem isolated_run_lift {m : Run α} (hm : Isolated b.alike m) :
    Isolated b.alike (m : ExceptT EmbeddingFault Run α).run := by
  have hrun : (m : ExceptT EmbeddingFault Run α).run = m >>= fun a => pure (.ok a) :=
    map_eq_pure_bind _ m
  rw [hrun]
  exact hm.bind fun a => isolated_pure b.alike _

end Run

namespace Toolbox

open Run

variable (b : Toolbox)

theorem isolated_resolve (name : String) : Isolated b.alike (b.resolve name) := by
  constructor
  · intro s
    rw [resolve_run]
    split
    · exact b.alike.refl s
    · exact alike_resolved b _ s
  · intro s t hst
    rw [resolve_run, resolve_run]
    split
    · rfl
    · exact hst (nameKey name)

theorem isolated_parse (code : Text) (language : String) (options : Json.Fields) :
    Isolated b.alike (b.parse code language options) := by
  refine (b.isolated_resolve language).bind fun h => ?_
  cases h with
  | none => exact isolated_pure b.alike _
  | some h =>
    refine (isolated_modify b.alike (b.alike_logParse h.log code)).bind fun _ => ?_
    cases h.parse code options <;> exact isolated_pure b.alike _

theorem isolated_fallback (code : Text) (size : Budget) :
    Isolated b.alike (fallback code size) := by
  rw [fallback]
  split
  · exact isolated_pure b.alike _
  · exact isolated_throw b.alike _

theorem isolated_chunkWith {expand : Option Language → List Chunk → Expansion}
    (hexpand : ∀ l cs, Isolated b.alike (expand l cs).run) (code : Text) (path : String)
    (o : Options) :
    Isolated b.alike (b.chunkWith expand code path o) := by
  rw [chunkWith]
  split
  · exact isolated_pure b.alike _
  cases b.languages.detect path with
  | none => exact b.isolated_fallback code o.maxSize
  | some name =>
    refine (b.isolated_parse code name _).bind fun r => ?_
    match r with
    | none => exact b.isolated_fallback code o.maxSize
    | some .malformed => exact b.isolated_fallback code o.maxSize
    | some (.tree t) =>
      refine (hexpand _ _).bind fun r => ?_
      cases r with
      | error e => exact b.isolated_fallback code o.maxSize
      | ok cs => exact isolated_pure b.alike _

theorem isolated_chunkFlat (code : Text) (path : String) (o : Options) :
    Isolated b.alike (b.chunkFlat code path o) := by
  rw [chunkFlat]
  exact b.isolated_chunkWith (fun _ cs => isolated_pure b.alike _) code path o

theorem isolated_expandHost (l : Option Language) (o : Options) (host : Chunk) :
    Isolated b.alike (b.expandHost l o host).run := by
  have hhosted : Isolated b.alike (MonadExcept.ofExcept (host.hosted? l) :
      ExceptT EmbeddingFault Run (Option Json)).run := by
    cases host.hosted? l <;> exact isolated_pure b.alike _
  refine isolated_run_bind hhosted fun v => ?_
  match v with
  | none => exact isolated_pure b.alike _
  | some v =>
    cases v with
    | str name =>
      refine isolated_run_bind (isolated_run_lift
        (b.isolated_chunkFlat (Fence.payload host.content) name o.flat)) fun cs => ?_
      cases cs <;> exact isolated_pure b.alike _
    | _ =>
      dsimp only
      split <;> exact isolated_pure b.alike _

theorem isolated_expandHosts (l : Option Language) (o : Options) (cs : List Chunk) :
    Isolated b.alike (b.expandHosts l o cs).run := by
  induction cs with
  | nil => exact isolated_pure b.alike _
  | cons c cs ih =>
    rw [expandHosts]
    refine isolated_run_bind (b.isolated_expandHost l o c) fun ds =>
      isolated_run_bind ih fun es => ?_
    exact isolated_pure b.alike _

/-- Chunking reads no more of a session than its decisions, and leaves them as they are. -/
theorem isolated_chunk (code : Text) (path : String) (o : Options) :
    Isolated b.alike (b.chunk code path o) := by
  rw [chunk]
  refine b.isolated_chunkWith (fun l cs => ?_) code path o
  split
  · exact b.isolated_expandHosts l o cs
  · exact isolated_pure b.alike _

end Toolbox

end CodeChunks
