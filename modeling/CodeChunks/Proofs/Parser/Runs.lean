import CodeChunks.Parser.Session
import CodeChunks.Proofs.Assoc

/-! # What the runs that use parsers end with

The parser of a language is decided on when it is first asked for, but what comes out does not
depend on when that is: it can be told from the session at the start. -/
namespace CodeChunks

/-- The run ends with a result that `ok` holds of, or early for a reason that `stop` holds of. -/
@[irreducible] def Run.Ends {α : Type} (m : Run α) (s : Session) (stop : Stop → Prop)
    (ok : α → Session → Prop) : Prop :=
  match m.run.run s with
  | (.ok a, s') => ok a s'
  | (.error e, _) => stop e

namespace Run

variable {α β : Type} {s : Session} {stop : Stop → Prop} {ok : α → Session → Prop}

@[simp] theorem ends_pure (a : α) : Ends (pure a) s stop ok ↔ ok a s := by
  rw [Ends]
  rfl

@[simp] theorem ends_throw (e : Stop) : Ends (throw e) s stop ok ↔ stop e := by
  rw [Ends]
  rfl

@[simp] theorem ends_get {ok : Session → Session → Prop} : Ends get s stop ok ↔ ok s s := by
  rw [Ends]
  rfl

@[simp] theorem ends_modify (f : Session → Session) {ok : Unit → Session → Prop} :
    Ends (modify f) s stop ok ↔ ok () (f s) := by
  rw [Ends]
  rfl

@[simp] theorem ends_bind (m : Run β) (f : β → Run α) :
    Ends (m >>= f) s stop ok ↔ Ends m s stop fun b s' => Ends (f b) s' stop ok := by
  simp only [Ends, ExceptT.run_bind, StateT.run_bind]
  rcases m.run.run s with ⟨_ | _, _⟩ <;> rfl

@[simp] theorem ends_map (m : Run β) (f : β → α) :
    Ends (f <$> m) s stop ok ↔ Ends m s stop fun b s' => ok (f b) s' := by
  rw [map_eq_pure_bind, ends_bind]
  simp only [ends_pure]

theorem Ends.imp {m : Run α} {stop' : Stop → Prop} {ok' : α → Session → Prop}
    (h : m.Ends s stop ok) (hstop : ∀ e, stop e → stop' e) (hok : ∀ a s', ok a s' → ok' a s') :
    m.Ends s stop' ok' := by
  rw [Ends] at h ⊢
  rcases hm : m.run.run s with ⟨e | a, s'⟩ <;> rw [hm] at h
  · exact hstop e h
  · exact hok a s' h

theorem Ends.mono {m : Run α} {ok' : α → Session → Prop} (h : m.Ends s stop ok)
    (hok : ∀ a s', ok a s' → ok' a s') : m.Ends s stop ok' :=
  h.imp (fun _ he => he) hok

theorem Ends.and {m : Run α} {ok' : α → Session → Prop} (h : m.Ends s stop ok)
    (h' : m.Ends s (fun _ => True) ok') : m.Ends s stop fun a s' => ok a s' ∧ ok' a s' := by
  rw [Ends] at h h' ⊢
  rcases hm : m.run.run s with ⟨e | a, s'⟩ <;> rw [hm] at h h'
  · exact h
  · exact ⟨h, h'⟩

/-- A run that nothing stops returns. -/
theorem Ends.returns {m : Run α} (h : m.Ends s stop ok) (hstop : ∀ e, ¬ stop e) :
    ∃ a s', m.run.run s = (.ok a, s') ∧ ok a s' := by
  rw [Ends] at h
  rcases hm : m.run.run s with ⟨e | a, s'⟩ <;> rw [hm] at h
  · exact absurd h (hstop e)
  · exact ⟨a, s', rfl, h⟩

theorem Ends.of_run_eq {m : Run α} {a : α} {s' : Session} (h : m.Ends s stop ok)
    (hm : m.run.run s = (.ok a, s')) : ok a s' := by
  rw [Ends] at h
  rwa [hm] at h

/-- A run that does not end early ends with what it returns. -/
theorem ends_self (m : Run α) (s : Session) :
    m.Ends s (fun _ => True) fun a s' => m.run.run s = (.ok a, s') := by
  rw [Ends]
  rcases m.run.run s with ⟨e | a, s'⟩
  · trivial
  · rfl

end Run

def Loaded.handle? : Loaded → Option Handle
  | .handle h => some h
  | _ => none

namespace Toolbox

/-- The parser that the factory of a key or else discovery gives. -/
def loaded? (b : Toolbox) (s : Session) (key : String) : Option Handle :=
  ((s.factory? key).bind fun f => (f.load key).handle?).or (b.discover key).handle?

/-- The parser under a key, as a session decided on it or would decide. -/
def decided? (b : Toolbox) (s : Session) (key : String) : Option Handle :=
  match Assoc.find? key s.cache with
  | some h => h
  | none => b.loaded? s key

/-- The parser of a language, as a session decided on it or would decide. -/
def handle? (b : Toolbox) (s : Session) (language : String) : Option Handle :=
  if nameKey language = "" then none else b.decided? s (nameKey language)

def source? (b : Toolbox) (s : Session) (code : Text) (language : String)
    (options : Json.Fields) : Option Source :=
  match b.handle? s language with
  | none => none
  | some h => match h.parse code options with
    | .tree t => some (.tree t)
    | .malformed => some .malformed
    | _ => none

theorem source?_eq_tree_iff {b : Toolbox} {s : Session} {code : Text} {language : String}
    {options : Json.Fields} {t : Tree} :
    b.source? s code language options = some (.tree t) ↔
      ∃ h, b.handle? s language = some h ∧ h.parse code options = .tree t := by
  rw [source?]
  cases b.handle? s language with
  | none => simp
  | some h => cases hp : h.parse code options <;> simp [hp]

/-- Every load comes to an end. -/
structure Answers (b : Toolbox) (s : Session) : Prop where
  factories : ∀ f ∈ s.factories, ∀ key, f.2.load key ≠ .hangs
  discovery : ∀ key, b.discover key ≠ .hangs

/-- The later session has the same factories and decides on the same parsers. -/
structure Follows (b : Toolbox) (s s' : Session) : Prop where
  factories : s'.factories = s.factories
  decided : ∀ key, b.decided? s' key = b.decided? s key

variable {b : Toolbox} {s s' s'' : Session}

@[refl] theorem Follows.refl (b : Toolbox) (s : Session) : b.Follows s s := ⟨rfl, fun _ => rfl⟩

theorem Follows.trans (h : b.Follows s s') (h' : b.Follows s' s'') : b.Follows s s'' :=
  ⟨h'.factories.trans h.factories, fun key => (h'.decided key).trans (h.decided key)⟩

theorem Follows.answers_iff (h : b.Follows s s') : b.Answers s' ↔ b.Answers s := by
  constructor <;> rintro ⟨hf, hd⟩
  · exact ⟨h.factories ▸ hf, hd⟩
  · exact ⟨h.factories.symm ▸ hf, hd⟩

theorem Follows.handle?_eq (h : b.Follows s s') (language : String) :
    b.handle? s' language = b.handle? s language := by
  rw [handle?, h.decided, handle?]

theorem Follows.source?_eq (h : b.Follows s s') (code : Text) (language : String)
    (options : Json.Fields) :
    b.source? s' code language options = b.source? s code language options := by
  rw [source?, h.handle?_eq, source?]

theorem follows_logLoad (b : Toolbox) (s : Session) (l : Load) : b.Follows s (s.logLoad l) :=
  ⟨rfl, fun _ => rfl⟩

theorem follows_logParse (b : Toolbox) (s : Session) (name : String) (code : Text) :
    b.Follows s (s.logParse name code) :=
  ⟨rfl, fun _ => rfl⟩

/-- To remember what would be decided changes no decision. -/
theorem follows_remember (b : Toolbox) (s : Session) (key : String) :
    b.Follows s (s.remember key (b.decided? s key)) := by
  refine ⟨rfl, fun other => ?_⟩
  simp only [decided?, Session.remember, Assoc.find?_insert]
  by_cases heq : key = other
  · rw [if_pos heq, heq]
  · rw [if_neg heq]
    rfl

/-- The only reason for a run to end early is a load that never answers. -/
def Hangs (b : Toolbox) (s : Session) (e : Stop) : Prop := e = .hangs ∧ ¬ b.Answers s

theorem Follows.hangs_eq (h : b.Follows s s') : b.Hangs s' = b.Hangs s := by
  funext e
  simp only [Hangs, h.answers_iff]

theorem settle_ends {r : Loaded} (h : b.Answers s → r ≠ .hangs) (s' : Session) :
    (settle r).Ends s' (b.Hangs s) fun h s'' => h = r.handle? ∧ s'' = s' := by
  cases r with
  | handle h => simp [settle, Loaded.handle?]
  | nothing => simp [settle, Loaded.handle?]
  | failed => simp [settle, Loaded.handle?]
  | hangs => simpa [settle, Hangs] using h

theorem loadRegistered_ends (b : Toolbox) (s : Session) (key : String) :
    (loadRegistered key).Ends s (b.Hangs s) fun h s' =>
      h = ((s.factory? key).bind fun f => (f.load key).handle?) ∧ b.Follows s s' := by
  simp only [loadRegistered, Run.ends_bind, Run.ends_get]
  cases hf : s.factory? key with
  | none => simp [Follows.refl]
  | some f =>
    have hmem := Assoc.mem_of_find? hf
    simp only [Run.ends_bind, Run.ends_modify]
    apply (settle_ends (b := b) (s := s) (fun ha => ha.factories _ hmem key) _).mono
    rintro h s' ⟨rfl, rfl⟩
    exact ⟨rfl, follows_logLoad b s _⟩

theorem loadDiscovered_ends (b : Toolbox) (s : Session) (key : String) :
    (b.loadDiscovered key).Ends s (b.Hangs s) fun h s' =>
      h = (b.discover key).handle? ∧ b.Follows s s' := by
  simp only [loadDiscovered, Run.ends_bind, Run.ends_modify]
  apply (settle_ends (b := b) (s := s) (fun ha => ha.discovery key) _).mono
  rintro h s' ⟨rfl, rfl⟩
  exact ⟨rfl, follows_logLoad b s _⟩

/-- Every parser is decided on as it would have been at the start. -/
theorem resolve_ends (b : Toolbox) (s : Session) (language : String) :
    (b.resolve language).Ends s (b.Hangs s) fun h s' =>
      h = b.handle? s language ∧ b.Follows s s' := by
  rw [resolve, handle?]
  generalize nameKey language = key
  dsimp only
  split
  · simp [Follows.refl]
  simp only [Run.ends_bind, Run.ends_get]
  cases hcache : Assoc.find? key s.cache with
  | some h => simp [decided?, hcache, Follows.refl]
  | none =>
    have hdecided : b.decided? s key = b.loaded? s key := by rw [decided?, hcache]
    -- whatever is done before, the parser remembered is the one told from the session at the start
    have hremember : ∀ h s', h = b.loaded? s key → b.Follows s s' →
        h = b.decided? s key ∧ b.Follows s (s'.remember key h) := by
      rintro h s' rfl hs
      have := hs.trans (follows_remember b s' key)
      rw [hs.decided] at this
      exact hdecided ▸ ⟨rfl, this⟩
    simp only [Run.ends_bind]
    apply (loadRegistered_ends b s key).mono
    rintro h s' ⟨hh, hs⟩
    have hloaded : b.loaded? s key = h.or (b.discover key).handle? := by rw [hh, loaded?]
    cases h with
    | some h =>
      simp only [Run.ends_bind, Run.ends_modify, Run.ends_pure]
      exact hremember _ s' hloaded.symm hs
    | none =>
      simp only [Run.ends_bind, Run.ends_modify, Run.ends_pure]
      rw [← hs.hangs_eq]
      apply (b.loadDiscovered_ends s' key).mono
      rintro h s'' ⟨hh', hs'⟩
      exact hremember h s'' (by rw [hloaded, hh', Option.none_or]) (hs.trans hs')

/-- A code is parsed by the parser of its language. -/
theorem parse_ends (b : Toolbox) (s : Session) (code : Text) (language : String)
    (options : Json.Fields) :
    (b.parse code language options).Ends s (b.Hangs s) fun r s' =>
      r = b.source? s code language options ∧ b.Follows s s' := by
  simp only [parse, source?, Run.ends_bind]
  apply (b.resolve_ends s language).mono
  rintro h s' ⟨hh, hs⟩
  rw [← hh]
  cases h with
  | none => simpa using hs
  | some h =>
    simp only [Run.ends_bind, Run.ends_modify]
    have := hs.trans (follows_logParse b s' h.log code)
    cases h.parse code options <;> simpa using this

end Toolbox

end CodeChunks
