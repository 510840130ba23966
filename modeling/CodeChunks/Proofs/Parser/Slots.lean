import CodeChunks.Proofs.Parser.Runs
import CodeChunks.Proofs.Steps
import CodeChunks.Proofs.Text.Lowering

/-! # What a session holds under one key

A key has the factory registered under it, the parser decided on, and the attempts to load one. A
parser is resolved within the slot of its key: nothing else is read and nothing else is written. -/
namespace CodeChunks

def Load.key : Load → String
  | .factory _ key => key
  | .discovery key => key

def Load.isFactory (key : String) (l : Load) : Prop := ∃ label, l = .factory label key

instance (key : String) (l : Load) : Decidable (l.isFactory key) :=
  match l with
  | .factory label k => decidable_of_iff (k = key) (by simp [Load.isFactory, eq_comm])
  | .discovery k => isFalse (by simp [Load.isFactory])

/-- A loaded parser, if there is one, unless the load never ends. -/
def Loaded.outcome : Loaded → Except Stop (Option Handle)
  | .handle h => .ok (some h)
  | .nothing => .ok none
  | .failed => .ok none
  | .hangs => .error .hangs

theorem Loaded.outcome_eq_ok {r : Loaded} (h : r ≠ .hangs) : r.outcome = .ok r.handle? := by
  cases r with
  | hangs => exact absurd rfl h
  | _ => rfl

namespace Toolbox

/-- The parser that a factory gives, or else discovery. -/
def decision (b : Toolbox) (f : Option Factory) (key : String) : Except Stop (Option Handle) :=
  match f.elim (.ok none) fun f => (f.load key).outcome with
  | .ok none => (b.discover key).outcome
  | r => r

/-- The attempts to load a parser that is not decided on. -/
def attempts (f : Option Factory) (key : String) : List Load :=
  match f with
  | none => [.discovery key]
  | some f => .factory f.label key :: match (f.load key).outcome with
    | .ok none => [.discovery key]
    | _ => []

theorem decision_eq_ok {b : Toolbox} {f : Option Factory} {key : String}
    (hf : ∀ g ∈ f, g.load key ≠ .hangs) (hb : b.discover key ≠ .hangs) :
    b.decision f key =
      .ok ((f.bind fun f => (f.load key).handle?).or (b.discover key).handle?) := by
  cases f with
  | none => exact Loaded.outcome_eq_ok hb
  | some g =>
    rw [decision, Option.elim_some, Loaded.outcome_eq_ok (hf g rfl), Option.bind_some]
    cases (g.load key).handle? with
    | none => exact Loaded.outcome_eq_ok hb
    | some h => rfl

theorem key_of_mem_attempts {f : Option Factory} {key : String} {l : Load}
    (h : l ∈ attempts f key) : l.key = key := by
  cases f with
  | none =>
    rw [attempts, List.mem_singleton] at h
    rw [h, Load.key]
  | some f =>
    rw [attempts] at h
    split at h <;> simp at h <;> rcases h with rfl | rfl <;> rfl

theorem countP_attempts_le (f : Option Factory) (key other : String) :
    (attempts f key).countP (·.isFactory other) ≤ 1 := by
  have hdiscovery : ¬ (Load.discovery key).isFactory other := by simp [Load.isFactory]
  cases f with
  | none => simp [attempts, hdiscovery]
  | some f =>
    rw [attempts, List.countP_cons]
    split <;> split <;> simp [hdiscovery]

theorem count_attempts_le (f : Option Factory) (key other : String) :
    (attempts f key).count (.discovery other) ≤ 1 := by
  cases f with
  | none => exact List.count_le_length
  | some f =>
    rw [attempts, List.count_cons_of_ne (by simp)]
    split
    · exact List.count_le_length
    · exact Nat.zero_le _

end Toolbox

/-- What is held under one key. -/
structure Slot where
  factory : Option Factory
  decided : Option (Option Handle)
  loads : List Load

namespace Slot

/-- The parser under the key, as it was decided on or would be. -/
def outcome (b : Toolbox) (key : String) (t : Slot) : Except Stop (Option Handle) :=
  match t.decided with
  | some h => .ok h
  | none => b.decision t.factory key

/-- Every load of the factory comes to an end. -/
def Finishes (t : Slot) : Prop := ∀ f ∈ t.factory, ∀ key, f.load key ≠ .hangs

/-- The slot once its parser is resolved. A load that never ends decides nothing. -/
def resolved (b : Toolbox) (key : String) (t : Slot) : Slot :=
  match t.decided with
  | some _ => t
  | none =>
    { t with
      decided := (b.decision t.factory key).toOption
      loads := t.loads ++ Toolbox.attempts t.factory key }

theorem resolved_of_decided {t : Slot} {h : Option Handle} (ht : t.decided = some h) (b : Toolbox)
    (key : String) : t.resolved b key = t := by
  rw [resolved, ht]

@[simp] theorem factory_resolved (b : Toolbox) (key : String) (t : Slot) :
    (t.resolved b key).factory = t.factory := by
  rw [resolved]
  split <;> rfl

theorem decided_resolved (b : Toolbox) (key : String) (t : Slot) :
    (t.resolved b key).decided = (t.outcome b key).toOption := by
  rw [resolved, outcome]
  cases h : t.decided with
  | none => rfl
  | some d => exact h

/-- Where all loads end, a parser that is resolved is decided on. -/
theorem exists_outcome {b : Toolbox} {key : String} {t : Slot} (ht : t.Finishes)
    (hb : b.discover key ≠ .hangs) : ∃ h, t.outcome b key = .ok h := by
  rw [outcome]
  split
  · exact ⟨_, rfl⟩
  · exact ⟨_, Toolbox.decision_eq_ok (fun f hf => ht f hf key) hb⟩

/-- What is resolved once comes out the same again. -/
theorem outcome_resolved (b : Toolbox) (key : String) (t : Slot) :
    (t.resolved b key).outcome b key = t.outcome b key := by
  cases ht : t.decided with
  | some h => rw [resolved_of_decided ht]
  | none =>
    rw [outcome, decided_resolved, factory_resolved, outcome, ht]
    cases b.decision t.factory key <;> rfl

end Slot

namespace Session

def slot (s : Session) (key : String) : Slot where
  factory := Assoc.find? key s.factories
  decided := Assoc.find? key s.cache
  loads := s.loads.filter (·.key = key)

/-- The session once the parser of a key is resolved. -/
def resolved (b : Toolbox) (key : String) (s : Session) : Session :=
  match Assoc.find? key s.cache with
  | some _ => s
  | none =>
    let f := Assoc.find? key s.factories
    let s := { s with loads := s.loads ++ Toolbox.attempts f key }
    match b.decision f key with
    | .ok h => s.remember key h
    | .error _ => s

theorem factories_resolved (b : Toolbox) (key : String) (s : Session) :
    (s.resolved b key).factories = s.factories := by
  dsimp only [resolved]
  split
  · rfl
  · split <;> rfl

theorem exists_loads_resolved (b : Toolbox) (key : String) (s : Session) :
    ∃ added, (s.resolved b key).loads = s.loads ++ added := by
  dsimp only [resolved]
  split
  · exact ⟨[], (List.append_nil _).symm⟩
  · split <;> exact ⟨_, rfl⟩

theorem slot_resolved_self (b : Toolbox) (key : String) (s : Session) :
    (s.resolved b key).slot key = (s.slot key).resolved b key := by
  have hown : (Toolbox.attempts (Assoc.find? key s.factories) key).filter (·.key = key) =
      Toolbox.attempts (Assoc.find? key s.factories) key := by
    rw [List.filter_eq_self]
    intro l hl
    simpa using Toolbox.key_of_mem_attempts hl
  cases h : Assoc.find? key s.cache with
  | some d => simp only [resolved, Slot.resolved, slot, h]
  | none =>
    cases hd : b.decision (Assoc.find? key s.factories) key with
    | ok d =>
      simp only [resolved, remember, Slot.resolved, slot, h, hd, Assoc.find?_insert, if_pos,
        List.filter_append, hown, Except.toOption]
    | error e =>
      simp only [resolved, Slot.resolved, slot, h, hd, List.filter_append, hown, Except.toOption]

theorem slot_resolved_of_ne (b : Toolbox) {key other : String} (hne : key ≠ other) (s : Session) :
    (s.resolved b key).slot other = s.slot other := by
  have hothers :
      (Toolbox.attempts (Assoc.find? key s.factories) key).filter (·.key = other) = [] := by
    rw [List.filter_eq_nil_iff]
    intro l hl
    simpa [Toolbox.key_of_mem_attempts hl] using hne
  cases h : Assoc.find? key s.cache with
  | some d => simp only [resolved, h]
  | none =>
    cases hd : b.decision (Assoc.find? key s.factories) key with
    | ok d =>
      simp only [resolved, remember, slot, h, hd, Assoc.find?_insert, if_neg hne,
        List.filter_append, hothers, List.append_nil]
    | error e => simp only [resolved, slot, h, hd, List.filter_append, hothers, List.append_nil]

end Session

namespace Toolbox

variable (b : Toolbox) (s : Session)

theorem settle_run (r : Loaded) : (settle r).run.run s = (r.outcome, s) := by
  cases r <;> rfl

theorem loadRegistered_run (key : String) :
    (loadRegistered key).run.run s = match s.factory? key with
      | none => (.ok none, s)
      | some f => ((f.load key).outcome, s.logLoad (.factory f.label key)) := by
  rw [loadRegistered, Steps.run_bind, Steps.run_get]
  dsimp only
  cases hf : s.factory? key with
  | none => rfl
  | some f =>
    rw [Steps.run_bind, Steps.run_modify]
    exact settle_run _ _

theorem loadDiscovered_run (key : String) :
    (b.loadDiscovered key).run.run s = ((b.discover key).outcome, s.logLoad (.discovery key)) := by
  rw [loadDiscovered, Steps.run_bind, Steps.run_modify]
  exact settle_run _ _

/-- A parser is resolved within the slot of its key. -/
theorem resolve_run (name : String) :
    (b.resolve name).run.run s =
      if nameKey name = "" then (.ok none, s)
      else ((s.slot (nameKey name)).outcome b (nameKey name), s.resolved b (nameKey name)) := by
  have hkey : nameKey (nameKey name) = nameKey name := nameKey_nameKey name
  rw [resolve]
  generalize nameKey name = key at hkey ⊢
  have hfactory : s.factory? key = Assoc.find? key s.factories := by rw [Session.factory?, hkey]
  dsimp only
  split
  · rfl
  rw [Steps.run_bind, Steps.run_get]
  dsimp only
  cases hcache : Assoc.find? key s.cache with
  | some d =>
    simp only [Session.resolved, Session.slot, Slot.outcome, hcache]
    rfl
  | none =>
    simp only [Session.resolved, Session.slot, Slot.outcome, hcache]
    rw [Steps.run_bind, loadRegistered_run, hfactory]
    cases Assoc.find? key s.factories with
    | none =>
      dsimp only
      rw [Steps.run_bind, loadDiscovered_run]
      dsimp only [decision, attempts, Option.elim_none]
      cases (b.discover key).outcome <;> rfl
    | some f =>
      dsimp only [decision, attempts, Option.elim_some]
      cases hload : (f.load key).outcome with
      | error e => rfl
      | ok d =>
        cases d with
        | some h => rfl
        | none =>
          dsimp only
          rw [Steps.run_bind, loadDiscovered_run, List.append_cons]
          cases (b.discover key).outcome <;> rfl

end Toolbox

end CodeChunks
