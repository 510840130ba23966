import CodeChunks.Proofs.Assoc
import CodeChunks.Proofs.Vector.Writes
import Mathlib.Data.List.Induction
import Mathlib.Data.List.Nodup
import Mathlib.Logic.Function.Basic

/-! # A vector store is a map in order of insertion

Beside the store runs a map that knows its ids in the order in which they came. What the map accepts
is told from the ids and the lengths of the embeddings alone. -/
namespace CodeChunks

/-- Documents by their ids, and the ids in order. -/
structure Shelf where
  order : List String := []
  held : String → Option Document := fun _ => none

namespace Shelf

variable (m : Shelf) (dimensions : Nat)

/-- A document takes the place of the one with its id, or comes last. -/
def put (d : Document) : Shelf where
  order := if d.id ∈ m.order then m.order else m.order ++ [d.id]
  held := Function.update m.held d.id (some d)

def remove (id : String) : Shelf where
  order := m.order.erase id
  held := Function.update m.held id none

theorem held_put (d : Document) (id : String) :
    (m.put d).held id = if id = d.id then some d else m.held id := Function.update_apply ..

theorem held_remove (id other : String) :
    (m.remove id).held other = if other = id then none else m.held other := Function.update_apply ..

/-- Documents are added under new ids, the ids of a batch are different, and embeddings fit. -/
def Accepts : VectorStore.Call → Prop
  | .add d => d.id ∉ m.order ∧ d.Fits dimensions
  | .addMany ds => (∀ d ∈ ds, d.id ∉ m.order ∧ d.Fits dimensions) ∧ (ds.map (·.id)).Nodup
  | .update d => d.Fits dimensions
  | .delete _ => True
  | .clear => True

instance : DecidablePred (m.Accepts dimensions)
  | .add d => inferInstanceAs (Decidable (d.id ∉ m.order ∧ _))
  | .addMany ds => inferInstanceAs (Decidable ((∀ d ∈ ds, d.id ∉ m.order ∧ _) ∧ _))
  | .update d => inferInstanceAs (Decidable (d.Fits dimensions))
  | .delete _ => inferInstanceAs (Decidable True)
  | .clear => inferInstanceAs (Decidable True)

def after : VectorStore.Call → Shelf
  | .add d => m.put d
  | .addMany ds => ds.foldl put m
  | .update d => m.put d
  | .delete id => m.remove id
  | .clear => {}

def step (c : VectorStore.Call) : Shelf := if m.Accepts dimensions c then m.after c else m

def run (calls : List VectorStore.Call) : Shelf := calls.foldl (step · dimensions) {}

end Shelf

namespace VectorStore

/-- The store has the documents of the map, in its order, and beside each document its vector. -/
structure Reflects (s : VectorStore) (m : Shelf) : Prop where
  order : s.ids = m.order
  held : ∀ id, s.get? id = m.held id
  nodup : m.order.Nodup
  vectors : Assoc.Beside (fun d v => s.vector? d.embedding = .ok v) s.documents s.vectors

variable {s t : VectorStore} {m : Shelf}

theorem Reflects.has_eq (h : s.Reflects m) (id : String) : s.has id = decide (id ∈ m.order) := by
  rw [Bool.eq_iff_iff, decide_eq_true_iff, has, Assoc.has_iff_mem_keys, ← h.order, ids]

theorem Reflects.put (h : s.Reflects m) {d : Document} {v : Embedding}
    (hv : s.vector? d.embedding = .ok v) : (s.put d v).Reflects (m.put d) where
  order := by
    rw [Shelf.put, ← h.order]
    exact Assoc.keys_insert d.id d s.documents
  held := by
    intro id
    have hfind : (s.put d v).get? id = if d.id = id then some d else s.get? id :=
      Assoc.find?_insert d.id id d s.documents
    rw [hfind, Shelf.held_put, h.held, if_congr eq_comm rfl rfl]
  nodup := by
    rw [Shelf.put]
    by_cases hid : d.id ∈ m.order
    · exact (if_pos hid).symm ▸ h.nodup
    · rw [if_neg hid]
      exact List.nodup_append.mpr ⟨h.nodup, List.nodup_singleton _, by
        rintro a ha b hb rfl
        exact hid (List.mem_singleton.mp hb ▸ ha)⟩
  vectors := h.vectors.insert d.id hv

theorem Reflects.update (h : s.Reflects m) {d : Document} (ht : s.update d = .ok t) :
    t.Reflects (m.put d) ∧ t.dimensions = s.dimensions := by
  cases hv : s.vector? d.embedding with
  | error e =>
    rw [VectorStore.update, hv] at ht
    cases ht
  | ok v =>
    rw [update_eq_put hv] at ht
    cases ht
    exact ⟨h.put hv, rfl⟩

theorem Reflects.updateAll {ds : List Document} (h : s.Reflects m)
    (ht : ds.foldlM VectorStore.update s = .ok t) :
    t.Reflects (ds.foldl Shelf.put m) ∧ t.dimensions = s.dimensions := by
  induction ds generalizing s m with
  | nil =>
    cases ht
    exact ⟨h, rfl⟩
  | cons d ds ih =>
    rw [List.foldlM_cons] at ht
    cases hd : s.update d with
    | error e =>
      rw [hd] at ht
      cases ht
    | ok u =>
      rw [hd] at ht
      obtain ⟨hu, hdimensions⟩ := h.update hd
      obtain ⟨ht, hdimensions'⟩ := ih hu ht
      exact ⟨ht, hdimensions'.trans hdimensions⟩

theorem Reflects.remove_eq_self (h : s.Reflects m) {id : String} (hid : id ∉ m.order) :
    m.remove id = m := by
  have hnone : m.held id = none := by
    have hhas : (s.get? id).isSome = false := (h.has_eq id).trans (decide_eq_false hid)
    rw [← h.held]
    exact Option.not_isSome_iff_eq_none.mp (Bool.eq_false_iff.mp hhas)
  rw [Shelf.remove, List.erase_of_not_mem hid, ← hnone, Function.update_eq_self]

theorem Reflects.remove (h : s.Reflects m) (id : String) :
    ({ s with
      documents := Assoc.erase id s.documents
      vectors := Assoc.erase id s.vectors } : VectorStore).Reflects (m.remove id) where
  order := by
    have hnodup : (Assoc.keys s.documents).Nodup := by
      rw [← ids, h.order]
      exact h.nodup
    rw [Shelf.remove, ← h.order]
    exact Assoc.keys_erase hnodup
  held := by
    intro other
    rw [Shelf.held_remove, ← h.held]
    exact Assoc.find?_erase id other s.documents
  nodup := h.nodup.erase id
  vectors := h.vectors.erase id

/-- The map knows which calls are answered. -/
theorem Reflects.accepts_iff (h : s.Reflects m) (c : Call) :
    (∃ t, s.call c = .ok t) ↔ m.Accepts s.dimensions c := by
  have hupdate : ∀ d, (∃ t, s.update d = .ok t) ↔ d.Fits s.dimensions := by
    intro d
    rw [← exists_vector?_iff, VectorStore.update]
    cases s.vector? d.embedding <;> simp [bind, Except.bind, pure, Except.pure]
  cases c with
  | add d =>
    rw [call, add, h.has_eq, Shelf.Accepts, ← hupdate]
    by_cases hid : d.id ∈ m.order <;> simp [hid]
  | addMany ds =>
    have hcheck := s.checkBatch_eq_ok_iff [] ds
    simp only [h.has_eq, decide_eq_false_iff_not, List.not_mem_nil, not_false_eq_true,
      true_and] at hcheck
    rw [call, addMany, Shelf.Accepts, ← hcheck]
    cases hbatch : s.checkBatch [] ds with
    | error e => simp [bind, Except.bind]
    | ok u =>
      obtain ⟨t, ht, -⟩ := s.run_writeAll fun d hd => ((hcheck.mp hbatch).1 d hd).2
      exact ⟨fun _ => rfl, fun _ => ⟨t, ht⟩⟩
  | update d => exact hupdate d
  | delete id => exact ⟨fun _ => trivial, fun _ => ⟨_, rfl⟩⟩
  | clear => exact ⟨fun _ => trivial, fun _ => ⟨_, rfl⟩⟩

/-- A call that is answered does to the store what it does to the map. -/
theorem Reflects.after (h : s.Reflects m) {c : Call} (ht : s.call c = .ok t) :
    t.Reflects (m.after c) ∧ t.dimensions = s.dimensions := by
  cases c with
  | add d =>
    rw [call, add] at ht
    split at ht
    · cases ht
    · exact h.update ht
  | addMany ds =>
    rw [call, addMany] at ht
    cases hbatch : s.checkBatch [] ds with
    | error e =>
      rw [hbatch] at ht
      cases ht
    | ok u =>
      rw [hbatch] at ht
      exact h.updateAll ht
  | update d => exact h.update ht
  | delete id =>
    cases ht
    refine ⟨?_, by rw [delete]; split <;> rfl⟩
    rw [delete]
    by_cases hid : s.has id
    · rw [if_pos hid]
      exact h.remove id
    · rw [if_neg hid]
      rw [Shelf.after, h.remove_eq_self (by simpa [h.has_eq] using hid)]
      exact h
  | clear =>
    cases ht
    exact ⟨⟨rfl, fun _ => rfl, .nil, .nil⟩, rfl⟩

/-- The store after calls, each of which may fail. -/
def run (dimensions : Nat) (calls : List Call) : VectorStore :=
  calls.foldl (fun s c => (s.perform c).2) { dimensions }

theorem Reflects.step (h : s.Reflects m) (c : Call) :
    (s.perform c).2.Reflects (m.step s.dimensions c) ∧
      (s.perform c).2.dimensions = s.dimensions := by
  rw [perform_eq, Shelf.step]
  cases ht : s.call c with
  | error e =>
    have hrefused : ¬ m.Accepts s.dimensions c := by
      rw [← h.accepts_iff, ht]
      simp
    rw [if_neg hrefused]
    exact ⟨h, rfl⟩
  | ok t =>
    rw [if_pos ((h.accepts_iff c).mp ⟨t, ht⟩)]
    exact h.after ht

theorem reflects_empty (dimensions : Nat) : ({ dimensions } : VectorStore).Reflects {} :=
  ⟨rfl, fun _ => rfl, .nil, .nil⟩

theorem run_reflects (dimensions : Nat) (calls : List Call) :
    (run dimensions calls).Reflects (Shelf.run dimensions calls) ∧
      (run dimensions calls).dimensions = dimensions := by
  induction calls using List.reverseRecOn with
  | nil => exact ⟨reflects_empty dimensions, rfl⟩
  | append_singleton calls c ih =>
    obtain ⟨h, hdimensions⟩ := ih
    have hstep := h.step c
    rw [hdimensions] at hstep
    rw [run, Shelf.run, List.foldl_concat, List.foldl_concat]
    exact hstep

/-- Where a batch may be added, adding its documents one by one does the same. -/
theorem Reflects.foldlM_add (h : s.Reflects m) {ds : List Document}
    (hds : ∀ d ∈ ds, d.id ∉ m.order) (hnodup : (ds.map (·.id)).Nodup) :
    ds.foldlM add s = ds.foldlM VectorStore.update s := by
  induction ds generalizing s m with
  | nil => rfl
  | cons d ds ih =>
    rw [List.map_cons, List.nodup_cons] at hnodup
    have hnew : s.has d.id = false := by
      rw [h.has_eq, decide_eq_false (hds d List.mem_cons_self)]
    rw [List.foldlM_cons, List.foldlM_cons, add, hnew, if_neg Bool.false_ne_true]
    cases hd : s.update d with
    | error e => rfl
    | ok u =>
      refine ih (h.update hd).1 ?_ hnodup.2
      intro e he
      have hne : e.id ≠ d.id := fun heq => hnodup.1 (heq ▸ List.mem_map_of_mem he)
      have hold := hds e (List.mem_cons_of_mem d he)
      rw [Shelf.put]
      split <;> simp [hold, hne]

theorem Reflects.addMany (h : s.Reflects m) {ds : List Document}
    (ht : s.call (.addMany ds) = .ok t) : ds.foldlM add s = .ok t := by
  obtain ⟨hds, hnodup⟩ := (h.accepts_iff (.addMany ds)).mp ⟨t, ht⟩
  rw [h.foldlM_add (fun d hd => (hds d hd).1) hnodup]
  rw [call, VectorStore.addMany] at ht
  cases hbatch : s.checkBatch [] ds with
  | error e =>
    rw [hbatch] at ht
    cases ht
  | ok u =>
    rw [hbatch] at ht
    exact ht

/-- After any calls the tables have the ids of the map in its order, each document with its vector
of the right length. A call fails when the map does not accept it, and changes nothing then. A batch
is accepted when its ids are new and different and its embeddings fit, and is added as its documents
would be one by one. -/
theorem run_ordered (dimensions : Nat) (calls : List Call) :
    let s := run dimensions calls
    let m := Shelf.run dimensions calls
    s.Reflects m ∧
    (∀ e ∈ s.vectors, e.2.length = dimensions) ∧
    (∀ c, (∃ t, s.perform c = (.ok (), t)) ↔ m.Accepts dimensions c) ∧
    (∀ c e t, s.perform c = (.error e, t) → t = s) ∧
    ∀ ds t, s.perform (.addMany ds) = (.ok (), t) → ds.foldlM add s = .ok t := by
  intro s m
  obtain ⟨h, hdimensions⟩ : s.Reflects m ∧ s.dimensions = dimensions := run_reflects _ _
  refine ⟨h, ?_, ?_, ?_, ?_⟩
  · intro e he
    obtain ⟨d, hv⟩ := h.vectors.exists_beside he
    rw [← hdimensions]
    exact length_of_vector? hv
  · intro c
    rw [← hdimensions, ← h.accepts_iff c, perform_eq]
    cases s.call c <;> simp [settled]
  · intro c e t ht
    rw [perform_eq] at ht
    cases hc : s.call c <;> rw [hc] at ht <;> cases ht
    rfl
  · intro ds t ht
    rw [perform_eq] at ht
    cases hc : s.call (.addMany ds) <;> rw [hc] at ht <;> cases ht
    exact h.addMany hc

/-- An integer may be too large for any vector, although the embedding has the right length. -/
theorem addMany_tooLarge : ¬ ∀ (s : VectorStore) (ds : List Document),
    (∃ t, s.perform (.addMany ds) = (.ok (), t)) ↔
      (∀ d ∈ ds, s.has d.id = false ∧ d.embedding.length = s.dimensions) ∧
        (ds.map (·.id)).Nodup := by
  intro h
  have hrefused : ¬ ({} : Shelf).Accepts 1 (.addMany [⟨"a", [.int (1 <<< 1024)], []⟩]) := by
    decide +kernel
  rw [← (reflects_empty 1).accepts_iff] at hrefused
  obtain ⟨t, ht⟩ := (h { dimensions := 1 } [⟨"a", [.int (1 <<< 1024)], []⟩]).mpr
    ⟨by simp [has, Assoc.has, Assoc.find?], List.nodup_singleton _⟩
  rw [perform_eq] at ht
  cases hc : call { dimensions := 1 } (.addMany [⟨"a", [.int (1 <<< 1024)], []⟩]) with
  | error e =>
    rw [hc] at ht
    cases ht
  | ok u => exact hrefused ⟨u, hc⟩

end VectorStore

end CodeChunks
