import CodeChunks.Proofs.Steps
import CodeChunks.Vector.Store

/-! # The writes of a vector store

A call writes to one table after the other, and what it wrote before a fault would stay. Every fault
comes before the first write, so that a call changes both tables or none. -/
namespace CodeChunks

/-- A number near which there is one of binary64: an integer must not be too large. -/
def Json.Number.InRange : Json.Number → Prop
  | .int n => n.natAbs < 1 <<< 1024 - 1 <<< 970
  | .float _ => True

instance : DecidablePred Json.Number.InRange
  | .int n => inferInstanceAs (Decidable (n.natAbs < 1 <<< 1024 - 1 <<< 970))
  | .float _ => inferInstanceAs (Decidable True)

theorem Json.Number.isSome_toFloat?_iff (x : Json.Number) : x.toFloat?.isSome ↔ x.InRange := by
  cases x with
  | int n => simp [toFloat?, InRange]
  | float x => simp [toFloat?, InRange]

/-- The embedding has as many numbers as a store wants, all of them in range. -/
def Document.Fits (d : Document) (dimensions : Nat) : Prop :=
  d.embedding.length = dimensions ∧ ∀ x ∈ d.embedding, x.InRange

instance (d : Document) (dimensions : Nat) : Decidable (d.Fits dimensions) :=
  inferInstanceAs (Decidable (_ ∧ _))

namespace VectorStore

open Steps

theorem length_of_vector? {s : VectorStore} {xs : List Json.Number} {v : Embedding}
    (h : s.vector? xs = .ok v) : v.length = s.dimensions := by
  rw [vector?] at h
  split at h
  · cases h
  · split at h
    · cases h
      rwa [List.length_map]
    · cases h

theorem exists_mapM_toFloat? {xs : List Json.Number} (h : ∀ x ∈ xs, x.InRange) :
    ∃ ys, xs.mapM Json.Number.toFloat? = some ys ∧ ys.length = xs.length := by
  induction xs with
  | nil => exact ⟨[], rfl, rfl⟩
  | cons x xs ih =>
    obtain ⟨y, hy⟩ :=
      Option.isSome_iff_exists.mp (x.isSome_toFloat?_iff.mpr (h x List.mem_cons_self))
    obtain ⟨ys, hys, hlength⟩ := ih fun z hz => h z (List.mem_cons_of_mem x hz)
    refine ⟨y :: ys, ?_, by rw [List.length_cons, hlength, List.length_cons]⟩
    rw [List.mapM_cons, hy, hys]
    rfl

theorem inRange_of_mapM {xs : List Json.Number} {ys : List Float}
    (h : xs.mapM Json.Number.toFloat? = some ys) :
    ys.length = xs.length ∧ ∀ x ∈ xs, x.InRange := by
  induction xs generalizing ys with
  | nil =>
    cases h
    exact ⟨rfl, nofun⟩
  | cons x xs ih =>
    rw [List.mapM_cons, Option.bind_eq_bind, Option.bind_eq_some_iff] at h
    obtain ⟨y, hy, h⟩ := h
    rw [Option.bind_eq_bind, Option.bind_eq_some_iff] at h
    obtain ⟨zs, hzs, h⟩ := h
    cases h
    obtain ⟨hlength, hrange⟩ := ih hzs
    refine ⟨by rw [List.length_cons, hlength, List.length_cons], ?_⟩
    intro z hz
    rcases List.mem_cons.mp hz with rfl | hz
    · exact z.isSome_toFloat?_iff.mp (by rw [hy]; rfl)
    · exact hrange z hz

/-- A document has a vector exactly when it fits. -/
theorem exists_vector?_iff (s : VectorStore) (d : Document) :
    (∃ v, s.vector? d.embedding = .ok v) ↔ d.Fits s.dimensions := by
  rw [vector?]
  constructor
  · rintro ⟨v, hv⟩
    cases hys : d.embedding.mapM Json.Number.toFloat? with
    | none => simp [hys] at hv
    | some ys =>
      obtain ⟨hlength, hrange⟩ := inRange_of_mapM hys
      by_cases hdimensions : ys.length = s.dimensions
      · exact ⟨hlength ▸ hdimensions, hrange⟩
      · simp [hys, hdimensions] at hv
  · rintro ⟨hdimensions, hrange⟩
    obtain ⟨ys, hys, hlength⟩ := exists_mapM_toFloat? hrange
    rw [hys]
    exact ⟨_, if_pos (hlength.trans hdimensions)⟩

/-- A call that may change a store. -/
inductive Call where
  | add (d : Document)
  | addMany (ds : List Document)
  | update (d : Document)
  | delete (id : String)
  | clear

/-- What a call makes of a store, if it is answered. -/
def call (s : VectorStore) : Call → Except Fault VectorStore
  | .add d => s.add d
  | .addMany ds => s.addMany ds
  | .update d => s.update d
  | .delete id => .ok (s.delete id).2
  | .clear => .ok s.clear

/-- Writes to the tables of a store. Those before a fault stay. -/
abbrev Writes := ExceptT Fault (StateM VectorStore) Unit

def writeVector (d : Document) : Writes := do
  let v ← MonadExcept.ofExcept ((← get).vector? d.embedding)
  modify fun s => { s with vectors := Assoc.insert d.id v s.vectors }

def writeDocument (d : Document) : Writes :=
  modify fun s => { s with documents := Assoc.insert d.id d s.documents }

def write (d : Document) : Writes := do
  writeVector d
  writeDocument d

def writeAll : List Document → Writes
  | [] => return
  | d :: ds => do
    write d
    writeAll ds

def erase (id : String) : Writes := do
  modify fun s => { s with documents := Assoc.erase id s.documents }
  modify fun s => { s with vectors := Assoc.erase id s.vectors }

/-- The checks and the writes of a call, one after another. -/
def Call.writes : Call → Writes
  | .add d => do
    if (← get).has d.id then throw (.duplicate d.id)
    write d
  | .addMany ds => do
    MonadExcept.ofExcept ((← get).checkBatch [] ds)
    writeAll ds
  | .update d => write d
  | .delete id => do
    if (← get).has id then erase id
  | .clear => do
    modify fun s => { s with documents := [] }
    modify fun s => { s with vectors := [] }

/-- What is left of a call: a new store, or a fault and the store as it was. -/
def settled (s : VectorStore) : Except Fault VectorStore → Except Fault Unit × VectorStore
  | .ok t => (.ok (), t)
  | .error e => (.error e, s)

variable (s : VectorStore)

theorem update_eq_put {s : VectorStore} {d : Document} {v : Embedding}
    (h : s.vector? d.embedding = .ok v) : s.update d = .ok (s.put d v) := by
  rw [update, h]
  rfl

theorem run_write (d : Document) : (write d).run.run s = s.settled (s.update d) := by
  rw [write, run_bind, writeVector, run_bind, run_get]
  dsimp only
  rw [run_bind, run_ofExcept]
  cases h : s.vector? d.embedding with
  | error e =>
    rw [update, h]
    rfl
  | ok v =>
    rw [update_eq_put h]
    rfl

/-- Documents that all fit are put in one after another, and no fault comes between them. -/
theorem run_writeAll {ds : List Document} (h : ∀ d ∈ ds, d.Fits s.dimensions) :
    ∃ t, ds.foldlM update s = .ok t ∧ (writeAll ds).run.run s = (.ok (), t) := by
  induction ds generalizing s with
  | nil => exact ⟨s, rfl, rfl⟩
  | cons d ds ih =>
    obtain ⟨v, hv⟩ := (s.exists_vector?_iff d).mpr (h d List.mem_cons_self)
    obtain ⟨t, ht, hrun⟩ := ih (s.put d v) fun e he => h e (List.mem_cons_of_mem d he)
    refine ⟨t, ?_, ?_⟩
    · rw [List.foldlM_cons, update_eq_put hv]
      exact ht
    · rw [writeAll, run_bind, run_write, update_eq_put hv]
      exact hrun

/-- A batch passes its check when its ids are new and different and all its documents fit. -/
theorem checkBatch_eq_ok_iff (seen : List String) (ds : List Document) :
    s.checkBatch seen ds = .ok () ↔
      (∀ d ∈ ds, s.has d.id = false ∧ d.id ∉ seen ∧ d.Fits s.dimensions) ∧
        (ds.map (·.id)).Nodup := by
  induction ds generalizing seen with
  | nil => simp [checkBatch]
  | cons d ds ih =>
    rw [checkBatch, List.forall_mem_cons, List.map_cons, List.nodup_cons]
    by_cases hid : s.has d.id || seen.contains d.id
    · rw [if_pos hid]
      simp only [reduceCtorEq, false_iff]
      rintro ⟨⟨⟨hnew, hunseen, -⟩, -⟩, -⟩
      simp [hnew, hunseen] at hid
    · rw [if_neg hid]
      obtain ⟨hnew, hunseen⟩ : s.has d.id = false ∧ d.id ∉ seen := by simpa using hid
      by_cases hfits : d.Fits s.dimensions
      · obtain ⟨v, hv⟩ := (s.exists_vector?_iff d).mpr hfits
        rw [hv]
        refine (ih (d.id :: seen)).trans ?_
        simp only [hnew, hunseen, hfits, List.mem_cons, not_or, List.mem_map, not_exists, not_and,
          not_false_eq_true, true_and]
        constructor
        · rintro ⟨hds, hnodup⟩
          exact ⟨fun e he => ⟨(hds e he).1, (hds e he).2.1.2, (hds e he).2.2⟩,
            fun e he => (hds e he).2.1.1, hnodup⟩
        · rintro ⟨hds, hne, hnodup⟩
          exact ⟨fun e he => ⟨(hds e he).1, ⟨hne e he, (hds e he).2.1⟩, (hds e he).2.2⟩, hnodup⟩
      · cases hv : s.vector? d.embedding with
        | error e => simp [bind, Except.bind, hfits]
        | ok v => exact absurd ((s.exists_vector?_iff d).mp ⟨v, hv⟩) hfits

/-- The outcome of a call and the tables after its writes. -/
def perform (c : Call) : Except Fault Unit × VectorStore := c.writes.run.run s

/-- After its writes a call has made of the store what it answers, or it has failed and changed
nothing. -/
theorem perform_eq (c : Call) : s.perform c = s.settled (s.call c) := by
  rw [perform]
  cases c with
  | add d =>
    rw [Call.writes, run_bind, run_get, call, add]
    dsimp only
    cases s.has d.id with
    | false => exact run_write s d
    | true => rfl
  | addMany ds =>
    rw [Call.writes, run_bind, run_get, call, addMany]
    dsimp only
    rw [run_bind, run_ofExcept]
    cases h : s.checkBatch [] ds with
    | error e => rfl
    | ok u =>
      obtain ⟨hds, -⟩ := (s.checkBatch_eq_ok_iff [] ds).mp h
      obtain ⟨t, ht, hrun⟩ := s.run_writeAll fun d hd => (hds d hd).2.2
      dsimp only
      rw [hrun]
      exact (congrArg s.settled ht).symm
  | update d => exact run_write s d
  | delete id =>
    rw [Call.writes, run_bind, run_get, call, delete]
    dsimp only
    cases s.has id <;> rfl
  | clear => rfl

end VectorStore

end CodeChunks
