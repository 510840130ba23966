import CodeChunks.Proofs.Store.Ledgers
import Mathlib.Data.List.Nodup

/-! # Steps are run once

Beside the database runs a log of the steps whose statements were run. A step is run when the ledger
does not hold its hash, and from then on the ledger holds it. -/
namespace CodeChunks

variable {δ σ ε : Type}

namespace Backend

variable (b : Backend δ σ ε) (db : δ)

/-- The steps that the ledger does not hold. -/
def pending (ms : List (Step σ)) : List (Step σ) := ms.filter fun m => !(b.held db).contains m.hash

/-- The database after the statements of a step, with the hash of the step in its ledger. -/
def advance (m : Step σ) : Except ε δ := do
  let reached ← m.statements.foldlM b.execute db
  b.enter reached m.hash

/-- The statements of the steps succeed when their turn comes, which is behind the steps before with
their hashes. -/
def Succeeds : δ → List (Step σ) → Prop
  | _, [] => True
  | db, m :: ms => ∃ reached, m.statements.foldlM b.execute db = .ok reached ∧
      ∀ next, b.enter reached m.hash = .ok next → Succeeds next ms

/-- The pending steps of a list take a database to another one. -/
def Reaches (ms : List (Step σ)) (last : δ) : Prop :=
  (b.pending db ms).foldlM b.advance (b.withLedger db) = .ok last

variable {b}

/-- The steps have different hashes and leave the ledger alone, and the statements of those that are
pending succeed when their turn comes. -/
structure Ledger.Supports (l : b.Ledger) (db : δ) (ms : List (Step σ)) : Prop where
  distinct : (ms.map (·.hash)).Nodup
  spares : ∀ m ∈ ms, l.Spared m
  sound : l.Sound (b.withLedger db)
  succeeds : b.Succeeds (b.withLedger db) (b.pending db ms)

variable {l : b.Ledger} {db} {next last : δ} {m : Step σ} {ms p q : List (Step σ)}

/-- A step whose statements succeed is entered into the ledger. -/
theorem Ledger.advance_spared (l : b.Ledger) (hsound : l.Sound db) (hm : l.Spared m)
    (hnew : m.hash ∉ b.held db) {reached : δ}
    (h : m.statements.foldlM b.execute db = .ok reached) :
    ∃ next, b.enter reached m.hash = .ok next ∧ b.advance db m = .ok next ∧ l.Sound next ∧
      b.held next = b.held db ++ [m.hash] := by
  obtain ⟨hhashes, hreached⟩ := of_foldlM hm h
  rw [l.hashes_eq hsound] at hhashes
  obtain ⟨next, henter, hnext, hheld⟩ := l.enters reached _ _ (hreached hsound) hhashes hnew
  refine ⟨next, henter, ?_, hnext, l.held_of_hashes hnext hheld⟩
  rw [advance, h]
  exact henter

theorem Ledger.foldlM_advance (l : b.Ledger) (hsound : l.Sound db) (hspares : ∀ m ∈ ms, l.Spared m)
    (hdistinct : (ms.map (·.hash)).Nodup) (hnew : ∀ m ∈ ms, m.hash ∉ b.held db)
    (h : b.Succeeds db ms) :
    ∃ last, ms.foldlM b.advance db = .ok last ∧ l.Sound last ∧
      b.held last = b.held db ++ ms.map (·.hash) := by
  induction ms generalizing db with
  | nil => exact ⟨db, rfl, hsound, (List.append_nil _).symm⟩
  | cons m ms ih =>
    obtain ⟨hm, hdistinct⟩ := List.nodup_cons.mp hdistinct
    obtain ⟨hspared, hspares⟩ := List.forall_mem_cons.mp hspares
    obtain ⟨hfirst, hnew⟩ := List.forall_mem_cons.mp hnew
    obtain ⟨reached, hreached, hsucceeds⟩ := h
    obtain ⟨next, henter, hadvance, hnext, hheld⟩ :=
      l.advance_spared hsound hspared hfirst hreached
    have hnew' : ∀ n ∈ ms, n.hash ∉ b.held next := by
      intro n hn
      have hne : n.hash ≠ m.hash := fun heq => hm (List.mem_map.mpr ⟨n, hn, heq⟩)
      simp [hheld, hnew n hn, hne]
    obtain ⟨last, hlast, hsound, hheld'⟩ :=
      ih hnext hspares hdistinct hnew' (hsucceeds next henter)
    refine ⟨last, ?_, hsound, ?_⟩
    · rw [List.foldlM_cons, hadvance]
      exact hlast
    · rw [hheld', hheld, List.map_cons, List.append_assoc, List.singleton_append]

theorem succeeds_of_foldlM (h : ms.foldlM b.advance db = .ok last) : b.Succeeds db ms := by
  induction ms generalizing db with
  | nil => trivial
  | cons m ms ih =>
    rw [List.foldlM_cons] at h
    obtain ⟨next, hnext, hrest⟩ := exists_of_bind_eq_ok h
    obtain ⟨reached, hreached, henter⟩ := exists_of_bind_eq_ok hnext
    refine ⟨reached, hreached, fun other hother => ?_⟩
    cases henter.symm.trans hother
    exact ih hrest

theorem migrateOne_of_advance (h : b.advance db m = .ok next) : b.migrateOne db m = .ok next := by
  obtain ⟨reached, hreached, henter⟩ := exists_of_bind_eq_ok h
  obtain ⟨r, hrun, rfl, -⟩ := run_of_foldlM (s := ⟨db, none⟩) hreached
  have hcurrent : r.begin.current = r.current := rfl
  rw [migrateOne, hrun]
  change b.record r m.hash = .ok next
  rw [record, hcurrent, henter]

theorem mem_pending : m ∈ b.pending db ms ↔ m ∈ ms ∧ m.hash ∉ b.held db := by simp [pending]

theorem map_hash_pending (b : Backend δ σ ε) (db : δ) (ms : List (Step σ)) :
    (b.pending db ms).map (·.hash) = (ms.map (·.hash)).filter fun x => !(b.held db).contains x := by
  rw [pending, List.filter_map]
  rfl

theorem pending_append (b : Backend δ σ ε) (db : δ) (p q : List (Step σ)) :
    b.pending db (p ++ q) = b.pending db p ++ b.pending db q := List.filter_append ..

end Backend

/-- A database with the steps whose statements were run, in order. -/
structure Upgrade (δ σ : Type) where
  database : δ
  executed : List (Step σ) := []

namespace Upgrade

open Backend

variable (b : Backend δ σ ε)

/-- Does what `Backend.migrateFrom` does, and logs every step before its first statement. -/
def migrateFrom (done applied : List String) (u : Upgrade δ σ) :
    List (Step σ) → Except ε (List String) × Upgrade δ σ
  | [] => (.ok applied, u)
  | m :: ms =>
    if done.contains m.hash then migrateFrom done applied u ms
    else match b.migrateOne u.database m with
      | .ok db => migrateFrom done (applied ++ [m.hash]) ⟨db, u.executed ++ [m]⟩ ms
      | .error (e, db) => (.error e, ⟨db, u.executed ++ [m]⟩)

def call (u : Upgrade δ σ) (ms : List (Step σ)) : Except ε (List String) × Upgrade δ σ :=
  match b.makeLedger u.database with
  | .error e => (.error e, u)
  | .ok db => match b.hashes db with
    | .error e => (.error e, ⟨db, u.executed⟩)
    | .ok done => migrateFrom b done [] ⟨db, u.executed⟩ ms

/-- The database and the log after calls with lists of steps. -/
def run (db : δ) (calls : List (List (Step σ))) : Upgrade δ σ :=
  calls.foldl (fun u ms => (u.call b ms).2) ⟨db, []⟩

variable {b} {u : Upgrade δ σ} {db : δ} {ms p q : List (Step σ)}

theorem migrateFrom_eq (done applied : List String) (u : Upgrade δ σ) (ms : List (Step σ)) :
    ((u.migrateFrom b done applied ms).1, (u.migrateFrom b done applied ms).2.database) =
      b.migrateFrom done applied u.database ms := by
  induction ms generalizing u applied with
  | nil => rfl
  | cons m ms ih =>
    rw [migrateFrom, Backend.migrateFrom]
    cases done.contains m.hash with
    | true => exact ih applied u
    | false =>
      cases b.migrateOne u.database m with
      | ok db => exact ih _ _
      | error e => rfl

/-- Without its log a call does what the migration of the database does. -/
theorem call_eq (u : Upgrade δ σ) (ms : List (Step σ)) :
    ((u.call b ms).1, (u.call b ms).2.database) = b.migrate u.database ms := by
  rw [call, migrate]
  cases b.makeLedger u.database with
  | error e => rfl
  | ok db =>
    dsimp only
    cases b.hashes db with
    | error e => rfl
    | ok done => exact migrateFrom_eq ..

/-- Steps that go through are those that are not done yet. -/
theorem migrateFrom_of_foldlM (done applied : List String)
    (h : (ms.filter fun m => !done.contains m.hash).foldlM b.advance u.database = .ok db) :
    let steps := ms.filter fun m => !done.contains m.hash
    u.migrateFrom b done applied ms =
      (.ok (applied ++ steps.map (·.hash)), ⟨db, u.executed ++ steps⟩) := by
  induction ms generalizing u applied with
  | nil =>
    cases h
    simp [migrateFrom]
  | cons m ms ih =>
    by_cases hm : m.hash ∈ done
    · rw [List.filter_cons_of_neg (by simp [hm])] at h ⊢
      rw [migrateFrom, if_pos (by simpa using hm)]
      exact ih applied h
    · rw [List.filter_cons_of_pos (by simp [hm])] at h ⊢
      rw [List.foldlM_cons] at h
      obtain ⟨next, hnext, hrest⟩ := exists_of_bind_eq_ok h
      have hlater := ih (applied ++ [m.hash]) (u := ⟨next, u.executed ++ [m]⟩) hrest
      rw [migrateFrom, if_neg (by simpa using hm), migrateOne_of_advance hnext]
      simpa using hlater

/-- A call runs the pending steps, answers their hashes and puts these in the ledger. -/
theorem call_pending {l : b.Ledger} (h : l.Supports u.database ms) :
    ∃ last, b.Reaches u.database ms last ∧
      u.call b ms = (.ok ((b.pending u.database ms).map (·.hash)),
        ⟨last, u.executed ++ b.pending u.database ms⟩) ∧
      b.held last = b.held u.database ++ (b.pending u.database ms).map (·.hash) ∧
      l.Sound last := by
  obtain ⟨hdistinct, hspares, hsound, hsucceeds⟩ := h
  have hheld := l.held_withLedger hsound
  have hdistinct' : ((b.pending u.database ms).map (·.hash)).Nodup := by
    rw [map_hash_pending]
    exact hdistinct.filter _
  obtain ⟨last, hlast, hsound', hheld'⟩ := l.foldlM_advance hsound
    (fun m hm => hspares m (mem_pending.mp hm).1) hdistinct'
    (fun m hm => hheld ▸ (mem_pending.mp hm).2) hsucceeds
  refine ⟨last, hlast, ?_, hheld ▸ hheld', hsound'⟩
  rw [call, l.makeLedger_eq hsound]
  dsimp only
  rw [l.hashes_eq hsound, hheld]
  exact migrateFrom_of_foldlM _ [] hlast

end Upgrade

namespace Backend

variable {b : Backend δ σ ε} {l : b.Ledger} {db next : δ} {ms p q : List (Step σ)}

theorem Ledger.Supports.migrate_eq (h : l.Supports db ms) :
    ∃ last, b.Reaches db ms last ∧
      b.migrate db ms = (.ok ((b.pending db ms).map (·.hash)), last) ∧
      b.held last = b.held db ++ (b.pending db ms).map (·.hash) ∧ l.Sound last := by
  obtain ⟨last, hreaches, hcall, hheld, hsound⟩ := Upgrade.call_pending (u := ⟨db, []⟩) h
  refine ⟨last, hreaches, ?_, hheld, hsound⟩
  rw [← Upgrade.call_eq ⟨db, []⟩ ms, hcall]

/-- Once a list was run, nothing of it is pending, and of a longer list only what is new. -/
theorem pending_append_of_held (h : b.held next = b.held db ++ (b.pending db p).map (·.hash))
    (hdistinct : ((p ++ q).map (·.hash)).Nodup) : b.pending next (p ++ q) = b.pending db q := by
  have hp : b.pending next p = [] := by
    rw [pending, List.filter_eq_nil_iff]
    intro m hm
    have hmem : m.hash ∈ b.held next := by
      rw [h, List.mem_append]
      by_cases hold : m.hash ∈ b.held db
      · exact .inl hold
      · exact .inr (List.mem_map_of_mem (f := (·.hash)) (mem_pending.mpr ⟨hm, hold⟩))
    simpa using hmem
  have hq : b.pending next q = b.pending db q := by
    apply List.filter_congr
    intro m hm
    have hother : m.hash ∉ (b.pending db p).map (·.hash) := by
      intro hmem
      obtain ⟨n, hn, heq⟩ := List.mem_map.mp hmem
      rw [List.map_append, List.nodup_append] at hdistinct
      exact hdistinct.2.2 _ (List.mem_map_of_mem (f := (·.hash)) (mem_pending.mp hn).1) _
        (List.mem_map_of_mem (f := (·.hash)) hm) heq
    simp only [h, List.contains_eq_mem, List.mem_append, hother, or_false]
  rw [pending_append, hp, hq, List.nil_append]

theorem Ledger.Supports.of_append (h : l.Supports db (p ++ q)) : l.Supports db p where
  distinct := (List.nodup_append.mp (List.map_append ▸ h.distinct)).1
  spares := fun m hm => h.spares m (List.mem_append_left q hm)
  sound := h.sound
  succeeds := by
    obtain ⟨last, hreaches, -⟩ := h.migrate_eq
    rw [Reaches, pending_append, List.foldlM_append] at hreaches
    obtain ⟨mid, hmid, -⟩ := exists_of_bind_eq_ok hreaches
    exact succeeds_of_foldlM hmid

/-- After a part of a list was run, the rest takes the database where the whole list would have. -/
theorem Ledger.Supports.resume (h : l.Supports db (p ++ q)) :
    ∃ mid last, b.migrate db p = (.ok ((b.pending db p).map (·.hash)), mid) ∧
      b.migrate mid (p ++ q) = (.ok ((b.pending db q).map (·.hash)), last) ∧
      b.migrate db (p ++ q) = (.ok ((b.pending db (p ++ q)).map (·.hash)), last) := by
  obtain ⟨mid, hmid, hpart, hheld, hsound⟩ := h.of_append.migrate_eq
  obtain ⟨last, hreaches, hwhole, -, -⟩ := h.migrate_eq
  have hpending := pending_append_of_held hheld h.distinct
  have hmid' := l.withLedger_eq hsound
  have hrest : b.Reaches mid (p ++ q) last := by
    rw [Reaches, pending_append, List.foldlM_append, hmid] at hreaches
    rw [Reaches, hpending, hmid']
    exact hreaches
  have hsupports : l.Supports mid (p ++ q) :=
    ⟨h.distinct, h.spares, hmid'.symm ▸ hsound, succeeds_of_foldlM hrest⟩
  obtain ⟨last', hreaches', hagain, -, -⟩ := hsupports.migrate_eq
  cases hrest.symm.trans hreaches'
  exact ⟨mid, last, hpart, hpending ▸ hagain, hwhole⟩

end Backend

namespace Upgrade

open Backend

variable {b : Backend δ σ ε}

/-- The steps of each call are supported by the database that the call finds. -/
def Orderly (l : b.Ledger) (u : Upgrade δ σ) : List (List (Step σ)) → Prop
  | [] => True
  | ms :: calls => l.Supports u.database ms ∧ Orderly l (u.call b ms).2 calls

/-- What the log says of a database that came from another one: the hashes in the ledger are those
that were there, and those of the steps that were run, each of them once. -/
structure Tells (b : Backend δ σ ε) (u : Upgrade δ σ) (db : δ) : Prop where
  held : b.held u.database = b.held db ++ u.executed.map (·.hash)
  once : (u.executed.map (·.hash)).Nodup
  fresh : ∀ m ∈ u.executed, m.hash ∉ b.held db

variable {l : b.Ledger} {u : Upgrade δ σ} {db : δ}

theorem Tells.call (h : u.Tells b db) {ms : List (Step σ)} (hms : l.Supports u.database ms) :
    (u.call b ms).2.Tells b db := by
  obtain ⟨last, -, hcall, hheld, -⟩ := call_pending hms
  have hnew : ∀ m ∈ b.pending u.database ms, m.hash ∉ b.held db ∧
      m.hash ∉ u.executed.map (·.hash) := by
    intro m hm
    have := (mem_pending.mp hm).2
    rwa [h.held, List.mem_append, not_or] at this
  rw [hcall]
  constructor
  case held =>
    rw [hheld, h.held, List.map_append, List.append_assoc]
  case once =>
    rw [List.map_append, List.nodup_append]
    refine ⟨h.once, ?_, ?_⟩
    · rw [map_hash_pending]
      exact hms.distinct.filter _
    · rintro a ha c hc rfl
      obtain ⟨m, hm, rfl⟩ := List.mem_map.mp hc
      exact (hnew m hm).2 ha
  case fresh =>
    intro m hm
    rcases List.mem_append.mp hm with hm | hm
    · exact h.fresh m hm
    · exact (hnew m hm).1

theorem Tells.run (h : u.Tells b db) {calls : List (List (Step σ))} (hcalls : u.Orderly l calls) :
    (calls.foldl (fun u ms => (u.call b ms).2) u).Tells b db := by
  induction calls generalizing u with
  | nil => exact h
  | cons ms calls ih => exact ih (h.call hcalls.1) hcalls.2

end Upgrade

end CodeChunks
