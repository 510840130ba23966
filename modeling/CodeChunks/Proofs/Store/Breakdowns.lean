import CodeChunks.Proofs.Store.Upgrades

/-! # What a step leaves behind when it fails

A step that fails leaves nothing behind when no statement before its first transaction has changed
the database, and else it leaves what these have changed. -/
namespace CodeChunks.Backend

variable {δ σ ε : Type}

/-- A step fails at one of its statements, or when its hash is entered into the ledger; what its
statements up to there have done before a transaction was opened is left. -/
inductive Breaks (b : Backend δ σ ε) (m : Step σ) (db : δ) : ε → δ → Prop
  | statement {ts us : List σ} {t : σ} {reached left : δ} {e : ε}
      (split : m.statements = ts ++ t :: us) (done : ts.foldlM b.execute db = .ok reached)
      (fails : b.execute reached t = .error e)
      (lasts : (b.lasting ts).foldlM b.execute db = .ok left) : Breaks b m db e left
  | record {reached left : δ} {e : ε} (done : m.statements.foldlM b.execute db = .ok reached)
      (fails : b.enter reached m.hash = .error e)
      (lasts : (b.lasting m.statements).foldlM b.execute db = .ok left) : Breaks b m db e left

variable {b : Backend δ σ ε} {db mid left : δ} {m : Step σ} {e : ε}

/-- What is left are the changes of some of the statements. -/
theorem Breaks.exists_sublist (h : b.Breaks m db e left) :
    ∃ ts : List σ, (∀ t ∈ ts, t ∈ m.statements) ∧ ts.foldlM b.execute db = .ok left := by
  cases h with
  | @statement ts us t _ _ _ split _ _ lasts =>
    refine ⟨b.lasting ts, fun u hu => ?_, lasts⟩
    rw [split]
    exact List.mem_append_left _ ((List.takeWhile_prefix _).subset hu)
  | record _ _ lasts => exact ⟨_, fun u hu => (List.takeWhile_prefix _).subset hu, lasts⟩

/-- A step that leaves the ledger alone does so when it fails. -/
theorem Breaks.hashes_eq {l : b.Ledger} (h : b.Breaks m db e left) (hm : l.Spared m) :
    b.hashes left = b.hashes db := by
  obtain ⟨ts, hts, hleft⟩ := h.exists_sublist
  exact (Ledger.of_foldlM (fun t ht => hm t (hts t ht)) hleft).1

/-- A step that starts with a transaction leaves nothing. -/
theorem Breaks.eq_of_opens (h : b.Breaks m db e left)
    (hopens : ∀ t ∈ m.statements.head?, b.opensTransaction t) : left = db := by
  cases h with
  | @statement ts us t _ _ _ split _ _ lasts =>
    have hfirst : ∀ u ∈ ts.head?, b.opensTransaction u := by
      intro u hu
      refine hopens u ?_
      rw [split, List.head?_append, Option.mem_def.mp hu]
      rfl
    rw [lasting_eq_nil hfirst] at lasts
    cases lasts
    rfl
  | record _ _ lasts =>
    rw [lasting_eq_nil hopens] at lasts
    cases lasts
    rfl

theorem Breaks.migrateOne_eq (h : b.Breaks m db e left) :
    b.migrateOne db m = .error (e, left) := by
  rw [migrateOne]
  cases h with
  | @statement ts us t reached left e split done fails lasts =>
    obtain ⟨left', hrun, hresidue⟩ := run_append_cons (s := ⟨db, none⟩) done fails us
    obtain rfl : left = left' := Except.ok.inj (lasts.symm.trans hresidue)
    rw [split, hrun]
    rfl
  | @record reached left e done fails lasts =>
    obtain ⟨r, hrun, rfl, hresidue⟩ := run_of_foldlM (s := ⟨db, none⟩) done
    obtain rfl : left = r.rollback := Except.ok.inj (lasts.symm.trans hresidue)
    have hcurrent : r.begin.current = r.current := rfl
    rw [hrun]
    change b.record r m.hash = _
    rw [Backend.record, hcurrent, fails]
    rfl

/-- A step goes through with its hash recorded, or it breaks. -/
theorem migrateOne_cases (b : Backend δ σ ε) (db : δ) (m : Step σ) :
    (∃ next, b.migrateOne db m = .ok next) ∨ ∃ e left, b.Breaks m db e left := by
  rcases foldlM_cases b db m.statements with
    ⟨reached, hdone⟩ | ⟨ts, t, us, reached, e, hsplit, hdone, ht⟩
  · obtain ⟨r, -, rfl, hresidue⟩ := run_of_foldlM (s := ⟨db, none⟩) hdone
    cases henter : b.enter r.current m.hash with
    | error e => exact .inr ⟨e, _, .record hdone henter hresidue⟩
    | ok next =>
      refine .inl ⟨next, migrateOne_of_advance ?_⟩
      rw [advance, hdone]
      exact henter
  · obtain ⟨left, -, hresidue⟩ := run_append_cons (s := ⟨db, none⟩) hdone ht us
    exact .inr ⟨e, left, .statement hsplit hdone ht hresidue⟩

/-- The hashes in the ledger, which is made where there is none. -/
def opened (b : Backend δ σ ε) (db : δ) : Except ε (List String) := b.makeLedger db >>= b.hashes

theorem migrate_of_not_opened (h : b.opened db = .error e) (ms : List (Step σ)) :
    ∃ left, b.migrate db ms = (.error e, left) := by
  rw [opened] at h
  cases hledger : b.makeLedger db with
  | error f =>
    rw [hledger] at h
    cases h
    exact ⟨db, by rw [migrate, hledger]⟩
  | ok db₀ =>
    rw [hledger] at h
    have hhashes : b.hashes db₀ = .error e := h
    refine ⟨db₀, ?_⟩
    rw [migrate, hledger]
    dsimp only
    rw [hhashes]

end CodeChunks.Backend

namespace CodeChunks.Upgrade

open Backend

variable {δ σ ε : Type} {b : Backend δ σ ε} {u v : Upgrade δ σ} {done applied hashes : List String}
  {p q : List (Step σ)}

theorem migrateFrom_append (done applied : List String) (u : Upgrade δ σ) (p q : List (Step σ)) :
    u.migrateFrom b done applied (p ++ q) = match u.migrateFrom b done applied p with
      | (.ok applied, v) => v.migrateFrom b done applied q
      | (.error e, v) => (.error e, v) := by
  induction p generalizing applied u with
  | nil => rfl
  | cons m p ih =>
    rw [List.cons_append, migrateFrom, migrateFrom]
    cases done.contains m.hash with
    | true => exact ih applied u
    | false =>
      cases b.migrateOne u.database m with
      | ok db => exact ih _ _
      | error e => rfl

theorem executed_of_migrateFrom (h : u.migrateFrom b done applied p = (.ok hashes, v)) :
    hashes = applied ++ (p.filter fun m => !done.contains m.hash).map (·.hash) ∧
      v.executed = u.executed ++ p.filter fun m => !done.contains m.hash := by
  induction p generalizing applied u with
  | nil =>
    cases h
    simp
  | cons m p ih =>
    rw [migrateFrom] at h
    by_cases hm : m.hash ∈ done
    · rw [if_pos (by simpa using hm)] at h
      rw [List.filter_cons_of_neg (by simp [hm])]
      exact ih h
    · rw [if_neg (by simpa using hm)] at h
      rw [List.filter_cons_of_pos (by simp [hm])]
      cases hone : b.migrateOne u.database m with
      | error f =>
        rw [hone] at h
        cases h
      | ok next =>
        rw [hone] at h
        obtain ⟨hhashes, hexecuted⟩ := ih h
        simpa using And.intro hhashes hexecuted

/-- Steps go through one after another up to the first that breaks. -/
theorem migrateFrom_cases (done applied : List String) (u : Upgrade δ σ) (ms : List (Step σ)) :
    (∃ hashes v, u.migrateFrom b done applied ms = (.ok hashes, v)) ∨
    ∃ before m after hashes v e left, ms = before ++ m :: after ∧ m.hash ∉ done ∧
      u.migrateFrom b done applied before = (.ok hashes, v) ∧ b.Breaks m v.database e left := by
  induction ms generalizing applied u with
  | nil => exact .inl ⟨applied, u, rfl⟩
  | cons m ms ih =>
    by_cases hm : m.hash ∈ done
    · have hskip : ∀ p, u.migrateFrom b done applied (m :: p) = u.migrateFrom b done applied p := by
        intro p
        rw [migrateFrom, if_pos (by simpa using hm)]
      rw [hskip]
      rcases ih applied u with hall | ⟨before, n, after, hashes, v, e, left, rfl, hn, hrun, hbreaks⟩
      · exact .inl hall
      · exact .inr
          ⟨m :: before, n, after, hashes, v, e, left, rfl, hn, by rw [hskip, hrun], hbreaks⟩
    · rcases b.migrateOne_cases u.database m with ⟨db, hdb⟩ | ⟨e, left, hbreaks⟩
      · have hstep : ∀ p, u.migrateFrom b done applied (m :: p) =
            migrateFrom b done (applied ++ [m.hash]) ⟨db, u.executed ++ [m]⟩ p := by
          intro p
          rw [migrateFrom, if_neg (by simpa using hm), hdb]
        rw [hstep]
        rcases ih (applied ++ [m.hash]) ⟨db, u.executed ++ [m]⟩ with hall | ⟨before, n, after,
          hashes, v, e, left, rfl, hn, hrun, hbreaks⟩
        · exact .inl hall
        · exact .inr ⟨m :: before, n, after, hashes, v, e, left, rfl, hn, by rw [hstep, hrun],
            hbreaks⟩
      · exact .inr ⟨[], m, ms, applied, u, e, left, rfl, hm, rfl, hbreaks⟩

/-- A call that finds a ledger runs the steps that it does not hold. -/
theorem call_of_opened (h : b.opened u.database = .ok done) :
    b.held u.database = done ∧
      ∃ db, ∀ ms, u.call b ms = migrateFrom b done [] ⟨db, u.executed⟩ ms := by
  obtain ⟨db, hledger, hdone⟩ := exists_of_bind_eq_ok h
  have hwith : b.withLedger u.database = db := by
    rw [withLedger, hledger]
    rfl
  constructor
  · rw [held, hwith, hdone]
    rfl
  · refine ⟨db, fun ms => ?_⟩
    rw [call, hledger]
    dsimp only
    rw [hdone]

end CodeChunks.Upgrade

namespace CodeChunks.Backend

variable {δ σ ε : Type} {b : Backend δ σ ε} {db mid left : δ} {before : List (Step σ)} {m : Step σ}
  {e : ε}

/-- The steps of a list go through up to one that is pending and breaks: the database is `mid`
after the last of them and `left` after the failure. -/
structure Failure (b : Backend δ σ ε) (db : δ) (before : List (Step σ)) (m : Step σ) (mid : δ)
    (e : ε) (left : δ) : Prop where
  completes : b.migrate db before = (.ok ((b.pending db before).map (·.hash)), mid)
  pending : m.hash ∉ b.held db
  breaks : b.Breaks m mid e left

theorem Failure.call (h : b.Failure db before m mid e left) (log after : List (Step σ)) :
    (⟨db, log⟩ : Upgrade δ σ).call b (before ++ m :: after) =
      (.error e, ⟨left, log ++ b.pending db before ++ [m]⟩) := by
  have hcompletes := h.completes
  cases hopened : b.opened db with
  | error f =>
    obtain ⟨last, hlast⟩ := migrate_of_not_opened hopened before
    rw [hlast] at hcompletes
    cases hcompletes
  | ok done =>
    obtain ⟨rfl, db₀, hcall⟩ := Upgrade.call_of_opened (u := ⟨db, log⟩) hopened
    rw [← Upgrade.call_eq ⟨db, log⟩, hcall] at hcompletes
    rcases hbefore : Upgrade.migrateFrom b (b.held db) [] ⟨db₀, log⟩ before with ⟨r, v⟩
    rw [hbefore] at hcompletes
    obtain ⟨rfl, rfl⟩ : r = _ ∧ v.database = mid := Prod.mk.inj hcompletes
    obtain ⟨-, hexecuted⟩ := Upgrade.executed_of_migrateFrom hbefore
    rw [hcall, Upgrade.migrateFrom_append, hbefore]
    dsimp only
    rw [Upgrade.migrateFrom, if_neg (by simpa using h.pending), h.breaks.migrateOne_eq, hexecuted]
    rfl

/-- A run fails without a ledger, or at the first step that breaks. -/
theorem migrate_error_iff (b : Backend δ σ ε) (db : δ) (ms : List (Step σ)) :
    (∃ e left, b.migrate db ms = (.error e, left)) ↔ (∃ e, b.opened db = .error e) ∨
      ∃ before m after mid e left, ms = before ++ m :: after ∧
        b.Failure db before m mid e left := by
  constructor
  · rintro ⟨e, left, h⟩
    cases hopened : b.opened db with
    | error f => exact .inl ⟨f, rfl⟩
    | ok done =>
      obtain ⟨rfl, db₀, hcall⟩ := Upgrade.call_of_opened (u := ⟨db, []⟩) hopened
      rw [← Upgrade.call_eq ⟨db, []⟩, hcall] at h
      rcases Upgrade.migrateFrom_cases (b := b) (b.held db) [] ⟨db₀, []⟩ ms with
        ⟨hashes, v, hall⟩ | ⟨before, m, after, hashes, v, f, last, hms, hm, hrun, hbreaks⟩
      · rw [hall] at h
        cases h
      · refine .inr ⟨before, m, after, v.database, f, last, hms, ?_, hm, hbreaks⟩
        rw [← Upgrade.call_eq ⟨db, []⟩, hcall, hrun, (Upgrade.executed_of_migrateFrom hrun).1]
        rfl
  · rintro (⟨e, hopened⟩ | ⟨before, m, after, mid, e, left, rfl, h⟩)
    · exact ⟨e, migrate_of_not_opened hopened ms⟩
    · refine ⟨e, left, ?_⟩
      rw [← Upgrade.call_eq ⟨db, []⟩, h.call]

/-- A run of steps fails exactly when it finds no ledger or one of its pending steps breaks. Then no
later step is run, and of the step that broke there stays what its statements before a transaction
have done. If the step leaves the ledger alone, the ledger is that after the last step that went
through. Where nothing stays, as of a step that starts with a transaction, the list with the step
corrected ends as on a database on which the failed run was never made. -/
theorem migrate_stops (l : b.Ledger) (db : δ) (ms : List (Step σ)) :
    ((∃ e left, b.migrate db ms = (.error e, left)) ↔ (∃ e, b.opened db = .error e) ∨
      ∃ before m after mid e left, ms = before ++ m :: after ∧
        b.Failure db before m mid e left) ∧
    ∀ before m after mid e left, ms = before ++ m :: after → b.Failure db before m mid e left →
      b.migrate db ms = (.error e, left) ∧
      (∀ log, ((⟨db, log⟩ : Upgrade δ σ).call b ms).2.executed =
        log ++ b.pending db before ++ [m]) ∧
      (l.Spared m → b.hashes left = b.hashes mid) ∧
      ((∀ t ∈ m.statements.head?, b.opensTransaction t) → left = mid) ∧
      (left = mid → ∀ n, l.Supports db (before ++ n :: after) → ∃ rest last,
        b.migrate left (before ++ n :: after) = (.ok rest, last) ∧
        b.migrate db (before ++ n :: after) =
          (.ok ((b.pending db before).map (·.hash) ++ rest), last)) := by
  refine ⟨b.migrate_error_iff db ms, ?_⟩
  rintro before m after mid e left rfl h
  refine ⟨?_, ?_, h.breaks.hashes_eq, h.breaks.eq_of_opens, ?_⟩
  · rw [← Upgrade.call_eq ⟨db, []⟩, h.call]
  · intro log
    rw [h.call]
  · rintro rfl n hsupports
    obtain ⟨mid, last, hpart, hrest, hwhole⟩ := hsupports.resume
    obtain rfl : left = mid := congrArg Prod.snd (h.completes.symm.trans hpart)
    refine ⟨_, last, hrest, ?_⟩
    rw [hwhole, pending_append, List.map_append]

end CodeChunks.Backend

namespace CodeChunks.Database

/-- A step that removes the rows of a table first fails at its second statement. The rows are back
then, and the list goes through once that statement is left out. -/
theorem migrate_stops_undone :
    let db : Database := { (({} : Database).migrate [initialSchema]).2 with
      rows := { files := [⟨1, "a", [], [], 0, 0, none, 0⟩] } }
    let broken : Migration := ⟨"clear_files_v1", [.deleteRows "files", .invalid]⟩
    let corrected : Migration := ⟨"clear_files_v1", [.deleteRows "files"]⟩
    let mid := (db.migrate [magnitudeColumn]).2
    let left := (db.migrate [magnitudeColumn, broken, tokenCountColumn]).2
    db.migrate [magnitudeColumn, broken, tokenCountColumn] = (.error .operational, left) ∧
    left = mid ∧ left.rows.files.map (·.path) = ["a"] ∧
    ∃ rest last, left.migrate [magnitudeColumn, corrected, tokenCountColumn] = (.ok rest, last) ∧
      db.migrate [magnitudeColumn, corrected, tokenCountColumn] =
        (.ok (magnitudeColumn.hash :: rest), last) := by
  intro db broken corrected mid left
  have hsplit : broken.statements = [.deleteRows "files"] ++ .invalid :: [] := rfl
  have hfailure : backend.Failure db [magnitudeColumn] broken mid .operational left :=
    ⟨rfl, by decide +kernel, .statement hsplit rfl rfl rfl⟩
  have htables : ∀ m ∈ [magnitudeColumn, corrected, tokenCountColumn], ∀ t ∈ m.statements,
      t.table? ≠ some ledgerTable := by decide
  have hsupports : hashLedger.Supports db [magnitudeColumn, corrected, tokenCountColumn] :=
    ⟨by decide, fun m hm => spared_of_table? (htables m hm), rfl, Backend.succeeds_of_foldlM rfl⟩
  obtain ⟨-, hstops⟩ :=
    Backend.migrate_stops hashLedger db [magnitudeColumn, broken, tokenCountColumn]
  obtain ⟨hrun, -, -, hnothing, hagain⟩ :=
    hstops [magnitudeColumn] broken [tokenCountColumn] mid _ left rfl hfailure
  have hleft : left = mid := hnothing (by decide)
  exact ⟨hrun, hleft, rfl, hagain hleft corrected hsupports⟩

/-- The step that moves terms to chunks, run on a database without scores, fails at its last
statement and leaves the tables that it has made. On these the first step fails from then on, while
all steps go through on a database on which that run was never made. -/
theorem migrate_halfDone :
    let left := (({} : Database).migrate [chunksTable]).2
    backend.Failure {} [] chunksTable ({} : Database).withLedger .operational left ∧
    left.schema ≠ ({} : Database).withLedger.schema ∧
    (left.migrate migrations).1 = .error .operational ∧
    (({} : Database).migrate migrations).1 = .ok (migrations.map (·.hash)) := by
  intro left
  have hsplit : chunksTable.statements =
      chunksTable.statements.dropLast ++ [chunksTable.statements.getLast nofun] := rfl
  exact ⟨⟨rfl, by decide, .statement hsplit rfl rfl rfl⟩, by decide +kernel, rfl, rfl⟩

end CodeChunks.Database
