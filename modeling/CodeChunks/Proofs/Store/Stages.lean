import CodeChunks.Proofs.Steps
import CodeChunks.Store.Migration

/-! # What the statements of a step reach, and what is left of them

The statements of a step that stand before the first one to open a transaction take effect at once
and stay when the step fails; the others are undone. What the statements do is left open. -/
namespace CodeChunks.Backend

variable {δ σ ε : Type} (b : Backend δ σ ε)

/-- The statements before the first that opens a transaction. -/
def lasting (ts : List σ) : List σ := ts.takeWhile fun t => !b.opensTransaction t

/-- What stays of some statements when they are undone. -/
def residue (s : Stage δ) (ts : List σ) : Except ε δ :=
  match s.mark with
  | some db => .ok db
  | none => (b.lasting ts).foldlM b.execute s.current

variable {b} {s : Stage δ} {t : σ} {ts : List σ} {e : ε} {db : δ}

theorem lasting_eq_nil (h : ∀ t ∈ ts.head?, b.opensTransaction t) : b.lasting ts = [] := by
  cases ts with
  | nil => rfl
  | cons t ts => exact List.takeWhile_cons_of_neg (by simp [h t rfl])

theorem foldlM_cons_of_ok {next : δ} (h : b.execute db t = .ok next) (ts : List σ) :
    (t :: ts).foldlM b.execute db = ts.foldlM b.execute next := by
  rw [List.foldlM_cons, h]
  rfl

/-- Statements that go through begin with one that does. -/
theorem exists_of_foldlM_cons {last : δ} (h : (t :: ts).foldlM b.execute db = .ok last) :
    ∃ next, b.execute db t = .ok next ∧ ts.foldlM b.execute next = .ok last := by
  rw [List.foldlM_cons] at h
  exact exists_of_bind_eq_ok h

theorem current_ready (s : Stage δ) (t : σ) : (b.ready s t).current = s.current := by
  rw [ready]
  split <;> rfl

theorem rollback_ready (s : Stage δ) (t : σ) : (b.ready s t).rollback = s.rollback := by
  rw [ready]
  split <;> rfl

theorem run_cons_of_ok (h : b.execute s.current t = .ok db) (ts : List σ) :
    b.run s (t :: ts) = b.run { b.ready s t with current := db } ts := by
  simp only [run, current_ready, h]

theorem run_cons_of_error (h : b.execute s.current t = .error e) (ts : List σ) :
    b.run s (t :: ts) = .error (e, s.rollback) := by
  simp only [run, current_ready, h, rollback_ready]

theorem residue_nil (s : Stage δ) : b.residue s [] = .ok s.rollback := by
  rw [residue, Stage.rollback]
  cases s.mark <;> rfl

/-- A statement that goes through stays unless a transaction is open. -/
theorem residue_cons (h : b.execute s.current t = .ok db) :
    b.residue s (t :: ts) = b.residue { b.ready s t with current := db } ts := by
  rw [residue, residue, ready, lasting]
  cases hmark : s.mark with
  | some mark =>
    cases b.opensTransaction t with
    | true => simp [Stage.begin, hmark]
    | false => simp [hmark]
  | none =>
    cases ht : b.opensTransaction t with
    | true =>
      rw [List.takeWhile_cons_of_neg (by simp [ht])]
      simp [Stage.begin, hmark]
      rfl
    | false =>
      rw [List.takeWhile_cons_of_pos (by simp [ht]), foldlM_cons_of_ok h]
      simp only [Bool.false_eq_true, ↓reduceIte, hmark]
      rfl

/-- Statements that go through leave a database and what to go back to from there. -/
theorem run_of_foldlM (h : ts.foldlM b.execute s.current = .ok db) :
    ∃ r, b.run s ts = .ok r ∧ r.current = db ∧ b.residue s ts = .ok r.rollback := by
  induction ts generalizing s with
  | nil =>
    cases h
    exact ⟨s, rfl, rfl, residue_nil s⟩
  | cons t ts ih =>
    obtain ⟨next, ht, hts⟩ := exists_of_foldlM_cons h
    rw [run_cons_of_ok ht, residue_cons ht]
    exact ih hts

/-- A statement that fails leaves what stays of those before it. -/
theorem run_append_cons (h : ts.foldlM b.execute s.current = .ok db)
    (ht : b.execute db t = .error e) (us : List σ) :
    ∃ left, b.run s (ts ++ t :: us) = .error (e, left) ∧ b.residue s ts = .ok left := by
  induction ts generalizing s with
  | nil =>
    cases h
    exact ⟨s.rollback, run_cons_of_error ht us, residue_nil s⟩
  | cons u ts ih =>
    obtain ⟨next, hu, hts⟩ := exists_of_foldlM_cons h
    rw [List.cons_append, run_cons_of_ok hu, residue_cons hu]
    exact ih hts

/-- Statements go through, or one of them is the first to fail. -/
theorem foldlM_cases (b : Backend δ σ ε) (db : δ) (ts : List σ) :
    (∃ last, ts.foldlM b.execute db = .ok last) ∨
    ∃ us t vs reached e, ts = us ++ t :: vs ∧ us.foldlM b.execute db = .ok reached ∧
      b.execute reached t = .error e := by
  induction ts generalizing db with
  | nil => exact .inl ⟨db, rfl⟩
  | cons t ts ih =>
    cases ht : b.execute db t with
    | error e => exact .inr ⟨[], t, ts, db, e, rfl, rfl, ht⟩
    | ok next =>
      rcases ih next with ⟨last, hlast⟩ | ⟨us, u, vs, reached, e, rfl, hus, hu⟩
      · exact .inl ⟨last, (foldlM_cons_of_ok ht ts).trans hlast⟩
      · exact .inr ⟨t :: us, u, vs, reached, e, rfl, (foldlM_cons_of_ok ht us).trans hus, hu⟩

end CodeChunks.Backend
