/-! # Steps that change a state until one fails

What was changed before a fault stays. -/
namespace CodeChunks

/-- What gives a result has given one at each step. -/
theorem exists_of_bind_eq_ok {ε α β : Type} {x : Except ε α} {f : α → Except ε β} {b : β}
    (h : x >>= f = .ok b) : ∃ a, x = .ok a ∧ f a = .ok b := by
  cases x with
  | error e => cases h
  | ok a => exact ⟨a, rfl, h⟩

namespace Steps

variable {ε σ α β : Type} (s : σ)

theorem run_bind (m : ExceptT ε (StateM σ) β) (f : β → ExceptT ε (StateM σ) α) :
    (m >>= f).run.run s = match m.run.run s with
      | (.ok b, t) => (f b).run.run t
      | (.error e, t) => (.error e, t) := by
  rw [ExceptT.run_bind, StateT.run_bind]
  rcases m.run.run s with ⟨_ | _, _⟩ <;> rfl

theorem run_get : (get : ExceptT ε (StateM σ) σ).run.run s = (.ok s, s) := rfl

theorem run_set (t : σ) : (set t : ExceptT ε (StateM σ) PUnit).run.run s = (.ok ⟨⟩, t) := rfl

theorem run_modify (f : σ → σ) :
    (modify f : ExceptT ε (StateM σ) PUnit).run.run s = (.ok ⟨⟩, f s) := rfl

theorem run_ofExcept (r : Except ε α) :
    (MonadExcept.ofExcept r : ExceptT ε (StateM σ) α).run.run s = (r, s) := by
  cases r <;> rfl

/-- A computation that reads no more of a state than related states share, and that ends in a state
related to the one at its start, be it with a fault. -/
structure Isolated (r : Setoid σ) (m : ExceptT ε (StateM σ) α) : Prop where
  leaves : ∀ s, r.r s (m.run.run s).2
  reads : ∀ s t, r.r s t → (m.run.run s).1 = (m.run.run t).1

variable (r : Setoid σ)

theorem isolated_pure (a : α) : Isolated r (pure a : ExceptT ε (StateM σ) α) :=
  ⟨r.refl, fun _ _ _ => rfl⟩

theorem isolated_throw (e : ε) : Isolated r (throw e : ExceptT ε (StateM σ) α) :=
  ⟨r.refl, fun _ _ _ => rfl⟩

theorem isolated_modify {f : σ → σ} (hf : ∀ s, r.r s (f s)) :
    Isolated r (modify f : ExceptT ε (StateM σ) PUnit) :=
  ⟨hf, fun _ _ _ => rfl⟩

variable {r}

theorem Isolated.bind {m : ExceptT ε (StateM σ) β} {f : β → ExceptT ε (StateM σ) α}
    (hm : Isolated r m) (hf : ∀ a, Isolated r (f a)) : Isolated r (m >>= f) := by
  constructor
  · intro s
    have hleaves := hm.leaves s
    rw [run_bind]
    rcases hs : m.run.run s with ⟨e | a, s'⟩ <;> rw [hs] at hleaves
    · exact hleaves
    · exact r.trans hleaves ((hf a).leaves s')
  · intro s t hst
    have hreads := hm.reads s t hst
    -- both runs of the first part end alike, so that the second parts start alike
    have hst' := r.trans (r.trans (r.symm (hm.leaves s)) hst) (hm.leaves t)
    rw [run_bind, run_bind]
    rcases hs : m.run.run s with ⟨x, s'⟩
    rcases ht : m.run.run t with ⟨y, t'⟩
    rw [hs, ht] at hreads hst'
    obtain rfl : x = y := hreads
    cases x with
    | error e => rfl
    | ok a => exact (hf a).reads s' t' hst'

end Steps

end CodeChunks
