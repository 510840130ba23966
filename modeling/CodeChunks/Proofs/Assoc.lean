import CodeChunks.Lists
import Mathlib.Data.List.Nodup

/-! # Looking up what was inserted -/
namespace CodeChunks.Assoc

variable {κ β : Type} [DecidableEq κ]

theorem find?_insert (k k' : κ) (v : β) (m : List (κ × β)) :
    find? k' (insert k v m) = if k = k' then some v else find? k' m := by
  induction m with
  | nil => simp [insert, find?]
  | cons p m ih =>
    by_cases h : p.1 = k
    · simp only [insert, find?, h, ↓reduceIte]
      split <;> rfl
    · simp only [insert, find?, h, ↓reduceIte, ih]
      grind

theorem insert_insert (k : κ) (v w : β) (m : List (κ × β)) :
    insert k v (insert k w m) = insert k v m := by
  induction m with
  | nil => simp [insert]
  | cons p m ih =>
    by_cases hp : p.1 = k
    · simp [insert, hp]
    · simp [insert, hp, ih]

theorem insert_eq_self {k : κ} {v : β} {m : List (κ × β)} (h : find? k m = some v) :
    insert k v m = m := by
  induction m with
  | nil => cases h
  | cons p m ih =>
    rw [find?] at h
    rw [insert]
    by_cases hp : p.1 = k
    · rw [if_pos hp] at h
      cases h
      rw [if_pos hp, ← hp]
    · rw [if_neg hp] at h
      rw [if_neg hp, ih h]

theorem insert_of_notMem {k : κ} (v : β) {m : List (κ × β)} (h : k ∉ keys m) :
    insert k v m = m ++ [(k, v)] := by
  induction m with
  | nil => rfl
  | cons p m ih =>
    rw [keys, List.map_cons, List.mem_cons, not_or] at h
    rw [insert, if_neg (Ne.symm h.1), ih h.2]
    rfl

theorem insert_eq_map {k : κ} (v : β) {m : List (κ × β)} (hm : (keys m).Nodup) (h : k ∈ keys m) :
    insert k v m = m.map fun p => if p.1 = k then (k, v) else p := by
  induction m with
  | nil => cases h
  | cons p m ih =>
    rw [keys, List.map_cons] at hm h
    obtain ⟨hp, hm⟩ := List.nodup_cons.mp hm
    rw [insert, List.map_cons]
    by_cases hpk : p.1 = k
    · rw [if_pos hpk, if_pos hpk]
      have hself : ∀ q ∈ m, (if q.1 = k then (k, v) else q) = q := by
        intro q hq
        have hqk : q.1 ≠ k := by
          rintro rfl
          exact hp (hpk ▸ List.mem_map_of_mem hq)
        exact if_neg hqk
      rw [List.map_congr_left hself, List.map_id']
    · have hk : k ∈ keys m := by
        rcases List.mem_cons.mp h with hk | hk
        · exact absurd hk.symm hpk
        · exact hk
      rw [if_neg hpk, if_neg hpk, ih hm hk]

theorem eq_or_mem_of_mem_insert {k : κ} {v : β} {m : List (κ × β)} {p : κ × β}
    (h : p ∈ insert k v m) : p = (k, v) ∨ p ∈ m := by
  induction m with
  | nil => exact .inl (List.mem_singleton.mp h)
  | cons q m ih =>
    rw [insert] at h
    split at h
    · rcases List.mem_cons.mp h with h | h
      · exact .inl h
      · exact .inr (List.mem_cons_of_mem q h)
    · rcases List.mem_cons.mp h with h | h
      · exact .inr (h ▸ List.mem_cons_self)
      · exact (ih h).imp_right (List.mem_cons_of_mem q)

theorem find?_filter (q : κ → Bool) (k : κ) (m : List (κ × β)) :
    find? k (m.filter fun p => q p.1) = if q k then find? k m else none := by
  induction m with
  | nil => simp [find?]
  | cons p m ih =>
    by_cases hp : p.1 = k
    · cases hq : q k <;> simp [find?, hp, hq, ih]
    · cases hq : q p.1 <;> simp [find?, hp, hq, ih]

theorem mem_of_find? {k : κ} {v : β} {m : List (κ × β)} (h : find? k m = some v) : (k, v) ∈ m := by
  induction m with
  | nil => cases h
  | cons p m ih =>
    rw [find?] at h
    by_cases hp : p.1 = k
    · rw [if_pos hp] at h
      cases h
      exact hp ▸ List.mem_cons_self
    · rw [if_neg hp] at h
      exact List.mem_cons_of_mem _ (ih h)

theorem find?_eq_some_iff {k : κ} {v : β} {m : List (κ × β)} (hm : (keys m).Nodup) :
    find? k m = some v ↔ (k, v) ∈ m := by
  constructor
  · exact mem_of_find?
  · intro h
    induction m with
    | nil => cases h
    | cons p m ih =>
      obtain ⟨hp, hm⟩ := List.nodup_cons.mp hm
      rcases List.mem_cons.mp h with rfl | h
      · simp [find?]
      · have hpk : p.1 ≠ k := fun hpk => hp (hpk ▸ List.mem_map_of_mem h)
        rw [find?, if_neg hpk, ih hm h]

theorem has_iff_mem_keys (k : κ) (m : List (κ × β)) : has k m ↔ k ∈ keys m := by
  rw [has]
  induction m with
  | nil => simp [find?, keys]
  | cons p m ih =>
    rw [find?, keys, List.map_cons, List.mem_cons, ← keys, ← ih]
    by_cases hp : p.1 = k
    · simp [hp]
    · simp [hp, Ne.symm hp]

theorem keys_insert (k : κ) (v : β) (m : List (κ × β)) :
    keys (insert k v m) = if k ∈ keys m then keys m else keys m ++ [k] := by
  induction m with
  | nil => rfl
  | cons p m ih =>
    by_cases hp : p.1 = k
    · simp [insert, keys, hp]
    · have hcons : keys (insert k v (p :: m)) = p.1 :: keys (insert k v m) := by
        rw [insert, if_neg hp]
        rfl
      rw [hcons, ih]
      by_cases hk : k ∈ keys m
      · have hk' : k ∈ keys (p :: m) := List.mem_cons_of_mem p.1 hk
        rw [if_pos hk, if_pos hk']
        rfl
      · have hk' : k ∉ keys (p :: m) := List.not_mem_cons_of_ne_of_not_mem (Ne.symm hp) hk
        rw [if_neg hk, if_neg hk']
        rfl

theorem keys_erase {k : κ} {m : List (κ × β)} (hm : (keys m).Nodup) :
    keys (erase k m) = (keys m).erase k := by
  rw [hm.erase_eq_filter, erase, keys, keys, List.filter_map]
  congr 1
  apply List.filter_congr
  intro p _
  by_cases hp : p.1 = k <;> simp [hp]

theorem find?_erase (k k' : κ) (m : List (κ × β)) :
    find? k' (erase k m) = if k' = k then none else find? k' m := by
  rw [erase, find?_filter (fun j => decide (j ≠ k))]
  by_cases h : k' = k <;> simp [h]

theorem find?_append (k : κ) (m n : List (κ × β)) :
    find? k (m ++ n) = (find? k m).or (find? k n) := by
  induction m with
  | nil => rfl
  | cons p m ih =>
    rw [List.cons_append, find?, find?]
    split
    · rfl
    · exact ih

theorem find?_insertNew (k k' : κ) (v : β) (m : List (κ × β)) :
    find? k' (insertNew k v m) = (find? k' m).or (if k = k' then some v else none) := by
  rw [insertNew, has]
  cases hk : find? k m with
  | none => simp [find?_append, find?]
  | some w =>
    by_cases hkk' : k = k'
    · simp [← hkk', hk]
    · simp [hkk']

theorem find?_foldl_insertNew (k : κ) (v : β) (ks : List κ) (m : List (κ × β)) :
    find? k (ks.foldl (fun m k => insertNew k v m) m) =
      (find? k m).or (if k ∈ ks then some v else none) := by
  induction ks generalizing m with
  | nil => simp
  | cons k' ks ih =>
    rw [List.foldl_cons, ih, find?_insertNew, Option.or_assoc]
    congr 1
    by_cases hk : k' = k
    · simp [hk]
    · simp [hk, Ne.symm hk]

section

variable {α : Type}

/-- Where each entry is new at its keys, a key stays with the first entry that has it. -/
theorem find?_foldl_first (f : α → List κ) (g : α → β) (k : κ) (xs : List α)
    (m : List (κ × β)) :
    find? k (xs.foldl (fun m x => (f x).foldl (fun m k => insertNew k (g x) m) m) m) =
      (find? k m).or ((xs.find? fun x => k ∈ f x).map g) := by
  induction xs generalizing m with
  | nil => simp
  | cons x xs ih =>
    rw [List.foldl_cons, ih, find?_foldl_insertNew, Option.or_assoc, List.find?_cons]
    congr 1
    by_cases hk : k ∈ f x <;> simp [hk]

/-- Where each entry is inserted, a key has the last one. -/
theorem find?_foldl_last (f : α → κ) (g : α → β) (k : κ) (xs : List α) (m : List (κ × β)) :
    find? k (xs.foldl (fun m x => insert (f x) (g x) m) m) =
      ((xs.findRev? fun x => f x = k).map g).or (find? k m) := by
  induction xs generalizing m with
  | nil => rfl
  | cons x xs ih =>
    rw [List.foldl_cons, ih, find?_insert, List.findRev?]
    cases xs.findRev? fun x => f x = k with
    | some y => rfl
    | none => by_cases hk : f x = k <;> simp [hk]

end

variable {γ : Type}

/-- Tables with the same keys in the same order, each value with the one beside it as `R` says. -/
def Beside (R : β → γ → Prop) (m : List (κ × β)) (n : List (κ × γ)) : Prop :=
  List.Forall₂ (fun p q => p.1 = q.1 ∧ R p.2 q.2) m n

variable {R : β → γ → Prop} {m : List (κ × β)} {n : List (κ × γ)}

theorem Beside.insert {v : β} {w : γ} (h : Beside R m n) (k : κ) (hvw : R v w) :
    Beside R (insert k v m) (insert k w n) := by
  induction h with
  | nil => exact .cons ⟨rfl, hvw⟩ .nil
  | cons hp ht ih =>
    rw [Assoc.insert, Assoc.insert, ← hp.1]
    split
    · exact .cons ⟨rfl, hvw⟩ ht
    · exact .cons ⟨rfl, hp.2⟩ ih

theorem Beside.erase (h : Beside R m n) (k : κ) : Beside R (erase k m) (erase k n) := by
  induction h with
  | nil => exact .nil
  | @cons p q _ _ hp _ ih =>
    by_cases hk : p.1 = k
    · have hk' : q.1 = k := hp.1 ▸ hk
      simpa [Beside, Assoc.erase, hk, hk'] using ih
    · have hk' : q.1 ≠ k := hp.1 ▸ hk
      simpa [Beside, Assoc.erase, hk, hk'] using And.intro hp ih

omit [DecidableEq κ] in
theorem Beside.exists_beside (h : Beside R m n) {q : κ × γ} (hq : q ∈ n) : ∃ v, R v q.2 := by
  induction h with
  | nil => cases hq
  | @cons p r _ _ hp _ ih =>
    rcases List.mem_cons.mp hq with rfl | hq
    · exact ⟨p.2, hp.2⟩
    · exact ih hq

end CodeChunks.Assoc
