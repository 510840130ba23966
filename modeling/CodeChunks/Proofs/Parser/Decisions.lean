import CodeChunks.Proofs.Parser.Slots

/-! # Parsers are decided on once for each key

Factories come and go and parsers are asked for, in any order. Each call acts on one key within its
slot, so a history is followed one slot at a time: a parser is decided on when it is first asked
for, and stays until all decisions are dropped. -/
namespace CodeChunks

/-- A factory whose loads all come to an end. -/
abbrev EndingFactory := { f : Factory // ∀ key, f.load key ≠ .hangs }

abbrev EndingToolbox := { b : Toolbox // ∀ key, b.discover key ≠ .hangs }

namespace Session

/-- A call on factories and parsers. What discovery finds need not be the same from one call to the
next. -/
inductive Call where
  | register (name : String) (f : Option EndingFactory)
  | unregister (name : String)
  | clear
  | resolve (b : EndingToolbox) (name : String)

inductive Answer where
  | done
  | refused (e : Fault)
  | parser (h : Option Handle)
  | stopped (e : Stop)

def Answer.ofOutcome : Except Stop (Option Handle) → Answer
  | .ok h => .parser h
  | .error e => .stopped e

namespace Call

def run (s : Session) : Call → Answer × Session
  | .register name f => match s.register name (f.map (·.1)) with
    | .ok s' => (.done, s')
    | .error e => (.refused e, s)
  | .unregister name => (.done, s.unregister name)
  | .clear => (.done, s.clearCache)
  | .resolve b name => ((b.1.resolve name).run.run s).map .ofOutcome id

/-- The key that a call is about; to drop all decisions is about no key. -/
def key? : Call → Option String
  | .register name _ => some (nameKey name)
  | .unregister name => some (nameKey name)
  | .clear => none
  | .resolve _ name => some (nameKey name)

/-- Whether the call is about the key, or about all of them. -/
def concerns (key : String) (c : Call) : Bool := c.key?.all (· == key)

/-- The two calls do the same, under names that have one key. -/
inductive Agrees : Call → Call → Prop where
  | register {n n' : String} (h : nameKey n = nameKey n') (f : Option EndingFactory) :
      Agrees (.register n f) (.register n' f)
  | unregister {n n' : String} (h : nameKey n = nameKey n') :
      Agrees (.unregister n) (.unregister n')
  | clear : Agrees .clear .clear
  | resolve {n n' : String} (h : nameKey n = nameKey n') (b : EndingToolbox) :
      Agrees (.resolve b n) (.resolve b n')

/-- The factory under a key after a call, `f` being the one before. -/
def registered (key : String) (f : Option Factory) : Call → Option Factory
  | .register name (some g) => if nameKey name = key then some g.1 else f
  | .unregister name => if nameKey name = key then none else f
  | _ => f

/-- What a call makes of the slot of a key. -/
def onSlot (key : String) (t : Slot) : Call → Slot
  | .register name (some g) =>
    if nameKey name = key ∧ key ≠ "" then { t with factory := some g.1 } else t
  | .register _ none => t
  | .unregister name => if nameKey name = key then { t with factory := none } else t
  | .clear => { t with decided := none }
  | .resolve b name => if nameKey name = key ∧ key ≠ "" then t.resolved b.1 key else t

/-- What a call about a key is answered. -/
def answer (key : String) (t : Slot) : Call → Answer
  | .register _ f =>
    if key = "" then .refused .emptyName else if f.isNone then .refused .notCallable else .done
  | .resolve b _ => if key = "" then .parser none else .ofOutcome (t.outcome b.1 key)
  | _ => .done

end Call

/-- The session after a history. -/
def after (s : Session) (calls : List Call) : Session := calls.foldl (fun s c => (c.run s).2) s

/-- Every load of a factory comes to an end. -/
def Finishes (s : Session) : Prop := ∀ f ∈ s.factories, ∀ key, f.2.load key ≠ .hangs

variable {s : Session}

theorem Call.Agrees.run_eq {c c' : Call} (h : Agrees c c') (s : Session) : c.run s = c'.run s := by
  cases h with
  | register h f => simp only [run, Session.register, h]
  | unregister h => simp only [run, Session.unregister, h]
  | clear => rfl
  | resolve h b => simp only [run, Toolbox.resolve, h]

theorem Call.run_register (s : Session) (name : String) (f : Option EndingFactory) :
    (Call.register name f).run s = if nameKey name = "" then (.refused .emptyName, s) else
      match f with
      | none => (.refused .notCallable, s)
      | some g => (.done, { s with factories := Assoc.insert (nameKey name) g.1 s.factories }) := by
  by_cases hblank : nameKey name = ""
  · simp only [run, Session.register, hblank, if_true]
  · cases f with
    | none => simp only [run, Session.register, hblank, if_false, Option.map_none]
    | some g => simp only [run, Session.register, hblank, if_false, Option.map_some]

theorem Call.run_resolve (s : Session) (b : EndingToolbox) (name : String) :
    (Call.resolve b name).run s = if nameKey name = "" then (.parser none, s) else
      (.ofOutcome ((s.slot (nameKey name)).outcome b.1 (nameKey name)),
        s.resolved b.1 (nameKey name)) := by
  by_cases hblank : nameKey name = ""
  · simp only [run, Toolbox.resolve_run, hblank, if_true, Prod.map, id, Answer.ofOutcome]
  · simp only [run, Toolbox.resolve_run, hblank, if_false, Prod.map, id]

theorem Finishes.run (hs : s.Finishes) (c : Call) : (c.run s).2.Finishes := by
  cases c with
  | register name f =>
    rw [Call.run_register]
    split
    · exact hs
    cases f with
    | none => exact hs
    | some g =>
      intro p hp
      rcases Assoc.eq_or_mem_of_mem_insert hp with rfl | hp
      · exact g.2
      · exact hs p hp
  | unregister name => exact fun p hp => hs p (List.mem_of_mem_filter hp)
  | clear => exact hs
  | resolve b name =>
    rw [Call.run_resolve]
    split
    · exact hs
    · rw [Finishes, factories_resolved]
      exact hs

/-- A call acts on every key within its slot. -/
theorem slot_run (s : Session) (key : String) (c : Call) :
    (c.run s).2.slot key = c.onSlot key (s.slot key) := by
  cases c with
  | register name f =>
    rw [Call.run_register]
    by_cases hblank : nameKey name = ""
    · cases f with
      | none => simp only [hblank, if_true, Call.onSlot]
      | some g =>
        simp only [hblank, if_true, Call.onSlot]
        rw [if_neg]
        rintro ⟨rfl, h⟩
        exact h rfl
    cases f with
    | none => simp only [hblank, if_false, Call.onSlot]
    | some g =>
      by_cases hkey : nameKey name = key
      · subst hkey
        simp only [hblank, if_false, Call.onSlot, ne_eq, not_false_eq_true, and_self, if_true, slot,
          Assoc.find?_insert]
      · simp only [hblank, hkey, if_false, Call.onSlot, false_and, slot, Assoc.find?_insert]
  | unregister name =>
    by_cases hkey : nameKey name = key
    · simp only [Call.run, Call.onSlot, unregister, slot, Assoc.find?_erase, hkey, if_true]
    · simp only [Call.run, Call.onSlot, unregister, slot, Assoc.find?_erase, hkey, Ne.symm hkey,
        if_false]
  | clear => rfl
  | resolve b name =>
    rw [Call.run_resolve, Call.onSlot]
    by_cases hkey : nameKey name = key
    · subst hkey
      by_cases hblank : nameKey name = ""
      · simp only [hblank, if_true, ne_eq, not_true_eq_false, and_false, if_false]
      · simp only [hblank, if_false, ne_eq, not_false_eq_true, and_self, if_true,
          slot_resolved_self]
    · simp only [hkey, false_and, if_false]
      split
      · rfl
      · exact slot_resolved_of_ne b.1 hkey s

/-- What a call about a key is answered can be told from the slot of the key. -/
theorem answer_run (s : Session) {key : String} {c : Call} (hc : c.key? = some key) :
    (c.run s).1 = c.answer key (s.slot key) := by
  cases c with
  | register name f =>
    obtain rfl : nameKey name = key := Option.some.inj hc
    rw [Call.run_register, Call.answer]
    by_cases hblank : nameKey name = ""
    · simp only [hblank, if_true]
    · cases f <;> simp [hblank]
  | unregister name => rfl
  | clear => cases hc
  | resolve b name =>
    obtain rfl : nameKey name = key := Option.some.inj hc
    rw [Call.run_resolve, Call.answer]
    by_cases hblank : nameKey name = ""
    · simp only [hblank, if_true]
    · simp only [hblank, if_false]

theorem after_append (s : Session) (calls more : List Call) :
    s.after (calls ++ more) = (s.after calls).after more :=
  List.foldl_append

theorem Finishes.after (hs : s.Finishes) (calls : List Call) : (s.after calls).Finishes := by
  induction calls generalizing s with
  | nil => exact hs
  | cons c calls ih => exact ih (hs.run c)

theorem slot_after (s : Session) (key : String) (calls : List Call) :
    (s.after calls).slot key = calls.foldl (fun t c => c.onSlot key t) (s.slot key) := by
  induction calls generalizing s with
  | nil => rfl
  | cons c calls ih =>
    rw [after, List.foldl_cons, List.foldl_cons, ← slot_run]
    exact ih _

theorem Call.onSlot_of_not_concerns {key : String} {c : Call} (h : c.concerns key = false)
    (t : Slot) : c.onSlot key t = t := by
  cases c with
  | register name f =>
    have hne : nameKey name ≠ key := by simpa [concerns, key?] using h
    cases f <;> simp [onSlot, hne]
  | unregister name =>
    have hne : nameKey name ≠ key := by simpa [concerns, key?] using h
    simp [onSlot, hne]
  | clear => simp [concerns, key?] at h
  | resolve b name =>
    have hne : nameKey name ≠ key := by simpa [concerns, key?] using h
    simp [onSlot, hne]

/-- The slot of a key is as if nothing else had been called. -/
theorem slot_after_filter (s : Session) (key : String) (calls : List Call) :
    (s.after (calls.filter (·.concerns key))).slot key = (s.after calls).slot key := by
  rw [slot_after, slot_after, List.foldl_filter]
  congr 1
  funext t c
  by_cases h : c.concerns key
  · rw [if_pos h]
  · rw [if_neg h, Call.onSlot_of_not_concerns (Bool.eq_false_iff.mpr h)]

theorem Call.factory_onSlot {key : String} (hkey : key ≠ "") (c : Call) (t : Slot) :
    (c.onSlot key t).factory = c.registered key t.factory := by
  cases c with
  | register name f =>
    cases f with
    | none => rfl
    | some g => by_cases hname : nameKey name = key <;> simp [onSlot, registered, hname, hkey]
  | unregister name => by_cases hname : nameKey name = key <;> simp [onSlot, registered, hname]
  | clear => rfl
  | resolve b name =>
    simp only [onSlot, registered, Slot.factory_resolved, apply_ite Slot.factory, ite_self]

theorem factory_slot_after (s : Session) {key : String} (hkey : key ≠ "") (calls : List Call) :
    ((s.after calls).slot key).factory =
      calls.foldl (Call.registered key) (Assoc.find? key s.factories) := by
  have hfold : ∀ t : Slot, (calls.foldl (fun t c => c.onSlot key t) t).factory =
      calls.foldl (Call.registered key) t.factory := by
    induction calls with
    | nil => exact fun _ => rfl
    | cons c calls ih =>
      intro t
      rw [List.foldl_cons, List.foldl_cons, ih, Call.factory_onSlot hkey]
  rw [slot_after]
  exact hfold (s.slot key)

/-- Everything that a call can do within a slot: nothing, change the factory, drop the decision, or
make one. -/
theorem Call.onSlot_cases (key : String) (c : Call) (t : Slot) :
    c.onSlot key t = t ∨
    (∃ f, (∀ g ∈ f, ∀ key, g.load key ≠ .hangs) ∧ c.onSlot key t = { t with factory := f }) ∨
    (c = .clear ∧ c.onSlot key t = { t with decided := none }) ∨
    ∃ b name, c = .resolve b name ∧ nameKey name = key ∧ c.onSlot key t = t.resolved b.1 key := by
  cases c with
  | register name f =>
    cases f with
    | none => exact .inl rfl
    | some g =>
      rw [onSlot]
      split
      · exact .inr (.inl ⟨some g.1, fun f hf => Option.some.inj hf ▸ g.2, rfl⟩)
      · exact .inl rfl
  | unregister name =>
    rw [onSlot]
    split
    · exact .inr (.inl ⟨none, fun f hf => absurd hf (Option.not_mem_none f), rfl⟩)
    · exact .inl rfl
  | clear => exact .inr (.inr (.inl ⟨rfl, rfl⟩))
  | resolve b name =>
    rw [onSlot]
    by_cases hname : nameKey name = key ∧ key ≠ ""
    · exact .inr (.inr (.inr ⟨b, name, rfl, hname.1, if_pos hname⟩))
    · exact .inl (if_neg hname)

/-- Only to drop all decisions takes one back. -/
theorem Call.decided_onSlot {key : String} {c : Call} (hc : c ≠ .clear) {t : Slot}
    {h : Option Handle} (ht : t.decided = some h) : (c.onSlot key t).decided = some h := by
  rcases c.onSlot_cases key t with hstep | ⟨f, -, hstep⟩ | ⟨hclear, -⟩ | ⟨b, name, -, -, hstep⟩
  · rw [hstep, ht]
  · rw [hstep, ht]
  · exact absurd hclear hc
  · rw [hstep, Slot.resolved_of_decided ht, ht]

/-- Only to ask for a parser decides on it. -/
theorem Call.undecided_onSlot {key : String} {c : Call}
    (hc : ∀ b name, c = .resolve b name → nameKey name ≠ key) {t : Slot} (ht : t.decided = none) :
    (c.onSlot key t).decided = none := by
  rcases c.onSlot_cases key t with
    hstep | ⟨f, -, hstep⟩ | ⟨-, hstep⟩ | ⟨b, name, hresolve, hname, -⟩
  · rw [hstep, ht]
  · rw [hstep, ht]
  · rw [hstep]
  · exact absurd hname (hc b name hresolve)

theorem Call.finishes_onSlot (key : String) (c : Call) {t : Slot} (ht : t.Finishes) :
    (c.onSlot key t).Finishes := by
  rcases c.onSlot_cases key t with hstep | ⟨f, hf, hstep⟩ | ⟨-, hstep⟩ | ⟨b, name, -, -, hstep⟩
  · rwa [hstep]
  · rwa [hstep]
  · rwa [hstep]
  · rwa [hstep, Slot.Finishes, Slot.factory_resolved]

/-- What a call adds to the log under a key: nothing, or the attempts that lead to a decision. -/
theorem Call.loads_onSlot (key : String) (c : Call) {t : Slot} (ht : t.Finishes) :
    (c.onSlot key t).loads = t.loads ∨
      t.decided = none ∧ (c.onSlot key t).decided ≠ none ∧
        (c.onSlot key t).loads = t.loads ++ Toolbox.attempts t.factory key := by
  rcases c.onSlot_cases key t with hstep | ⟨f, -, hstep⟩ | ⟨-, hstep⟩ | ⟨b, name, -, -, hstep⟩
  · exact .inl (by rw [hstep])
  · exact .inl (by rw [hstep])
  · exact .inl (by rw [hstep])
  · cases hdecided : t.decided with
    | some h => exact .inl (by rw [hstep, Slot.resolved_of_decided hdecided])
    | none =>
      obtain ⟨h, hh⟩ := Slot.exists_outcome ht (b.2 key)
      refine .inr ⟨rfl, ?_, by rw [hstep, Slot.resolved, hdecided]⟩
      rw [hstep, Slot.decided_resolved, hh]
      exact Option.some_ne_none h

/-- Until all decisions are dropped, a key is loaded at most once. -/
theorem loads_foldl_onSlot {key : String} {calls : List Call} (hclear : .clear ∉ calls) {t : Slot}
    (ht : t.Finishes) :
    (calls.foldl (fun t c => c.onSlot key t) t).loads = t.loads ∨
      t.decided = none ∧ ∃ f, (calls.foldl (fun t c => c.onSlot key t) t).loads =
        t.loads ++ Toolbox.attempts f key := by
  induction calls generalizing t with
  | nil => exact .inl rfl
  | cons c calls ih =>
    rw [List.mem_cons, not_or] at hclear
    rw [List.foldl_cons]
    have hrest := ih hclear.2 (c.finishes_onSlot key ht)
    rcases c.loads_onSlot key ht with hc | ⟨hdecided, hdecided', hc⟩
    · rw [← hc]
      refine hrest.imp_right fun ⟨hdecided, hf⟩ => ⟨?_, hf⟩
      rw [Option.eq_none_iff_forall_ne_some]
      intro h hh
      rw [Call.decided_onSlot (Ne.symm hclear.1) hh] at hdecided
      cases hdecided
    · rcases hrest with h | ⟨h, -⟩
      · exact .inr ⟨hdecided, t.factory, h.trans hc⟩
      · exact absurd h hdecided'

theorem exists_loads_run (s : Session) (c : Call) :
    ∃ added, (c.run s).2.loads = s.loads ++ added := by
  cases c with
  | register name f =>
    rw [Call.run_register]
    cases f <;> split <;> exact ⟨[], by simp⟩
  | unregister name => exact ⟨[], by simp [Call.run, unregister]⟩
  | clear => exact ⟨[], by simp [Call.run, clearCache]⟩
  | resolve b name =>
    rw [Call.run_resolve]
    split
    · exact ⟨[], by simp⟩
    · exact exists_loads_resolved b.1 (nameKey name) s

theorem exists_loads_after (s : Session) (calls : List Call) :
    ∃ added, (s.after calls).loads = s.loads ++ added := by
  induction calls generalizing s with
  | nil => exact ⟨[], (List.append_nil _).symm⟩
  | cons c calls ih =>
    obtain ⟨added, hc⟩ := exists_loads_run s c
    obtain ⟨more, hmore⟩ := ih (c.run s).2
    exact ⟨added ++ more, by rw [← List.append_assoc, ← hc, ← hmore]; rfl⟩

theorem after_agrees {calls calls' : List Call} (h : List.Forall₂ Call.Agrees calls calls')
    (s : Session) : s.after calls = s.after calls' := by
  induction h generalizing s with
  | nil => rfl
  | cons hc _ ih => simpa only [after, List.foldl_cons, hc.run_eq] using ih _

/-- Until a key is asked for, or when all decisions were just dropped, nothing is decided. -/
theorem undecided_after (s : Session) {key : String} {calls : List Call}
    (hcalls : ∀ b name, .resolve b name ∈ calls → nameKey name ≠ key)
    (h : (s.slot key).decided = none) : ((s.after calls).slot key).decided = none := by
  have hfold : ∀ t : Slot, t.decided = none →
      (calls.foldl (fun t c => c.onSlot key t) t).decided = none := by
    induction calls with
    | nil => exact fun _ ht => ht
    | cons c calls ih =>
      intro t ht
      refine ih (fun b name hmem => hcalls b name (List.mem_cons_of_mem c hmem)) _ ?_
      refine Call.undecided_onSlot (fun b name hc => ?_) ht
      exact hcalls b name (hc ▸ List.mem_cons_self)
  rw [slot_after]
  exact hfold _ h

/-- A decision stays until all are dropped. -/
theorem decided_after (s : Session) {key : String} {calls : List Call}
    (hclear : .clear ∉ calls) {h : Option Handle} (hh : (s.slot key).decided = some h) :
    ((s.after calls).slot key).decided = some h := by
  have hfold : ∀ t : Slot, t.decided = some h →
      (calls.foldl (fun t c => c.onSlot key t) t).decided = some h := by
    induction calls with
    | nil => exact fun _ ht => ht
    | cons c calls ih =>
      intro t ht
      rw [List.mem_cons, not_or] at hclear
      exact ih hclear.2 _ (Call.decided_onSlot (Ne.symm hclear.1) ht)
  rw [slot_after]
  exact hfold _ hh

theorem Finishes.slot (hs : s.Finishes) (key : String) : (s.slot key).Finishes :=
  fun _ hf => hs _ (Assoc.mem_of_find? hf)

theorem decided_run_resolve (hs : s.Finishes) (b : EndingToolbox) {name : String}
    (hname : nameKey name ≠ "") : ∃ h,
      (s.slot (nameKey name)).outcome b.1 (nameKey name) = .ok h ∧
      (((Call.resolve b name).run s).2.slot (nameKey name)).decided = some h := by
  obtain ⟨h, hh⟩ := Slot.exists_outcome (hs.slot (nameKey name)) (b.2 (nameKey name))
  refine ⟨h, hh, ?_⟩
  rw [Call.run_resolve, if_neg hname, slot_resolved_self, Slot.decided_resolved, hh]
  rfl

/-- How a session comes by its parsers, whatever calls are made and in whichever order. -/
structure DecidesOnce (s : Session) : Prop where
  /-- Names with the same key are interchangeable. -/
  named : ∀ {calls calls' : List Call} {c c' : Call}, List.Forall₂ Call.Agrees calls calls' →
    Call.Agrees c c' → c.run (s.after calls) = c'.run (s.after calls')
  /-- Until all decisions are dropped, each key has its factory and discovery asked once at most. -/
  once : ∀ earlier calls : List Call, .clear ∉ calls →
    ∃ added, (s.after (earlier ++ calls)).loads = (s.after earlier).loads ++ added ∧
      ∀ key, added.countP (·.isFactory key) ≤ 1 ∧ added.count (.discovery key) ≤ 1
  /-- The first time that a key is asked for, its factory decides, or else discovery. -/
  first : ∀ (earlier calls : List Call) (b : EndingToolbox) (name : String),
    (earlier = [] ∨ ∃ before, earlier = before ++ [.clear]) →
    (∀ b' name', .resolve b' name' ∈ calls → nameKey name' ≠ nameKey name) →
    ¬ Text.allBlank name.toList →
    ((Call.resolve b name).run (s.after (earlier ++ calls))).1 =
      .parser ((((earlier ++ calls).foldl (Call.registered (nameKey name)) (s.factory? name)).bind
        fun f => (f.load (nameKey name)).handle?).or (b.1.discover (nameKey name)).handle?)
  /-- The same comes out later, until all decisions are dropped. -/
  later : ∀ (earlier calls : List Call) (b b' : EndingToolbox) (name name' : String),
    nameKey name' = nameKey name → .clear ∉ calls →
    ((Call.resolve b' name').run (s.after (earlier ++ .resolve b name :: calls))).1 =
      ((Call.resolve b name).run (s.after earlier)).1
  /-- Calls about other keys make no difference, neither to an answer nor to what is loaded. -/
  apart : ∀ (calls : List Call) (key : String),
    (s.after calls).loads.filter (·.key = key) =
        (s.after (calls.filter (·.concerns key))).loads.filter (·.key = key) ∧
      ∀ c : Call, c.key? = some key →
        (c.run (s.after calls)).1 = (c.run (s.after (calls.filter (·.concerns key)))).1
  /-- A blank name has no parser, and none is loaded for it. -/
  blank : ∀ (calls : List Call) (b : EndingToolbox) (name : String), Text.allBlank name.toList →
    (Call.resolve b name).run (s.after calls) = (.parser none, s.after calls)

/-- The attempts made under one key can be counted among those of all keys. -/
theorem counts_le {added : List Load} {key : String} (h : added.filter (·.key = key) = [] ∨
    ∃ f, added.filter (·.key = key) = Toolbox.attempts f key) :
    added.countP (·.isFactory key) ≤ 1 ∧ added.count (.discovery key) ≤ 1 := by
  have hfactory : (added.filter (·.key = key)).countP (·.isFactory key) =
      added.countP (·.isFactory key) := by
    rw [List.countP_filter]
    congr 1
    funext l
    have hkey : l.isFactory key → l.key = key := by
      rintro ⟨label, rfl⟩
      rfl
    by_cases hl : l.isFactory key <;> simp [hl, hkey]
  have hdiscovery : (added.filter (·.key = key)).count (.discovery key) =
      added.count (.discovery key) := List.count_filter (by simp [Load.key])
  rw [← hfactory, ← hdiscovery]
  rcases h with h | ⟨f, h⟩
  · rw [h]
    exact ⟨Nat.zero_le _, Nat.zero_le _⟩
  · rw [h]
    exact ⟨Toolbox.countP_attempts_le f key key, Toolbox.count_attempts_le f key key⟩

/-- A session that starts without decisions decides on the parser of each key once. -/
theorem decidesOnce (hcache : s.cache = []) (hs : s.Finishes) : s.DecidesOnce where
  named h hc := by
    rw [after_agrees h s, hc.run_eq]
  once earlier calls hclear := by
    obtain ⟨added, hadded⟩ := exists_loads_after (s.after earlier) calls
    rw [after_append]
    refine ⟨added, hadded, fun key => counts_le ?_⟩
    have hslot := congrArg Slot.loads (slot_after (s.after earlier) key calls)
    have hloads : (((s.after earlier).after calls).slot key).loads =
        ((s.after earlier).slot key).loads ++ added.filter (·.key = key) := by
      simp only [slot, hadded, List.filter_append]
    rw [hloads] at hslot
    rcases loads_foldl_onSlot hclear ((hs.after earlier).slot key) with h | ⟨-, f, h⟩
    · exact .inl (List.append_right_eq_self.mp (hslot.trans h))
    · exact .inr ⟨f, List.append_cancel_left (hslot.trans h)⟩
  first earlier calls b name hearlier hcalls hblank := by
    have hkey : nameKey name ≠ "" := mt nameKey_eq_empty_iff.mp hblank
    have hundecided : ((s.after earlier).slot (nameKey name)).decided = none := by
      rcases hearlier with rfl | ⟨before, rfl⟩
      · rw [after, List.foldl_nil, slot, hcache]
        rfl
      · rw [after_append]
        rfl
    have hundecided' := undecided_after (s.after earlier) hcalls hundecided
    rw [← after_append] at hundecided'
    have hfactory := factory_slot_after s hkey (earlier ++ calls)
    have hdecision := Toolbox.decision_eq_ok
      (fun f hf => (hs.after (earlier ++ calls)).slot (nameKey name) f hf (nameKey name))
      (b.2 (nameKey name))
    rw [answer_run _ rfl, Call.answer, if_neg hkey, Slot.outcome, hundecided', hdecision, hfactory]
    rfl
  later earlier calls b b' name name' hname hclear := by
    have hafter : s.after (earlier ++ .resolve b name :: calls) =
        (((Call.resolve b name).run (s.after earlier)).2).after calls := by
      rw [after_append, after, List.foldl_cons]
      rfl
    have hname' : (Call.resolve b' name').key? = some (nameKey name) := congrArg some hname
    rw [hafter, answer_run _ hname', answer_run (s.after earlier) rfl, Call.answer, Call.answer]
    by_cases hblank : nameKey name = ""
    · rw [if_pos hblank, if_pos hblank]
    · obtain ⟨h, hh, hdecided⟩ := decided_run_resolve (hs.after earlier) b hblank
      rw [if_neg hblank, if_neg hblank, Slot.outcome, decided_after _ hclear hdecided, hh]
  apart calls key := by
    have hslot := slot_after_filter s key calls
    refine ⟨(congrArg Slot.loads hslot).symm, fun c hc => ?_⟩
    rw [answer_run _ hc, answer_run _ hc, hslot]
  blank calls b name hblank := by
    rw [Call.run_resolve, if_pos (nameKey_eq_empty_iff.mpr hblank)]

/-- A session with a factory that fails. -/
theorem decidesOnce_of_failing_factory :
    ({ factories := [("a", { load := fun _ => .failed })] } : Session).DecidesOnce := by
  refine decidesOnce rfl fun f hf key => ?_
  rw [List.mem_singleton.mp hf]
  exact Loaded.noConfusion

end Session

end CodeChunks
