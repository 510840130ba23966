import CodeChunks.Grammar.Flatten
import Mathlib.Data.List.Basic

/-! # The nodes that a flattening keeps, in pre-order

A node of a parse is known by its place, the numbers of the children on the way down from the root.
Places in the order of lists are nodes in pre-order, and the places above a place are its
beginnings. -/
namespace CodeChunks

/-- Which child of which child of the root. -/
abbrev Place := List Nat

/-- The node at a place below a node. -/
def GrammarNode.at? : GrammarNode → Place → Option GrammarNode
  | n, [] => some n
  | n, i :: p => match n.children[i]? with
    | none => none
    | some c => c.at? p

theorem GrammarNode.at?_cons {n g : GrammarNode} {i : Nat} {p : Place} :
    n.at? (i :: p) = some g ↔ ∃ c, n.children[i]? = some c ∧ c.at? p = some g := by
  rw [at?]
  cases n.children[i]? <;> simp

/-- One place stands above another. -/
def Place.Above (p q : Place) : Prop := p <+: q ∧ p ≠ q

theorem Place.above_append {p q : Place} (h : q ≠ []) : p.Above (p ++ q) :=
  ⟨List.prefix_append p q, by simpa using h.symm⟩

namespace Flattening

/-- A node that is kept, with its place and the number of the kept node above it. -/
structure Entry where
  place : Place
  node : GrammarNode
  parent : Option Nat

mutual

/-- The nodes kept from a node at a place, in pre-order; `next` is the number of the first. -/
def entries (f : Flattening) (place : Place) (parent : Option Nat) (next : Nat) :
    GrammarNode → List Entry
  | .mk type start stop cs =>
    if parent.isSome && f.transparent.contains type then entriesAll f place parent next 0 cs
    else ⟨place, .mk type start stop cs, parent⟩ ::
      entriesAll f place (some next) (next + 1) 0 cs

/-- The nodes kept from the children of a place from number `i` on. -/
def entriesAll (f : Flattening) (place : Place) (parent : Option Nat) (next i : Nat) :
    List GrammarNode → List Entry
  | [] => []
  | n :: ns =>
    let es := entries f (place ++ [i]) parent next n
    es ++ entriesAll f place parent (next + es.length) (i + 1) ns

end

variable {f : Flattening}

/-- A node is kept at the top, or if its type is not transparent. -/
def Keeps (f : Flattening) (parent : Option Nat) (p : Place) (g : GrammarNode) : Prop :=
  (p = [] ∧ parent = none) ∨ g.type ∉ f.transparent

mutual

/-- The nodes kept are those at all places, the transparent ones apart. -/
theorem mem_entries (place : Place) (parent : Option Nat) (next : Nat) (n : GrammarNode)
    (q : Place) (g : GrammarNode) :
    (∃ e ∈ f.entries place parent next n, e.place = q ∧ e.node = g) ↔
      ∃ p, q = place ++ p ∧ n.at? p = some g ∧ f.Keeps parent p g := by
  match n with
  | .mk type start stop cs =>
    have hbelow : ∀ k next', (∃ e ∈ f.entriesAll place (some k) next' 0 cs,
        e.place = q ∧ e.node = g) ↔ ∃ i p, q = place ++ i :: p ∧
          (GrammarNode.mk type start stop cs).at? (i :: p) = some g ∧ g.type ∉ f.transparent := by
      intro k next'
      rw [mem_entriesAll place k next' 0 cs q g]
      simp only [GrammarNode.at?_cons, GrammarNode.children, Nat.zero_add]
      constructor
      · rintro ⟨i, c, p, hq, hi, hp, hkept⟩
        exact ⟨i, p, hq, ⟨c, hi, hp⟩, hkept⟩
      · rintro ⟨i, p, hq, ⟨c, hi, hp⟩, hkept⟩
        exact ⟨i, c, p, hq, hi, hp, hkept⟩
    rw [entries]
    by_cases hskip : parent.isSome && f.transparent.contains type
    · rw [if_pos hskip]
      rw [Bool.and_eq_true, List.contains_iff_mem] at hskip
      obtain ⟨k, rfl⟩ := Option.isSome_iff_exists.mp hskip.1
      rw [hbelow]
      constructor
      · rintro ⟨i, p, hq, hp, hkept⟩
        exact ⟨i :: p, hq, hp, .inr hkept⟩
      · rintro ⟨p, hq, hp, hkept⟩
        have htype : g.type ∉ f.transparent := hkept.resolve_left (by simp)
        cases p with
        | nil =>
          cases hp
          exact absurd hskip.2 htype
        | cons i p => exact ⟨i, p, hq, hp, htype⟩
    · rw [if_neg hskip]
      simp only [List.mem_cons, or_and_right, exists_or, exists_eq_left, hbelow]
      constructor
      · rintro (⟨rfl, rfl⟩ | ⟨i, p, hq, hp, hkept⟩)
        · refine ⟨[], (List.append_nil _).symm, rfl, ?_⟩
          cases parent with
          | none => exact .inl ⟨rfl, rfl⟩
          | some k =>
            have htype : type ∉ f.transparent := by simpa using hskip
            exact .inr htype
        · exact ⟨i :: p, hq, hp, .inr hkept⟩
      · rintro ⟨p, hq, hp, hkept⟩
        cases p with
        | nil =>
          cases hp
          exact .inl ⟨(hq.trans (List.append_nil _)).symm, rfl⟩
        | cons i p => exact .inr ⟨i, p, hq, hp, hkept.resolve_left (by simp)⟩

theorem mem_entriesAll (place : Place) (parent next i : Nat) (ns : List GrammarNode)
    (q : Place) (g : GrammarNode) :
    (∃ e ∈ f.entriesAll place (some parent) next i ns, e.place = q ∧ e.node = g) ↔
      ∃ j c p, q = place ++ (i + j) :: p ∧ ns[j]? = some c ∧ c.at? p = some g ∧
        g.type ∉ f.transparent := by
  match ns with
  | [] => simp [entriesAll]
  | n :: ns =>
    simp only [entriesAll, List.mem_append, or_and_right, exists_or]
    rw [mem_entries (place ++ [i]) (some parent) next n q g, mem_entriesAll place parent _ _ ns q g]
    constructor
    · rintro (⟨p, rfl, hp, hkept⟩ | ⟨j, c, p, rfl, hj, hp, hkept⟩)
      · exact ⟨0, n, p, by simp, rfl, hp, hkept.resolve_left (by simp)⟩
      · exact ⟨j + 1, c, p, by simp [Nat.add_assoc, Nat.add_comm 1], hj, hp, hkept⟩
    · rintro ⟨j, c, p, rfl, hj, hp, hkept⟩
      cases j with
      | zero =>
        cases hj
        exact .inl ⟨p, by simp, hp, .inr hkept⟩
      | succ j => exact .inr ⟨j, c, p, by simp [Nat.add_assoc, Nat.add_comm 1], hj, hp, hkept⟩

end

theorem place_of_mem_entries {place : Place} {parent : Option Nat} {next : Nat} {n : GrammarNode}
    {e : Entry} (h : e ∈ f.entries place parent next n) : ∃ p, e.place = place ++ p := by
  obtain ⟨p, hp, -⟩ := (mem_entries place parent next n e.place e.node).mp ⟨e, h, rfl, rfl⟩
  exact ⟨p, hp⟩

theorem place_of_mem_entriesAll {place : Place} {parent next i : Nat} {ns : List GrammarNode}
    {e : Entry} (h : e ∈ f.entriesAll place (some parent) next i ns) :
    ∃ j p, e.place = place ++ (i + j) :: p := by
  obtain ⟨j, c, p, hp, -⟩ :=
    (mem_entriesAll place parent next i ns e.place e.node).mp ⟨e, h, rfl, rfl⟩
  exact ⟨j, p, hp⟩

theorem lt_append_of_ne_nil (p : Place) {q : Place} (h : q ≠ []) : p < p ++ q := by
  obtain ⟨i, q, rfl⟩ := List.exists_cons_of_ne_nil h
  have hlt : p ++ [] < p ++ i :: q := List.append_left_lt (List.nil_lt_cons i q)
  rwa [List.append_nil] at hlt

/-- What is below one child comes before what is below a later one, and neither is above the
other. -/
theorem siblings_lt (place p q : Place) {i j : Nat} (h : i < j) :
    place ++ i :: p < place ++ j :: q :=
  List.append_left_lt (List.cons_lt_cons_iff.mpr (.inl h))

theorem not_prefix_siblings (place p q : Place) {i j : Nat} (h : i ≠ j) :
    ¬ place ++ i :: p <+: place ++ j :: q := by
  rw [List.prefix_append_right_inj, List.cons_prefix_cons]
  exact fun hp => h hp.1

mutual

/-- The nodes kept are in pre-order. -/
theorem pairwise_entries (place : Place) (parent : Option Nat) (next : Nat) (n : GrammarNode) :
    (f.entries place parent next n).Pairwise fun e e' => e.place < e'.place := by
  match n with
  | .mk type start stop cs =>
    rw [entries]
    by_cases hskip : parent.isSome && f.transparent.contains type
    · rw [if_pos hskip]
      rw [Bool.and_eq_true] at hskip
      obtain ⟨k, rfl⟩ := Option.isSome_iff_exists.mp hskip.1
      exact pairwise_entriesAll place k next 0 cs
    · rw [if_neg hskip, List.pairwise_cons]
      refine ⟨?_, pairwise_entriesAll place next (next + 1) 0 cs⟩
      intro e he
      obtain ⟨j, p, hp⟩ := place_of_mem_entriesAll he
      rw [hp]
      exact lt_append_of_ne_nil place (List.cons_ne_nil _ _)

theorem pairwise_entriesAll (place : Place) (parent next i : Nat) (ns : List GrammarNode) :
    (f.entriesAll place (some parent) next i ns).Pairwise fun e e' => e.place < e'.place := by
  match ns with
  | [] => exact .nil
  | n :: ns =>
    rw [entriesAll]
    refine List.pairwise_append.mpr
      ⟨pairwise_entries _ _ next n, pairwise_entriesAll place parent _ _ ns, ?_⟩
    intro e he e' he'
    obtain ⟨p, hp⟩ := place_of_mem_entries he
    obtain ⟨j, q, hq⟩ := place_of_mem_entriesAll he'
    rw [hp, hq, List.append_assoc]
    exact siblings_lt place p q (by omega)

end

/-- The number of an entry's parent is that of the nearest entry above it, or the outer one where
there is no entry above it. -/
def Parented (outer : Option Nat) (next : Nat) (es : List Entry) (e : Entry) : Prop :=
  (e.parent = outer ∧ ∀ e' ∈ es, ¬ e'.place.Above e.place) ∨
    ∃ j above, es[j]? = some above ∧ e.parent = some (next + j) ∧ above.place.Above e.place ∧
      ∀ e' ∈ es, e'.place.Above e.place → e'.place <+: above.place

section

variable {outer : Option Nat} {next : Nat} {es : List Entry} {e : Entry}

/-- Entries that are not above an entry do not change what is above it. -/
theorem Parented.append_right {es' : List Entry} (h : Parented outer next es e)
    (hnot : ∀ e' ∈ es', ¬ e'.place.Above e.place) : Parented outer next (es ++ es') e := by
  obtain ⟨houter, hnone⟩ | ⟨j, above, hj, hparent, habove, hnearest⟩ := h
  · refine .inl ⟨houter, ?_⟩
    intro e' he'
    rcases List.mem_append.mp he' with he' | he'
    · exact hnone e' he'
    · exact hnot e' he'
  · have hlt := (List.getElem?_eq_some_iff.mp hj).1
    refine .inr ⟨j, above, by rwa [List.getElem?_append_left hlt], hparent, habove, ?_⟩
    intro e' he' he
    rcases List.mem_append.mp he' with he' | he'
    · exact hnearest e' he' he
    · exact absurd he (hnot e' he')

theorem Parented.append_left {es' : List Entry} (h : Parented outer (next + es'.length) es e)
    (hnot : ∀ e' ∈ es', ¬ e'.place.Above e.place) : Parented outer next (es' ++ es) e := by
  obtain ⟨houter, hnone⟩ | ⟨j, above, hj, hparent, habove, hnearest⟩ := h
  · refine .inl ⟨houter, ?_⟩
    intro e' he'
    rcases List.mem_append.mp he' with he' | he'
    · exact hnot e' he'
    · exact hnone e' he'
  · refine .inr ⟨es'.length + j, above, ?_, by rw [hparent, Nat.add_assoc], habove, ?_⟩
    · rw [List.getElem?_append_right (by omega), Nat.add_sub_cancel_left]
      exact hj
    · intro e' he' he
      rcases List.mem_append.mp he' with he' | he'
      · exact absurd he (hnot e' he')
      · exact hnearest e' he' he

/-- An entry above all others becomes the parent of those that have no other. -/
theorem Parented.cons {root : Entry} (h : Parented (some next) (next + 1) es e)
    (hroot : root.place.Above e.place) (habove : ∀ e' ∈ es, root.place <+: e'.place) :
    Parented outer next (root :: es) e := by
  obtain ⟨houter, hnone⟩ | ⟨j, above, hj, hparent, hplace, hnearest⟩ := h
  · refine .inr ⟨0, root, rfl, houter, hroot, ?_⟩
    intro e' he' he
    rcases List.mem_cons.mp he' with rfl | he'
    · exact List.prefix_refl _
    · exact absurd he (hnone e' he')
  · refine .inr ⟨j + 1, above, hj, by rw [hparent]; congr 1; omega, hplace, ?_⟩
    intro e' he' he
    rcases List.mem_cons.mp he' with rfl | he'
    · exact habove above (List.mem_of_getElem? hj)
    · exact hnearest e' he' he

end

mutual

theorem parented_entries (place : Place) (parent : Option Nat) (next : Nat) (n : GrammarNode) :
    ∀ e ∈ f.entries place parent next n,
      Parented parent next (f.entries place parent next n) e := by
  match n with
  | .mk type start stop cs =>
    rw [entries]
    by_cases hskip : parent.isSome && f.transparent.contains type
    · rw [if_pos hskip]
      rw [Bool.and_eq_true] at hskip
      obtain ⟨k, rfl⟩ := Option.isSome_iff_exists.mp hskip.1
      exact parented_entriesAll place k next 0 cs
    · rw [if_neg hskip]
      intro e he
      have hbelow : ∀ e ∈ f.entriesAll place (some next) (next + 1) 0 cs, place.Above e.place := by
        intro e he
        obtain ⟨j, p, hp⟩ := place_of_mem_entriesAll he
        rw [hp]
        exact Place.above_append (List.cons_ne_nil _ _)
      rcases List.mem_cons.mp he with rfl | he
      · refine .inl ⟨rfl, ?_⟩
        intro e' he' habove
        rcases List.mem_cons.mp he' with rfl | he'
        · exact habove.2 rfl
        · exact habove.2 (List.IsPrefix.eq_of_length_le habove.1 (hbelow e' he').1.length_le)
      · exact (parented_entriesAll place next (next + 1) 0 cs e he).cons (hbelow e he)
          fun e' he' => (hbelow e' he').1

theorem parented_entriesAll (place : Place) (parent next i : Nat) (ns : List GrammarNode) :
    ∀ e ∈ f.entriesAll place (some parent) next i ns,
      Parented (some parent) next (f.entriesAll place (some parent) next i ns) e := by
  match ns with
  | [] => exact fun e he => nomatch he
  | n :: ns =>
    rw [entriesAll]
    intro e he
    rcases List.mem_append.mp he with he | he
    · apply (parented_entries _ _ next n e he).append_right
      intro e' he' habove
      obtain ⟨p, hp⟩ := place_of_mem_entries he
      obtain ⟨j, q, hq⟩ := place_of_mem_entriesAll he'
      rw [hp, hq, List.append_assoc] at habove
      exact not_prefix_siblings place q p (by omega) habove.1
    · apply (parented_entriesAll place parent _ _ ns e he).append_left
      intro e' he' habove
      obtain ⟨p, hp⟩ := place_of_mem_entries he'
      obtain ⟨j, q, hq⟩ := place_of_mem_entriesAll he
      rw [hp, hq, List.append_assoc] at habove
      exact not_prefix_siblings place p q (by omega) habove.1

end

end Flattening

end CodeChunks
