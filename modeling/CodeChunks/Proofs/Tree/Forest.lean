import CodeChunks.Tree.Draft

/-! # A draft is a forest in the order of its calls

Whatever calls a draft has seen, refused ones included, the number of a node is its place, and its
children are the later nodes that name it as their parent, in order. -/
namespace CodeChunks

def parentAt (nodes : Array Node) (j : Nat) : Option Int := nodes[j]?.bind (·.parent)

/-- The places after `k` whose nodes name `k` as their parent. -/
def heirs (nodes : Array Node) (k : Nat) : List Nat :=
  (List.range nodes.size).filter fun j => decide (k < j) && parentAt nodes j == some (k : Int)

structure Forest (nodes : Array Node) : Prop where
  id_eq : ∀ (k : Nat) (n : Node), nodes[k]? = some n → n.id = k
  children_eq : ∀ (k : Nat) (n : Node), nodes[k]? = some n →
    n.children = (heirs nodes k).map Int.ofNat

namespace Forest

theorem lt_of_mem_children {nodes : Array Node} (hf : Forest nodes) {k : Nat} {n : Node}
    (hn : nodes[k]? = some n) {c : Int} (hc : c ∈ n.children) : n.id < c ∧ c < nodes.size := by
  rw [hf.children_eq k n hn] at hc
  obtain ⟨j, hj, rfl⟩ := List.mem_map.mp hc
  simp only [heirs, List.mem_filter, List.mem_range, Bool.and_eq_true, decide_eq_true_eq] at hj
  rw [hf.id_eq k n hn]
  exact ⟨Int.ofNat_lt.mpr hj.2.1, Int.ofNat_lt.mpr hj.1⟩

end Forest

namespace Draft

/-- A draft after any calls, refused ones included, in which all spans that were given are good. -/
inductive Made (good : Span → Prop) : Draft → Prop
  | empty (language : String) (source : Text) : Made good { language, source }
  | add {d : Draft} (h : Made good d) (type : String) (span : Option Span) (parent : Option Int)
      (data : Json.Fields) (hs : ∀ s, span = some s → good s) :
      Made good (d.add type span parent data).2
  | setDatum {d d' : Draft} (h : Made good d) (id : Int) (key : String) (v : Json)
      (hd : d.setDatum id key v = .ok d') : Made good d'

section

variable (d : Draft) (type : String) (span : Option Span) (parent : Option Int) (data : Json.Fields)

theorem source_add : (d.add type span parent data).2.source = d.source := by
  simp only [add]
  cases parent with
  | none => rfl
  | some p => dsimp only; split <;> rfl

theorem language_add : (d.add type span parent data).2.language = d.language := by
  simp only [add]
  cases parent with
  | none => rfl
  | some p => dsimp only; split <;> rfl

theorem size_add : (d.add type span parent data).2.nodes.size = d.nodes.size + 1 := by
  simp only [add]
  cases parent with
  | none => simp
  | some p => dsimp only; split <;> simp

/-- A new node comes last and joins the children of the one that it names as its parent. -/
theorem getElem?_add (k : Nat) : (d.add type span parent data).2.nodes[k]? =
    if k = d.nodes.size then some { id := d.nodes.size, type, span, parent, data }
    else d.nodes[k]?.map fun n => { n with
      children :=
        n.children ++ if parent = some (k : Int) then [(d.nodes.size : Int)] else [] } := by
  simp only [add]
  cases parent with
  | none =>
    simp only [Array.getElem?_push, reduceCtorEq, ↓reduceIte, List.append_nil]
    simp
  | some p =>
    dsimp only
    by_cases hp : 0 ≤ p ∧ p < d.nodes.size
    · rw [if_pos hp]
      have hk : p.toNat = k ↔ p = (k : Int) := by omega
      simp only [Array.getElem?_modify, Array.getElem?_push, hk, Option.some.injEq]
      by_cases hpk : p = (k : Int)
      · have hne : k ≠ d.nodes.size := by omega
        simp [hpk, hne]
      · simp [hpk]
    · rw [if_neg hp]
      simp only [Array.getElem?_push, Option.some.injEq]
      by_cases hk : k = d.nodes.size
      · simp [hk]
      · by_cases hlt : k < d.nodes.size
        · have hne : p ≠ (k : Int) := by omega
          simp [hk, hne]
        · simp [hk, Array.getElem?_eq_none (show d.nodes.size ≤ k by omega)]

end

theorem setDatum_eq {d d' : Draft} {id : Int} {key : String} {v : Json}
    (h : d.setDatum id key v = .ok d') : ∃ i, d' = { d with
      nodes := d.nodes.modify i fun n => { n with data := Assoc.insert key v n.data } } := by
  rw [setDatum] at h
  split at h
  · cases h
    exact ⟨_, rfl⟩
  · cases h

end Draft

theorem parentAt_add (d : Draft) (type : String) (span : Option Span) (parent : Option Int)
    (data : Json.Fields) (j : Nat) : parentAt (d.add type span parent data).2.nodes j =
      if j = d.nodes.size then parent else parentAt d.nodes j := by
  rw [parentAt, Draft.getElem?_add]
  split
  · rfl
  · cases h : d.nodes[j]? <;> simp [parentAt, h]

/-- A new node is an heir of the one that it names as its parent, after the others. -/
theorem heirs_add (d : Draft) (type : String) (span : Option Span) (parent : Option Int)
    (data : Json.Fields) {k : Nat} (hk : k < d.nodes.size) :
    heirs (d.add type span parent data).2.nodes k =
      heirs d.nodes k ++ if parent = some (k : Int) then [d.nodes.size] else [] := by
  have hold : (List.range d.nodes.size).filter (fun j => decide (k < j) &&
      parentAt (d.add type span parent data).2.nodes j == some (k : Int)) = heirs d.nodes k := by
    apply List.filter_congr
    intro j hj
    have hne : j ≠ d.nodes.size := by have := List.mem_range.mp hj; omega
    rw [parentAt_add, if_neg hne]
  rw [heirs, Draft.size_add, List.range_succ, List.filter_append, hold]
  by_cases hp : parent = some (k : Int) <;> simp [parentAt_add, hk, hp]

theorem heirs_eq_nil {nodes : Array Node} {k : Nat} (hk : nodes.size ≤ k + 1) :
    heirs nodes k = [] := by
  simp only [heirs, List.filter_eq_nil_iff, List.mem_range, Bool.and_eq_true, decide_eq_true_eq]
  omega

theorem parentAt_modify_data (nodes : Array Node) (i : Nat) (f : Json.Fields → Json.Fields)
    (j : Nat) : parentAt (nodes.modify i fun n => { n with data := f n.data }) j =
      parentAt nodes j := by
  simp only [parentAt, Array.getElem?_modify]
  split
  · cases nodes[j]? <;> rfl
  · rfl

theorem Forest.add {d : Draft} (hf : Forest d.nodes) (type : String) (span : Option Span)
    (parent : Option Int) (data : Json.Fields) : Forest (d.add type span parent data).2.nodes := by
  constructor
  · intro k n hn
    rw [Draft.getElem?_add] at hn
    by_cases hk : k = d.nodes.size
    · rw [if_pos hk] at hn
      cases hn
      exact congrArg Nat.cast hk.symm
    · rw [if_neg hk] at hn
      obtain ⟨m, hm, rfl⟩ := Option.map_eq_some_iff.mp hn
      exact hf.id_eq k m hm
  · intro k n hn
    rw [Draft.getElem?_add] at hn
    by_cases hnew : k = d.nodes.size
    · rw [if_pos hnew] at hn
      cases hn
      rw [heirs_eq_nil (by rw [Draft.size_add]; omega), List.map_nil]
    · rw [if_neg hnew] at hn
      obtain ⟨m, hm, rfl⟩ := Option.map_eq_some_iff.mp hn
      have hk : k < d.nodes.size := (Array.getElem?_eq_some_iff.mp hm).1
      rw [heirs_add d type span parent data hk, hf.children_eq k m hm]
      split <;> simp

theorem Forest.modify_data {nodes : Array Node} (hf : Forest nodes) (i : Nat)
    (f : Json.Fields → Json.Fields) :
    Forest (nodes.modify i fun n => { n with data := f n.data }) := by
  have hheirs : ∀ k, heirs (nodes.modify i fun n => { n with data := f n.data }) k =
      heirs nodes k := by
    intro k
    simp only [heirs, Array.size_modify, parentAt_modify_data]
  have hold : ∀ (k : Nat) (n : Node),
      (nodes.modify i fun n => { n with data := f n.data })[k]? = some n →
      ∃ m : Node, nodes[k]? = some m ∧ n.id = m.id ∧ n.children = m.children := by
    intro k n hn
    rw [Array.getElem?_modify] at hn
    split at hn
    · obtain ⟨m, hm, rfl⟩ := Option.map_eq_some_iff.mp hn
      exact ⟨m, hm, rfl, rfl⟩
    · exact ⟨n, hn, rfl, rfl⟩
  constructor
  · intro k n hn
    obtain ⟨m, hm, hid, -⟩ := hold k n hn
    rw [hid, hf.id_eq k m hm]
  · intro k n hn
    obtain ⟨m, hm, -, hc⟩ := hold k n hn
    rw [hc, hheirs, hf.children_eq k m hm]

namespace Draft.Made

variable {good : Span → Prop} {d : Draft}

theorem forest (h : Made good d) : Forest d.nodes := by
  induction h with
  | empty language source => constructor <;> intro k n hn <;> simp at hn
  | add h type span parent data hs ih => exact ih.add type span parent data
  | setDatum h id key v hd ih =>
    obtain ⟨i, rfl⟩ := setDatum_eq hd
    exact ih.modify_data i _

theorem span_good (h : Made good d) {k : Nat} {n : Node} {s : Span}
    (hn : d.nodes[k]? = some n) (hs : n.span = some s) : good s := by
  induction h generalizing k n with
  | empty language source => simp at hn
  | add h type span parent data hgood ih =>
    rw [getElem?_add] at hn
    split at hn
    · cases hn
      exact hgood s hs
    · obtain ⟨m, hm, rfl⟩ := Option.map_eq_some_iff.mp hn
      exact ih hm hs
  | setDatum h id key v hd ih =>
    obtain ⟨i, rfl⟩ := setDatum_eq hd
    simp only [Array.getElem?_modify] at hn
    split at hn
    · obtain ⟨m, hm, rfl⟩ := Option.map_eq_some_iff.mp hn
      exact ih hm hs
    · exact ih hn hs

end Draft.Made

end CodeChunks
