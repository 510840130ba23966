import CodeChunks.Proofs.Tree.Anchors
import Mathlib.Data.List.Nodup
import Mathlib.Data.List.Perm.Subperm

/-! # Following the children of a drafted tree

To follow the children from some numbers is to visit any one of those that wait and to let its
children wait in its place. The numbers that wait in the line from a node up to its last ancestor
become fewer only when the node itself is visited. So from a single node no node is visited twice,
and as children come after their parents the visits end. -/
namespace CodeChunks

namespace Draft

inductive Call where
  | add (type : String) (span : Option Span) (parent : Option Int) (data : Json.Fields)
  | setDatum (id : Int) (key : String) (v : Json)

/-- The draft after a call: a node that is refused has been added, a datum has not been set. -/
def perform (d : Draft) : Call → Draft
  | .add type span parent data => (d.add type span parent data).2
  | .setDatum id key v => match d.setDatum id key v with
    | .ok d' => d'
    | .error _ => d

def run (d : Draft) (calls : List Call) : Draft := calls.foldl perform d

theorem Made.perform {d : Draft} (h : d.Made fun _ => True) (c : Call) :
    (d.perform c).Made fun _ => True := by
  cases c with
  | add type span parent data => exact h.add type span parent data fun _ _ => trivial
  | setDatum id key v =>
    rw [Draft.perform]
    cases hd : d.setDatum id key v with
    | ok d' => exact h.setDatum id key v hd
    | error e => exact h

theorem Made.run {d : Draft} (h : d.Made fun _ => True) (calls : List Call) :
    (d.run calls).Made fun _ => True := by
  induction calls generalizing d with
  | nil => exact h
  | cons c calls ih => exact ih (h.perform c)

end Draft

/-- The numbers from a node up to its last ancestor, where only what stands before a node counts as
its parent. -/
def lineage (nodes : Array Node) (x : Nat) : List Int :=
  x :: match parentAt nodes x with
    | none => []
    | some p => if _h : 0 ≤ p ∧ p < x then lineage nodes p.toNat else []
termination_by x

namespace Tree

def childIds (t : Tree) (i : Int) : List Int := ((t.node? i).map (·.children)).getD []

/-- The numbers visited one by one from those that wait at first to those that wait at last. -/
inductive Visits (t : Tree) : List Int → List Int → List Int → Prop
  | stay (ids : List Int) : Visits t ids [] ids
  | visit {ids rest vs last : List Int} {i : Int} (waits : ids.Perm (i :: rest))
      (h : Visits t (t.childIds i ++ rest) vs last) : Visits t ids (i :: vs) last

/-- How many of the numbers belong to the line of a node. -/
def waiting (t : Tree) (x : Nat) (ids : List Int) : Nat :=
  ids.countP (· ∈ lineage t.nodes x)

end Tree

section

variable {nodes : Array Node}

theorem mem_heirs {i j : Nat} : j ∈ heirs nodes i ↔ i < j ∧ parentAt nodes j = some (i : Int) := by
  simp only [heirs, List.mem_filter, List.mem_range, Bool.and_eq_true, decide_eq_true_eq,
    beq_iff_eq]
  refine ⟨And.right, fun h => ⟨?_, h⟩⟩
  by_contra hj
  simp [parentAt, Array.getElem?_eq_none (Nat.le_of_not_lt hj)] at h

theorem pairwise_heirs (nodes : Array Node) (k : Nat) : (heirs nodes k).Pairwise (· < ·) :=
  List.pairwise_lt_range.filter _

theorem lineage_of_parent {x p : Nat} (h : parentAt nodes x = some (p : Int)) (hp : p < x) :
    lineage nodes x = (x : Int) :: lineage nodes p := by
  rw [lineage, h]
  simp [hp]

theorem lineage_of_none {x : Nat} (h : ∀ p : Nat, parentAt nodes x = some (p : Int) → x ≤ p) :
    lineage nodes x = [(x : Int)] := by
  rw [lineage]
  cases hp : parentAt nodes x with
  | none => rfl
  | some p =>
    have hstop : ¬ (0 ≤ p ∧ p < x) := by
      rintro ⟨hpos, hlt⟩
      obtain ⟨k, rfl⟩ := Int.eq_ofNat_of_zero_le hpos
      have := h k hp
      omega
    simp [hstop]

/-- A node either has its parent before it or is the last one of its line. -/
theorem lineage_induction (nodes : Array Node) {P : Nat → Prop}
    (parent : ∀ x p : Nat, parentAt nodes x = some (p : Int) → p < x → P p → P x)
    (last : ∀ x : Nat, (∀ p : Nat, parentAt nodes x = some (p : Int) → x ≤ p) → P x) (x : Nat) :
    P x := by
  induction x using Nat.strongRecOn with
  | ind x ih =>
    by_cases h : ∃ p : Nat, parentAt nodes x = some (p : Int) ∧ p < x
    · obtain ⟨p, hp, hlt⟩ := h
      exact parent x p hp hlt (ih p hlt)
    · exact last x fun p hp => Nat.le_of_not_lt fun hlt => h ⟨p, hp, hlt⟩

theorem bounds_of_mem_lineage {x : Nat} {i : Int} (h : i ∈ lineage nodes x) : 0 ≤ i ∧ i ≤ x := by
  induction x using lineage_induction nodes with
  | parent x p hp hlt ih =>
    rw [lineage_of_parent hp hlt] at h
    rcases List.mem_cons.mp h with rfl | h
    · omega
    · have := ih h
      omega
  | last x hlast =>
    rw [lineage_of_none hlast] at h
    obtain rfl := List.mem_singleton.mp h
    omega

theorem countP_mem_cons (js : List Int) {is : List Int} {x : Int} (hx : x ∉ is) :
    js.countP (· ∈ x :: is) = js.countP (· ∈ is) + js.count x := by
  induction js with
  | nil => rfl
  | cons j js ih =>
    have hj : (if j ∈ x :: is then 1 else 0) =
        (if j ∈ is then 1 else 0) + if j = x then 1 else 0 := by
      by_cases hj : j = x <;> simp [hj, hx]
    rw [List.countP_cons, List.countP_cons, List.count_cons, ih]
    simp only [decide_eq_true_eq, beq_iff_eq, hj]
    omega

end

namespace Tree

variable {t : Tree}

theorem node?_natCast (t : Tree) (k : Nat) : t.node? k = t.nodes[k]? :=
  if_pos (Int.natCast_nonneg k)

theorem childIds_of_neg {i : Int} (hi : i < 0) : t.childIds i = [] := by
  simp [childIds, node?, Int.not_le.mpr hi]

section

variable (hf : Forest t.nodes)

include hf

theorem childIds_natCast (k : Nat) : t.childIds k = (heirs t.nodes k).map Int.ofNat := by
  rw [childIds, node?_natCast]
  cases hn : t.nodes[k]? with
  | none =>
    have hsize := Array.getElem?_eq_none_iff.mp hn
    rw [heirs_eq_nil (Nat.le_succ_of_le hsize)]
    rfl
  | some n => exact hf.children_eq k n hn

theorem pairwise_childIds (k : Nat) : (t.childIds k).Pairwise (· < ·) := by
  rw [childIds_natCast hf, List.pairwise_map]
  exact (pairwise_heirs t.nodes k).imp Int.ofNat_lt.mpr

theorem mem_childIds {k x : Nat} : (x : Int) ∈ t.childIds k ↔
    k < x ∧ parentAt t.nodes x = some (k : Int) := by
  rw [childIds_natCast hf, ← mem_heirs, List.mem_map]
  constructor
  · rintro ⟨j, hj, heq⟩
    exact Int.ofNat.inj heq ▸ hj
  · exact fun hx => ⟨x, hx, rfl⟩

theorem count_childIds (k x : Nat) : (t.childIds k).count (x : Int) =
    if k < x ∧ parentAt t.nodes x = some (k : Int) then 1 else 0 := by
  have hnodup : (t.childIds k).Nodup := (pairwise_childIds hf k).imp Int.ne_of_lt
  rw [hnodup.count]
  simp only [mem_childIds hf]

/-- In the line of a node, each number but the node's own has one of its children before it. -/
theorem waiting_childIds (x k : Nat) : t.waiting x (t.childIds k) + (if x = k then 1 else 0) =
    if (k : Int) ∈ lineage t.nodes x then 1 else 0 := by
  induction x using lineage_induction t.nodes with
  | parent x p hp hlt ih =>
    have hself : (x : Int) ∉ lineage t.nodes p := fun h => by
      have := bounds_of_mem_lineage h
      omega
    have hchild : (k < x ∧ p = k) ↔ p = k := ⟨And.right, fun h => ⟨h ▸ hlt, h⟩⟩
    rw [waiting] at ih ⊢
    rw [lineage_of_parent hp hlt, countP_mem_cons _ hself, count_childIds hf, hp]
    simp only [Option.some.injEq, Int.natCast_inj, hchild, List.mem_cons, ih]
    by_cases hk : x = k
    · subst hk
      simp [hself]
    · simp [hk, Ne.symm hk]
  | last x hlast =>
    rw [waiting, lineage_of_none hlast, countP_mem_cons _ List.not_mem_nil, count_childIds hf,
      if_neg fun h => Nat.not_le.mpr h.1 (hlast k h.2)]
    have hmem : (k : Int) ∈ [(x : Int)] ↔ x = k := by
      rw [List.mem_singleton, Int.natCast_inj, eq_comm]
    simp [hmem]

/-- A visit leaves what waits in the line of each node as it was, the visited node apart. -/
theorem waiting_visit (x : Nat) (i : Int) (rest : List Int) :
    t.waiting x (t.childIds i ++ rest) + (if i = x then 1 else 0) = t.waiting x (i :: rest) := by
  have happend : t.waiting x (t.childIds i ++ rest) =
      t.waiting x (t.childIds i) + t.waiting x rest := List.countP_append
  have hcons : t.waiting x (i :: rest) =
      t.waiting x rest + if i ∈ lineage t.nodes x then 1 else 0 := by
    simp [waiting, List.countP_cons]
  rw [happend, hcons]
  rcases Int.lt_or_le i 0 with hi | hi
  · have hnot : i ∉ lineage t.nodes x := fun h => Int.not_le.mpr hi (bounds_of_mem_lineage h).1
    rw [childIds_of_neg hi, if_neg hnot, if_neg (by omega)]
    simp [waiting]
  · obtain ⟨k, rfl⟩ := Int.eq_ofNat_of_zero_le hi
    have hchild := waiting_childIds hf x k
    simp only [Int.natCast_inj, eq_comm (a := k)] at hchild ⊢
    omega

theorem Visits.count_add_waiting {ids vs last : List Int} (h : t.Visits ids vs last) (x : Nat) :
    vs.count (x : Int) + t.waiting x last = t.waiting x ids := by
  induction h with
  | stay ids => simp
  | @visit ids rest vs last i waits _ ih =>
    have hvisit := waiting_visit hf x i rest
    have hperm : t.waiting x ids = t.waiting x (i :: rest) := waits.countP_eq _
    rw [List.count_cons, hperm, ← hvisit, ← ih]
    simp only [beq_iff_eq]
    omega

theorem bounds_of_mem_childIds {i j : Int} (h : j ∈ t.childIds i) : i < j ∧ j < t.nodes.size := by
  rcases Int.lt_or_le i 0 with hi | hi
  · rw [childIds_of_neg hi] at h
    cases h
  · obtain ⟨k, rfl⟩ := Int.eq_ofNat_of_zero_le hi
    rw [childIds_natCast hf] at h
    obtain ⟨m, hm, rfl⟩ := List.mem_map.mp h
    have hlt := List.mem_range.mp (List.mem_filter.mp hm).1
    exact ⟨Int.ofNat_lt.mpr (mem_heirs.mp hm).1, Int.ofNat_lt.mpr hlt⟩

theorem Visits.bounds {ids vs last : List Int} (h : t.Visits ids vs last)
    (hids : ∀ i ∈ ids, 0 ≤ i ∧ i < t.nodes.size) : ∀ i ∈ vs, 0 ≤ i ∧ i < t.nodes.size := by
  induction h with
  | stay ids => exact nofun
  | @visit ids rest vs last i waits _ ih =>
    have hi := hids i (waits.mem_iff.mpr List.mem_cons_self)
    refine List.forall_mem_cons.mpr ⟨hi, ih fun j hj => ?_⟩
    rcases List.mem_append.mp hj with hj | hj
    · have := bounds_of_mem_childIds hf hj
      omega
    · exact hids j (waits.mem_iff.mpr (List.mem_cons_of_mem i hj))

end

theorem Visits.append {ids vs last : List Int} (h : t.Visits ids vs last) (others : List Int) :
    t.Visits (ids ++ others) vs (last ++ others) := by
  induction h with
  | stay ids => exact .stay _
  | visit waits _ ih =>
    rw [List.append_assoc] at ih
    exact .visit (waits.append_right others) ih

theorem Visits.trans {ids vs mid ws last : List Int} (h : t.Visits ids vs mid)
    (h' : t.Visits mid ws last) : t.Visits ids (vs ++ ws) last := by
  induction h with
  | stay ids => exact h'
  | visit waits _ ih => exact .visit waits (ih h')

theorem exists_visits_of_each {ids : List Int} (h : ∀ i ∈ ids, ∃ vs, t.Visits [i] vs []) :
    ∃ vs, t.Visits ids vs [] := by
  induction ids with
  | nil => exact ⟨[], .stay []⟩
  | cons i ids ih =>
    obtain ⟨vs, hvs⟩ := h i List.mem_cons_self
    obtain ⟨ws, hws⟩ := ih fun j hj => h j (List.mem_cons_of_mem i hj)
    exact ⟨vs ++ ws, (hvs.append ids).trans hws⟩

/-- The visits from a number come to an end, as the children of a node come after it. -/
theorem exists_visits (hf : Forest t.nodes) (i : Int) : ∃ vs, t.Visits [i] vs [] := by
  have hchildren : ∀ j ∈ t.childIds i, ∃ vs, t.Visits [j] vs [] := fun j hj =>
    exists_visits hf j
  obtain ⟨vs, hvs⟩ := exists_visits_of_each hchildren
  exact ⟨i :: vs, .visit (.refl [i]) (by rwa [List.append_nil])⟩
termination_by (t.nodes.size - i).toNat
decreasing_by
  have := bounds_of_mem_childIds hf hj
  omega

theorem Visits.nodup (hf : Forest t.nodes) {k : Nat} (hk : k < t.nodes.size) {vs last : List Int}
    (h : t.Visits [(k : Int)] vs last) : vs.Nodup := by
  have hbounds := h.bounds hf (by simpa using hk)
  rw [List.nodup_iff_count_le_one]
  intro i
  by_cases hi : i ∈ vs
  · obtain ⟨x, rfl⟩ := Int.eq_ofNat_of_zero_le (hbounds i hi).1
    have hcount := h.count_add_waiting hf x
    have hstart : t.waiting x [(k : Int)] ≤ 1 := List.countP_le_length
    omega
  · rw [List.count_eq_zero_of_not_mem hi]
    exact Nat.zero_le 1

theorem Visits.length_le (hf : Forest t.nodes) {k : Nat} (hk : k < t.nodes.size)
    {vs last : List Int} (h : t.Visits [(k : Int)] vs last) : vs.length ≤ t.nodes.size := by
  have hbounds := h.bounds hf (by simpa using hk)
  have hsubset : vs ⊆ (List.range t.nodes.size).map Int.ofNat := by
    intro i hi
    obtain ⟨x, rfl⟩ := Int.eq_ofNat_of_zero_le (hbounds i hi).1
    exact List.mem_map_of_mem (List.mem_range.mpr (Int.ofNat_lt.mp (hbounds x hi).2))
  have hlength := ((h.nodup hf hk).subperm hsubset).length_le
  rwa [List.length_map, List.length_range] at hlength

/-- The nodes of a tree bear the numbers of their places, and the children of a node are the later
ones that name it as their parent, in order. Whoever follows the children comes to an end, and from
a single node to no node twice, in whatever order they are followed. -/
structure IsForest (t : Tree) : Prop where
  numbered : ∀ (k : Nat) n, t.nodes[k]? = some n → n.id = k
  mem_children_iff : ∀ (i : Nat) n, t.nodes[i]? = some n → ∀ j : Int,
    j ∈ n.children ↔ i < j ∧ ∃ m, t.node? j = some m ∧ m.parent = some (i : Int)
  increasing : ∀ n ∈ t.nodes, n.children.Pairwise (· < ·)
  oneParent : ∀ (i k : Nat) n m (j : Int), t.nodes[i]? = some n → t.nodes[k]? = some m →
    j ∈ n.children → j ∈ m.children → i = k
  ends : ∀ ids, ∃ vs, t.Visits ids vs []
  once : ∀ k : Nat, k < t.nodes.size → ∀ vs last, t.Visits [(k : Int)] vs last →
    vs.Nodup ∧ vs.length ≤ t.nodes.size

theorem parentAt_eq_some_iff {x : Nat} {p : Int} : parentAt t.nodes x = some p ↔
    ∃ m, t.node? x = some m ∧ m.parent = some p := by
  rw [parentAt, node?_natCast, Option.bind_eq_some_iff]

theorem isForest_of_forest (hf : Forest t.nodes) : t.IsForest := by
  have hchildren : ∀ (k : Nat) n, t.nodes[k]? = some n → n.children = t.childIds k := by
    intro k n hn
    rw [childIds_natCast hf, hf.children_eq k n hn]
  have hmem : ∀ (i : Nat) n, t.nodes[i]? = some n → ∀ j : Int,
      j ∈ n.children ↔ i < j ∧ ∃ m, t.node? j = some m ∧ m.parent = some (i : Int) := by
    intro i n hn j
    rw [hchildren i n hn]
    rcases Int.lt_or_le j 0 with hj | hj
    · refine ⟨fun h => ?_, fun h => absurd h.1 (by omega)⟩
      have := bounds_of_mem_childIds hf h
      omega
    · obtain ⟨x, rfl⟩ := Int.eq_ofNat_of_zero_le hj
      rw [mem_childIds hf, parentAt_eq_some_iff, Int.ofNat_lt]
  constructor
  case numbered => exact hf.id_eq
  case mem_children_iff => exact hmem
  case increasing =>
    intro n hn
    obtain ⟨k, hk⟩ := Array.mem_iff_getElem?.mp hn
    rw [hchildren k n hk]
    exact pairwise_childIds hf k
  case oneParent =>
    intro i k n m j hn hm hj hj'
    obtain ⟨-, c, hc, hparent⟩ := (hmem i n hn j).mp hj
    obtain ⟨-, c', hc', hparent'⟩ := (hmem k m hm j).mp hj'
    obtain rfl := Option.some.inj (hc.symm.trans hc')
    exact Int.ofNat.inj (Option.some.inj (hparent.symm.trans hparent'))
  case ends => exact fun ids => exists_visits_of_each fun i _ => exists_visits hf i
  case once => exact fun k hk vs last h => ⟨h.nodup hf hk, h.length_le hf hk⟩

end Tree

namespace Draft

/-- Whatever calls a draft has seen, refused ones included, the tree that it is finished to is a
forest in the order of the calls. -/
theorem run_isForest {language : String} {source : Text} (calls : List Call) {root : Int}
    {t : Tree} (h : (run { language, source } calls).finish root = .ok t) : t.IsForest :=
  have hmade := Tree.made_of_finish (Made.run (.empty language source) calls) h
  Tree.isForest_of_forest hmade.forest

/-- Nodes under parents with a negative number, their own and a later one, which are refused, and
a node under one of those. -/
def strayCalls : List Call := [
  .add "module" none none [],
  .add "class" none (some 0) [],
  .add "negative" none (some (-1)) [],
  .add "own" none (some 3) [],
  .add "later" none (some 5) [],
  .add "body" none (some 1) [],
  .add "leaf" none (some 4) [],
  .setDatum 1 "name" .null,
  .setDatum 9 "name" .null]

theorem run_isForest_stray : ∃ t, (run ⟨"x", [], #[]⟩ strayCalls).finish 0 = .ok t ∧
    t.nodes.toList.map (fun n => (n.parent, n.children)) = [(none, [1]), (some 0, [5]),
      (some (-1), []), (some 3, []), (some 5, [6]), (some 1, []), (some 4, [])] ∧
    t.IsForest := by
  have hnodes : ((run ⟨"x", [], #[]⟩ strayCalls).finish 0).map (fun t =>
      t.nodes.toList.map fun n => (n.parent, n.children)) = .ok [(none, [1]), (some 0, [5]),
        (some (-1), []), (some 3, []), (some 5, [6]), (some 1, []), (some 4, [])] := rfl
  cases ht : (run ⟨"x", [], #[]⟩ strayCalls).finish 0 with
  | error e =>
    rw [ht] at hnodes
    cases hnodes
  | ok t =>
    rw [ht] at hnodes
    exact ⟨t, rfl, Except.ok.inj hnodes, run_isForest strayCalls ht⟩

end Draft

end CodeChunks
