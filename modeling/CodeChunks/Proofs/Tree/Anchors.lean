import CodeChunks.Proofs.Steps
import CodeChunks.Proofs.Text.Lines
import CodeChunks.Proofs.Tree.Forest

/-! # Trees whose spans lie at offsets of their source -/
namespace CodeChunks

/-- The span reaches from one offset of a source to another, on the rows and columns found there. -/
def Span.IsAt (source : Text) (start stop : Nat) (s : Span) : Prop :=
  Tree.spanAt (.ofText source) start stop = .ok s

/-- The node has a span, which reaches from one offset of a source to another. -/
def Node.Covers (source : Text) (start stop : Nat) (n : Node) : Prop :=
  ∃ s, n.span = some s ∧ s.IsAt source start stop

namespace Tree

/-- The tree of a draft, under any number as its root. -/
def Made (good : Span → Prop) (t : Tree) : Prop :=
  ∃ d : Draft, d.Made good ∧ t.source = d.source ∧ t.nodes = d.nodes

/-- A tree made node by node in which each span was given by offsets of the source. -/
def Anchored (t : Tree) : Prop := t.Made fun s => ∃ start stop, s.IsAt t.source start stop

/-- A draft is finished to a tree made by its steps, whatever comes of the root. -/
theorem made_of_finish {good : Span → Prop} {d : Draft} (h : d.Made good) {root : Int} {t : Tree}
    (ht : d.finish root = .ok t) : t.Made good := by
  refine ⟨d, h, ?_⟩
  simp only [Draft.finish] at ht
  split at ht
  · cases ht
    exact ⟨rfl, rfl⟩
  · split at ht
    · cases ht
    · split at ht
      · cases ht
      · cases ht
        exact ⟨rfl, rfl⟩

section

variable {t : Tree} {good : Span → Prop}

theorem Made.forest (h : t.Made good) : Forest t.nodes := by
  obtain ⟨d, hd, -, hn⟩ := h
  exact hn ▸ hd.forest

theorem Made.span_good (h : t.Made good) {n : Node} (hn : n ∈ t.nodes) {s : Span}
    (hs : n.span = some s) : good s := by
  obtain ⟨d, hd, -, hnodes⟩ := h
  obtain ⟨k, hk⟩ := Array.mem_iff_getElem?.mp hn
  exact hd.span_good (hnodes ▸ hk) hs

theorem mem_nodes_of_node? {id : Int} {n : Node} (h : t.node? id = some n) : n ∈ t.nodes := by
  rw [node?] at h
  split at h
  · exact Array.mem_iff_getElem?.mpr ⟨_, h⟩
  · cases h

theorem mem_nodes_of_mem_children {n c : Node} (h : c ∈ t.children n) : c ∈ t.nodes := by
  obtain ⟨id, -, hid⟩ := List.mem_filterMap.mp h
  exact mem_nodes_of_node? hid

theorem Made.node?_id (h : t.Made good) {id : Int} {n : Node} (hn : t.node? id = some n) :
    n.id = id := by
  rw [node?] at hn
  split at hn
  · rw [h.forest.id_eq _ _ hn]
    omega
  · cases hn

/-- The children of a node stand after it in the table. -/
theorem Made.lt_of_mem_children (h : t.Made good) {n c : Node} (hn : n ∈ t.nodes)
    (hc : c ∈ t.children n) : n.id < c.id ∧ c.id < t.nodes.size := by
  obtain ⟨id, hid, hc⟩ := List.mem_filterMap.mp hc
  obtain ⟨k, hk⟩ := Array.mem_iff_getElem?.mp hn
  rw [h.node?_id hc]
  exact h.forest.lt_of_mem_children hk hid

end

theorem positionAt_ofText (source : Text) {o : Nat} (h : o ≤ source.length) :
    positionAt (.ofText source) o = .ok ⟨(source.take o).count '\n',
      o - (LineIndex.ofText source).rowStart ((LineIndex.ofText source).row o), o⟩ := by
  simp only [positionAt, LineIndex.point_ofText source h]

theorem offset_of_positionAt {source : Text} {o : Int} {p : Position}
    (h : positionAt (.ofText source) o = .ok p) : 0 ≤ o ∧ o ≤ source.length := by
  by_cases ho : o < 0 ∨ (source.length : Int) < o
  · simp [positionAt, LineIndex.point_ofText_eq_error source ho] at h
  · omega

theorem positions_of_spanAt {source : Text} {a b : Int} {s : Span}
    (h : spanAt (.ofText source) a b = .ok s) :
    positionAt (.ofText source) a = .ok s.start ∧ positionAt (.ofText source) b = .ok s.stop := by
  obtain ⟨p, hp, h⟩ := exists_of_bind_eq_ok h
  obtain ⟨q, hq, h⟩ := exists_of_bind_eq_ok h
  rw [Span.make?] at h
  split at h
  · cases h
    exact ⟨hp, hq⟩
  · cases h

theorem isAt_of_spanAt {source : Text} {a b : Int} {s : Span}
    (h : spanAt (.ofText source) a b = .ok s) : ∃ start stop, s.IsAt source start stop := by
  obtain ⟨ha, hb⟩ := positions_of_spanAt h
  obtain ⟨m, rfl⟩ := Int.eq_ofNat_of_zero_le (offset_of_positionAt ha).1
  obtain ⟨n, rfl⟩ := Int.eq_ofNat_of_zero_le (offset_of_positionAt hb).1
  exact ⟨m, n, h⟩

end Tree

namespace Span.IsAt

variable {source : Text} {start stop : Nat} {s : Span}

theorem stop_le_length (h : s.IsAt source start stop) : stop ≤ source.length := by
  have := (Tree.offset_of_positionAt (Tree.positions_of_spanAt h).2).2
  omega

theorem start_eq (h : s.IsAt source start stop) : s.start = ⟨(source.take start).count '\n',
    start - (LineIndex.ofText source).rowStart ((LineIndex.ofText source).row start), start⟩ := by
  have hp := (Tree.positions_of_spanAt h).1
  have hle := (Tree.offset_of_positionAt hp).2
  rw [Tree.positionAt_ofText source (by omega)] at hp
  exact (Except.ok.inj hp).symm

theorem stop_eq (h : s.IsAt source start stop) : s.stop = ⟨(source.take stop).count '\n',
    stop - (LineIndex.ofText source).rowStart ((LineIndex.ofText source).row stop), stop⟩ := by
  have hp := (Tree.positions_of_spanAt h).2
  rw [Tree.positionAt_ofText source h.stop_le_length] at hp
  exact (Except.ok.inj hp).symm

theorem start_le_stop (h : s.IsAt source start stop) : start ≤ stop := by
  have := s.ordered
  simp only [h.start_eq, h.stop_eq] at this
  omega

theorem firstLine_eq (h : s.IsAt source start stop) : s.firstLine = source.lineAt start := by
  simp [firstLine, h.start_eq, Text.lineAt]

/-- A newline that ends a span counts to the line that it ends. -/
theorem lastLine_eq (h : s.IsAt source start stop) :
    s.lastLine = source.lastLineAt start stop := by
  have hle := h.start_le_stop
  have hlen := h.stop_le_length
  have hcol : s.stop.column = 0 ↔ stop = 0 ∨ source[stop - 1]? = some '\n' := by
    rw [← LineIndex.rowStart_eq_iff]
    simp only [h.stop_eq]
    omega
  have hstart : s.start.line + 1 = source.lineAt start := by simp [h.start_eq, Text.lineAt]
  have hstop : s.stop.line + 1 = source.lineAt stop := by simp [h.stop_eq, Text.lineAt]
  simp only [lastLine, hcol, Text.lastLineAt]
  rcases Nat.lt_or_eq_of_le hle with hlt | heq
  · have hsucc := source.lineAt_succ (show stop - 1 < source.length by omega)
    have hmono := source.lineAt_mono (show start ≤ stop - 1 by omega)
    rw [Nat.sub_add_cancel (show 1 ≤ stop by omega)] at hsucc
    by_cases hn : source[stop - 1]? = some '\n'
    · simp only [hn, ↓reduceIte, or_true, true_and, hlt] at hsucc ⊢
      rw [if_pos (by omega)]
      omega
    · simp only [hn, ↓reduceIte, or_false, hlt] at hsucc ⊢
      rw [if_neg (by omega)]
      omega
  · subst heq
    rw [if_neg (by omega), if_neg (by omega)]
    omega

end Span.IsAt

namespace Node.Covers

variable {source : Text} {a b : Nat} {n : Node}

theorem le (h : n.Covers source a b) : a ≤ b ∧ b ≤ source.length := by
  obtain ⟨s, -, hat⟩ := h
  exact ⟨hat.start_le_stop, hat.stop_le_length⟩

theorem offsets (h : n.Covers source a b) {s : Span} (hs : n.span = some s) :
    s.start.offset = a ∧ s.stop.offset = b := by
  obtain ⟨s', hs', hat⟩ := h
  obtain rfl : s' = s := Option.some.inj (hs'.symm.trans hs)
  exact ⟨by rw [hat.start_eq], by rw [hat.stop_eq]⟩

theorem lines (h : n.Covers source a b) {s : Span} (hs : n.span = some s) :
    s.firstLine = source.lineAt a ∧ s.lastLine = source.lastLineAt a b := by
  obtain ⟨s', hs', hat⟩ := h
  obtain rfl : s' = s := Option.some.inj (hs'.symm.trans hs)
  exact ⟨hat.firstLine_eq, hat.lastLine_eq⟩

theorem unique (h : n.Covers source a b) {i j : Nat} (h' : n.Covers source i j) :
    a = i ∧ b = j := by
  have ⟨s, hs, _⟩ := h
  have := h.offsets hs
  have := h'.offsets hs
  omega

theorem textOf_eq {t : Tree} (h : n.Covers t.source a b) : t.textOf n = slice t.source a b := by
  obtain ⟨s, hs, hat⟩ := h
  simp only [Tree.textOf, hs, hat.start_eq, hat.stop_eq]

end Node.Covers

theorem Tree.Anchored.covers {t : Tree} (ht : t.Anchored) {n : Node} (hn : n ∈ t.nodes) {s : Span}
    (hs : n.span = some s) : ∃ a b, n.Covers t.source a b := by
  obtain ⟨a, b, hat⟩ := ht.span_good hn hs
  exact ⟨a, b, s, hs, hat⟩

/-! ## Trees given by an outline -/

namespace Outline

private theorem addSpan_made {source : Text} {d d' : Draft} {e : OutlineEntry} {span : Option Span}
    (hd : d.Made fun s => ∃ start stop, s.IsAt source start stop) (hs : d.source = source)
    (hspan : ∀ s, span = some s → ∃ start stop, s.IsAt source start stop)
    (h : (match d.add e.type span e.parent e.data with
      | (.ok _, d) => Except.ok d
      | (.error err, _) => Except.error err) = .ok d') :
    (d'.Made fun s => ∃ start stop, s.IsAt source start stop) ∧ d'.source = source := by
  have hmade := hd.add e.type span e.parent e.data hspan
  have hsource := d.source_add e.type span e.parent e.data
  cases hadd : d.add e.type span e.parent e.data with
  | mk r d₁ =>
    rw [hadd] at h hmade hsource
    cases r with
    | ok id =>
      cases h
      exact ⟨hmade, hsource.trans hs⟩
    | error err => cases h

private theorem addEntry_made {source : Text} {d d' : Draft} {e : OutlineEntry}
    (hd : d.Made fun s => ∃ start stop, s.IsAt source start stop) (hs : d.source = source)
    (h : addEntry (.ofText source) d e = .ok d') :
    (d'.Made fun s => ∃ start stop, s.IsAt source start stop) ∧ d'.source = source := by
  rw [addEntry] at h
  cases hr : e.range with
  | none =>
    simp only [hr, bind, Except.bind] at h
    exact addSpan_made hd hs (by simp) h
  | some r =>
    cases hsp : Tree.spanAt (.ofText source) r.1 r.2 with
    | error err => simp [hr, hsp, bind, Except.bind, Except.map] at h
    | ok s =>
      simp only [hr, hsp, bind, Except.bind, Except.map] at h
      refine addSpan_made hd hs ?_ h
      intro s' hs'
      cases hs'
      exact Tree.isAt_of_spanAt hsp

private theorem entries_made {source : Text} (o : Outline) {d d' : Draft}
    (hd : d.Made fun s => ∃ start stop, s.IsAt source start stop) (hs : d.source = source)
    (h : o.foldlM (addEntry (.ofText source)) d = .ok d') :
    (d'.Made fun s => ∃ start stop, s.IsAt source start stop) ∧ d'.source = source := by
  induction o generalizing d with
  | nil =>
    cases h
    exact ⟨hd, hs⟩
  | cons e o ih =>
    rw [List.foldlM_cons] at h
    obtain ⟨d₁, he, h⟩ := exists_of_bind_eq_ok h
    obtain ⟨hmade, hsource⟩ := addEntry_made hd hs he
    exact ih hmade hsource h

/-- The tree of an outline is anchored, whatever its root. -/
theorem anchored_of_tree {o : Outline} {language : String} {source : Text} {root : Int} {t : Tree}
    (h : o.tree language source root = .ok t) : t.Anchored := by
  obtain ⟨d, hd, h⟩ := exists_of_bind_eq_ok h
  cases h
  obtain ⟨hmade, hsource⟩ := entries_made o (.empty language source) rfl hd
  exact ⟨d, hmade, hsource.symm, rfl⟩

end Outline

end CodeChunks
