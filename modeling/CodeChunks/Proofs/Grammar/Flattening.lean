import CodeChunks.Proofs.Grammar.Places
import CodeChunks.Proofs.Text.Bytes
import CodeChunks.Proofs.Tree.Anchors

/-! # A flattening is a faithful copy of the parse

The stack of waiting nodes makes the same table as the recursion on the parse, which adds one row
for each node that is kept. Offsets that lie in the bytes of the source are offsets of characters,
so no row is refused. -/
namespace CodeChunks

open Utf8

/-- The offsets of all nodes lie in a sequence of bytes. -/
def GrammarNode.Within (size : Nat) (n : GrammarNode) : Prop :=
  ∀ p g, n.at? p = some g → 0 ≤ g.start ∧ g.start ≤ g.stop ∧ g.stop ≤ size

theorem GrammarNode.Within.child {size : Nat} {n : GrammarNode} (h : n.Within size) {i : Nat}
    {c : GrammarNode} (hc : n.children[i]? = some c) : c.Within size :=
  fun p g hp => h (i :: p) g (at?_cons.mpr ⟨c, hc, hp⟩)

theorem GrammarNode.within_mk {size : Nat} {type : String} {start stop : Int}
    {cs : List GrammarNode} : (mk type start stop cs).Within size ↔
      (0 ≤ start ∧ start ≤ stop ∧ stop ≤ size) ∧ ∀ c ∈ cs, c.Within size := by
  constructor
  · intro h
    refine ⟨h [] _ rfl, ?_⟩
    intro c hc
    obtain ⟨i, hi⟩ := List.mem_iff_getElem?.mp hc
    exact h.child hi
  · rintro ⟨hroot, hcs⟩ p g hp
    cases p with
    | nil =>
      cases hp
      exact hroot
    | cons i p =>
      obtain ⟨c, hc, hp⟩ := at?_cons.mp hp
      exact hcs c (List.mem_of_getElem? hc) p g hp

/-- The node without what depends on the other nodes. -/
def Node.bare (n : Node) : Node := { n with id := 0, children := [] }

theorem Draft.map_bare_add (d : Draft) (type : String) (span : Option Span) (parent : Option Int)
    (data : Json.Fields) : (d.add type span parent data).2.nodes.toList.map (·.bare) =
      d.nodes.toList.map (·.bare) ++ [{ id := 0, type, span, parent, data }] := by
  apply List.ext_getElem?
  intro k
  rw [List.getElem?_map, Array.getElem?_toList, getElem?_add]
  by_cases hk : k = d.nodes.size
  · subst hk
    simp [Node.bare]
  · rw [if_neg hk, List.getElem?_append, List.getElem?_map, List.length_map, Array.getElem?_toList,
      Array.length_toList]
    by_cases hlt : k < d.nodes.size
    · rw [if_pos hlt, Option.map_map]
      rfl
    · have hlast : ¬ k - d.nodes.size = 0 := by omega
      rw [if_neg hlt, Array.getElem?_eq_none (by omega), List.getElem?_singleton, if_neg hlast]
      rfl

namespace Flattening

variable {f : Flattening} {source : Text}

/-- The span of a node, from the characters at its offsets. -/
theorem span_eq {g : GrammarNode} (hstart : 0 ≤ g.start) (hstop : g.start ≤ g.stop)
    (hsize : g.stop ≤ (encode source).length) :
    ∃ s, span (.ofText source) g = .ok s ∧
      s.IsAt source (charsBefore source g.start.toNat) (charsBefore source g.stop.toNat) := by
  have hoffset : ∀ b : Int, 0 ≤ b → b ≤ (encode source).length →
      charOffset (.ofText source) b = .ok (charsBefore source b.toNat) := by
    intro b hb hle
    obtain ⟨b, rfl⟩ := Int.eq_ofNat_of_zero_le hb
    rw [charOffset, ByteIndex.charOffset_ofText source (by omega)]
    rfl
  have hposition : ∀ b, ∃ p, Tree.positionAt (.ofText source) (charsBefore source b) = .ok p ∧
      p.offset = charsBefore source b :=
    fun b => ⟨_, Tree.positionAt_ofText source (charsBefore_le_length source b), rfl⟩
  obtain ⟨a, ha, haoffset⟩ := hposition g.start.toNat
  obtain ⟨b, hb, hboffset⟩ := hposition g.stop.toNat
  have hmono := charsBefore_mono source (show g.start.toNat ≤ g.stop.toNat by omega)
  have hordered : a.offset ≤ b.offset := by omega
  have hspan : Tree.spanAt (.ofText source) (charsBefore source g.start.toNat)
      (charsBefore source g.stop.toNat) = .ok ⟨a, b, hordered⟩ := by
    simp [Tree.spanAt, ha, hb, bind, Except.bind, Span.make?, hordered, Except.mapError]
  refine ⟨⟨a, b, hordered⟩, ?_, hspan⟩
  rw [span, hoffset g.start hstart (by omega), hoffset g.stop (by omega) hsize]
  exact hspan

/-- The draft with a further entry. -/
def enter (f : Flattening) (source : Text) (d : Draft) (e : Entry) : Draft :=
  (d.add e.node.type (span (.ofText source) e.node).toOption (e.parent.map Int.ofNat)
    (f.data (encode source) e.node)).2

theorem size_enter (f : Flattening) (source : Text) (d : Draft) (e : Entry) :
    (f.enter source d e).nodes.size = d.nodes.size + 1 := Draft.size_add ..

theorem size_foldl_enter (f : Flattening) (source : Text) (es : List Entry) (d : Draft) :
    (es.foldl (f.enter source) d).nodes.size = d.nodes.size + es.length := by
  induction es generalizing d with
  | nil => rfl
  | cons e es ih =>
    rw [List.foldl_cons, ih, size_enter, List.length_cons]
    omega

theorem keep_eq {g : GrammarNode} (hg : g.Within (encode source).length) (place : Place)
    {parent : Option Nat} {d : Draft} (hparent : ∀ p, parent = some p → p < d.nodes.size) :
    f.keep (.ofText source) g (parent.map Int.ofNat) d =
      .ok (d.nodes.size, f.enter source d ⟨place, g, parent⟩) := by
  obtain ⟨hstart, hstop, hsize⟩ := hg [] g rfl
  obtain ⟨s, hs, -⟩ := span_eq hstart hstop hsize
  have hadd : ∀ data, d.add g.type (some s) (parent.map Int.ofNat) data =
      (.ok (d.nodes.size : Int), (d.add g.type (some s) (parent.map Int.ofNat) data).2) := by
    intro data
    cases parent with
    | none => rfl
    | some p =>
      have hp := hparent p rfl
      simp [Draft.add, hp]
  rw [keep, enter, hs]
  simp only [bind, Except.bind]
  rw [hadd]
  rfl

mutual

/-- The recursion on the parse adds the kept nodes in turn. -/
theorem addNode_eq (place : Place) (parent : Option Nat) (d : Draft) (n : GrammarNode)
    (hn : n.Within (encode source).length) (hparent : ∀ p, parent = some p → p < d.nodes.size) :
    f.addNode (.ofText source) (parent.map Int.ofNat) d n =
      .ok ((f.entries place parent d.nodes.size n).foldl (f.enter source) d) := by
  match n with
  | .mk type start stop cs =>
    have hcs : ∀ c ∈ cs, c.Within (encode source).length := by
      intro c hc
      obtain ⟨i, hi⟩ := List.mem_iff_getElem?.mp hc
      exact hn.child hi
    have hskip : f.isSkipped ⟨.mk type start stop cs, parent.map Int.ofNat⟩ =
        (parent.isSome && f.transparent.contains type) := by
      rw [isSkipped, Option.isSome_map]
      rfl
    rw [addNode, entries, hskip]
    split
    · exact addAll_eq place parent d 0 cs hcs hparent
    · rw [keep_eq hn place hparent, List.foldl_cons]
      have hsize := size_enter f source d ⟨place, .mk type start stop cs, parent⟩
      have hall := addAll_eq place (some d.nodes.size)
        (f.enter source d ⟨place, .mk type start stop cs, parent⟩) 0 cs hcs
        (by rintro p ⟨⟩; omega)
      rw [hsize] at hall
      exact hall

theorem addAll_eq (place : Place) (parent : Option Nat) (d : Draft) (i : Nat)
    (ns : List GrammarNode) (hns : ∀ n ∈ ns, n.Within (encode source).length)
    (hparent : ∀ p, parent = some p → p < d.nodes.size) :
    f.addAll (.ofText source) (parent.map Int.ofNat) d ns =
      .ok ((f.entriesAll place parent d.nodes.size i ns).foldl (f.enter source) d) := by
  match ns with
  | [] => rw [addAll, entriesAll]; rfl
  | n :: ns =>
    have hsize := size_foldl_enter f source
      (f.entries (place ++ [i]) parent d.nodes.size n) d
    rw [addAll, entriesAll, addNode_eq (place ++ [i]) parent d n (hns n List.mem_cons_self) hparent,
      List.foldl_append, ← hsize]
    apply addAll_eq place parent _ (i + 1) ns (fun m hm => hns m (List.mem_cons_of_mem n hm))
    intro p hp
    have := hparent p hp
    omega

end

/-! ## The stack of waiting nodes -/

mutual

theorem drain_node (ix : ByteIndex) (parent : Option Int) (d : Draft) (n : GrammarNode)
    (ws : List Waiting) : f.drain ix d (⟨n, parent⟩ :: ws) =
      match f.addNode ix parent d n with
      | .error e => .error e
      | .ok d => f.drain ix d ws := by
  match n with
  | .mk type start stop cs =>
    rw [drain, addNode]
    split
    · exact drain_all ix parent d cs ws
    · dsimp only
      cases f.keep ix (.mk type start stop cs) parent d with
      | error e => rfl
      | ok r => exact drain_all ix (some r.1) r.2 cs ws

theorem drain_all (ix : ByteIndex) (parent : Option Int) (d : Draft) (ns : List GrammarNode)
    (ws : List Waiting) : f.drain ix d ((ns.map fun n => ⟨n, parent⟩) ++ ws) =
      match f.addAll ix parent d ns with
      | .error e => .error e
      | .ok d => f.drain ix d ws := by
  match ns with
  | [] => rw [addAll]; rfl
  | n :: ns =>
    rw [List.map_cons, List.cons_append, drain_node ix parent d n, addAll]
    cases f.addNode ix parent d n with
    | error e => rfl
    | ok d => exact drain_all ix parent d ns ws

end

/-! ## The table -/

theorem made_foldl_enter (es : List Entry) {d : Draft} (h : d.Made fun _ => True) :
    (es.foldl (f.enter source) d).Made fun _ => True := by
  induction es generalizing d with
  | nil => exact h
  | cons e es ih => exact ih (h.add _ _ _ _ fun _ _ => trivial)

theorem source_foldl_enter (es : List Entry) (d : Draft) :
    (es.foldl (f.enter source) d).source = d.source := by
  induction es generalizing d with
  | nil => rfl
  | cons e es ih => exact (ih _).trans (Draft.source_add ..)

/-- What the table says of an entry by itself. -/
def row (f : Flattening) (source : Text) (e : Entry) : Node where
  id := 0
  type := e.node.type
  span := (span (.ofText source) e.node).toOption
  parent := e.parent.map Int.ofNat
  data := f.data (encode source) e.node

theorem map_bare_foldl_enter (f : Flattening) (source : Text) (es : List Entry) (d : Draft) :
    (es.foldl (f.enter source) d).nodes.toList.map (·.bare) =
      d.nodes.toList.map (·.bare) ++ es.map (f.row source) := by
  induction es generalizing d with
  | nil => simp
  | cons e es ih =>
    rw [List.foldl_cons, ih, enter, Draft.map_bare_add, List.append_assoc]
    rfl

/-- A tree that copies what is kept of a parse. In pre-order it has one node for the root and for
each node whose type is not transparent, under the nearest one of them above it. Where the offsets
of a node are boundaries of characters, its text has the bytes between them. -/
structure Copies (f : Flattening) (source : Text) (root : GrammarNode) (places : List Place)
    (t : Tree) : Prop where
  source_eq : t.source = source
  root_eq : t.root = 0
  size_eq : t.nodes.size = places.length
  preorder : places.Pairwise (· < ·)
  mem_iff : ∀ p, p ∈ places ↔ ∃ g, root.at? p = some g ∧ (p = [] ∨ g.type ∉ f.transparent)
  copied : ∀ (k : Nat) n p, t.nodes[k]? = some n → places[k]? = some p →
    ∃ g, root.at? p = some g ∧ n.id = k ∧ n.type = g.type ∧ n.data = f.data (encode source) g ∧
      n.Covers source (charsBefore source g.start.toNat) (charsBefore source g.stop.toNat)
  text_eq : ∀ (k : Nat) n p g, t.nodes[k]? = some n → places[k]? = some p → root.at? p = some g →
    ∀ a b, a ≤ source.length → b ≤ source.length → g.start = bytesBefore source a →
      g.stop = bytesBefore source b →
      n.Covers source a b ∧ encode (t.textOf n) = slice (encode source) g.start g.stop
  root_parent : ∀ n, t.nodes[0]? = some n → n.parent = none
  parent_eq : ∀ (k : Nat) n p, t.nodes[k]? = some n → places[k]? = some p → p ≠ [] →
    ∃ j q, n.parent = some (Int.ofNat j) ∧ j < k ∧ places[j]? = some q ∧ q.Above p ∧
      ∀ q' ∈ places, q'.Above p → q' <+: q
  children_eq : ∀ (k : Nat) n, t.nodes[k]? = some n → n.children = (heirs t.nodes k).map Int.ofNat

theorem language_foldl_enter (es : List Entry) (d : Draft) :
    (es.foldl (f.enter source) d).language = d.language := by
  induction es generalizing d with
  | nil => rfl
  | cons e es ih => exact (ih _).trans (Draft.language_add ..)

/-- The draft of the tree of a parse. -/
def draft (f : Flattening) (language : String) (source : Text) (root : GrammarNode) : Draft :=
  (f.entries [] none 0 root).foldl (f.enter source) { language, source }

section

variable {language : String} {root : GrammarNode}

theorem forest_draft : Forest (f.draft language source root).nodes :=
  (made_foldl_enter _ (.empty language source)).forest

/-- Each row of the table is that of the entry at its place. -/
theorem entry_of_draft {k : Nat} {n : Node}
    (hn : (f.draft language source root).nodes[k]? = some n) :
    ∃ e, (f.entries [] none 0 root)[k]? = some e ∧ n.bare = f.row source e := by
  have hbare := map_bare_foldl_enter f source (f.entries [] none 0 root)
    { language, source }
  have hk := congrArg (·[k]?) hbare
  dsimp only at hk
  rw [← draft, List.getElem?_map, Array.getElem?_toList, hn] at hk
  simp only [List.map_nil, List.nil_append, List.getElem?_map] at hk
  obtain ⟨e, he, hrow⟩ := Option.map_eq_some_iff.mp hk.symm
  exact ⟨e, he, hrow.symm⟩

theorem at?_of_entry {k : Nat} {e : Entry} (he : (f.entries [] none 0 root)[k]? = some e) :
    root.at? e.place = some e.node := by
  have hmem := (mem_entries [] none 0 root e.place e.node).mp
    ⟨e, List.mem_of_getElem? he, rfl, rfl⟩
  obtain ⟨p, hp, hat, -⟩ := hmem
  rwa [hp]

theorem head_entries (f : Flattening) (root : GrammarNode) :
    ∃ e es, f.entries [] none 0 root = e :: es ∧ e.place = [] ∧ e.parent = none := by
  cases root with
  | mk type start stop cs => exact ⟨_, _, rfl, rfl, rfl⟩

theorem mem_places {p : Place} : p ∈ (f.entries [] none 0 root).map (·.place) ↔
    ∃ g, root.at? p = some g ∧ (p = [] ∨ g.type ∉ f.transparent) := by
  rw [List.mem_map]
  constructor
  · rintro ⟨e, he, rfl⟩
    obtain ⟨p, hp, hat, hkept⟩ :=
      (mem_entries [] none 0 root e.place e.node).mp ⟨e, he, rfl, rfl⟩
    rw [List.nil_append] at hp
    exact ⟨e.node, hp ▸ hat, hkept.imp (fun h => hp.trans h.1) id⟩
  · rintro ⟨g, hat, hkept⟩
    obtain ⟨e, he, hp, -⟩ := (mem_entries [] none 0 root p g).mpr
      ⟨p, rfl, hat, hkept.imp (fun h => ⟨h, rfl⟩) id⟩
    exact ⟨e, he, hp⟩

/-- Below the root an entry has a parent, the nearest of the entries above it. -/
theorem parent_entries {k : Nat} {e : Entry} (he : (f.entries [] none 0 root)[k]? = some e)
    (hplace : e.place ≠ []) : ∃ j above, (f.entries [] none 0 root)[j]? = some above ∧
      e.parent = some j ∧ j < k ∧ above.place.Above e.place ∧
      ∀ e' ∈ f.entries [] none 0 root, e'.place.Above e.place → e'.place <+: above.place := by
  obtain ⟨-, hnone⟩ | ⟨j, above, hj, hparent, habove, hnearest⟩ :=
    parented_entries [] none 0 root e (List.mem_of_getElem? he)
  · obtain ⟨r, es, hes, hr, -⟩ := head_entries f root
    have hroot : r.place.Above e.place := hr ▸ Place.above_append hplace
    exact absurd hroot (hnone r (hes ▸ List.mem_cons_self))
  · refine ⟨j, above, hj, by rwa [Nat.zero_add] at hparent, ?_, habove, hnearest⟩
    have hlt : above.place < e.place := by
      obtain ⟨⟨q, hq⟩, hne⟩ := habove
      rw [← hq] at hne ⊢
      exact lt_append_of_ne_nil _ (by simpa using hne)
    have hpre := List.pairwise_iff_getElem.mp (pairwise_entries (f := f) [] none 0 root)
    obtain ⟨hjlt, rfl⟩ := List.getElem?_eq_some_iff.mp hj
    obtain ⟨hklt, rfl⟩ := List.getElem?_eq_some_iff.mp he
    rcases Nat.lt_trichotomy j k with h | rfl | h
    · exact h
    · exact absurd hlt (List.lt_irrefl _)
    · exact absurd hlt (List.lt_asymm (hpre k j hklt hjlt h))

theorem covers_of_draft (hroot : root.Within (encode source).length) {k : Nat} {n : Node}
    {e : Entry} (he : (f.entries [] none 0 root)[k]? = some e) (hrow : n.bare = f.row source e) :
    n.Covers source (charsBefore source e.node.start.toNat)
      (charsBefore source e.node.stop.toNat) := by
  obtain ⟨hstart, hstop, hsize⟩ := hroot e.place e.node (at?_of_entry he)
  obtain ⟨s, hs, hspan⟩ := span_eq hstart hstop hsize
  have hnspan := congrArg Node.span hrow
  rw [row, hs] at hnspan
  exact ⟨s, hnspan, hspan⟩

theorem parent_of_head {n : Node} (hn : (f.draft language source root).nodes[0]? = some n) :
    n.parent = none := by
  obtain ⟨e, es, hes, -, hparent⟩ := head_entries f root
  obtain ⟨e', he', hrow⟩ := entry_of_draft hn
  rw [hes] at he'
  cases he'
  exact (congrArg Node.parent hrow).trans (congrArg (Option.map Int.ofNat) hparent)

theorem drain_eq (hroot : root.Within (encode source).length) :
    f.drain (.ofText source) { language, source } [⟨root, none⟩] =
      .ok (f.draft language source root) := by
  have hadd := addNode_eq (f := f) [] none { language, source } root hroot nofun
  rw [Option.map_none] at hadd
  rw [drain_node, hadd]
  dsimp only
  rw [drain]
  rfl

theorem size_draft : (f.draft language source root).nodes.size =
    (f.entries [] none 0 root).length := by
  rw [draft, size_foldl_enter]
  exact Nat.zero_add _

theorem tree_eq (hroot : root.Within (encode source).length) : f.tree language source root =
    .ok ⟨language, source, 0, (f.draft language source root).nodes⟩ := by
  have hlt : 0 < (f.draft language source root).nodes.size := by
    obtain ⟨e, es, hes, -⟩ := head_entries f root
    rw [size_draft, hes]
    exact Nat.succ_pos _
  have hhead := Array.getElem?_eq_getElem hlt
  have hempty : (f.draft language source root).nodes.isEmpty = false := by
    rw [Array.isEmpty_eq_false_iff, ne_eq, ← Array.size_eq_zero_iff]
    omega
  have hindex : index? (f.draft language source root).nodes.size 0 = some 0 := by
    simp [index?, hlt]
  have hlanguage : (f.draft language source root).language = language := language_foldl_enter ..
  have hsource : (f.draft language source root).source = source := source_foldl_enter ..
  rw [tree, drain_eq hroot]
  simp only [bind, Except.bind, Draft.finish, hempty, hindex, Option.bind_some, hhead,
    parent_of_head hhead, hlanguage, hsource]
  rfl

/-- Where the offsets of all nodes lie in the bytes of the source, a tree is made, and it copies the
nodes that are kept. -/
theorem tree_copies (f : Flattening) (language : String)
    (hroot : root.Within (encode source).length) :
    ∃ places t, f.tree language source root = .ok t ∧ t.language = language ∧
      f.Copies source root places t := by
  refine ⟨(f.entries [] none 0 root).map (·.place), _, tree_eq hroot, rfl, ?_⟩
  constructor
  case source_eq => rfl
  case root_eq => rfl
  case size_eq =>
    rw [List.length_map, draft, size_foldl_enter]
    exact Nat.zero_add _
  case preorder => exact List.pairwise_map.mpr (pairwise_entries ..)
  case mem_iff => exact fun p => mem_places
  case copied =>
    intro k n p hn hp
    obtain ⟨e, he, hrow⟩ := entry_of_draft hn
    obtain rfl : e.place = p := by simpa [he] using hp
    exact ⟨e.node, at?_of_entry he, forest_draft.id_eq k n hn, congrArg Node.type hrow,
      congrArg Node.data hrow, covers_of_draft hroot he hrow⟩
  case text_eq =>
    intro k n p g hn hp hg a b ha hb hstart hstop
    obtain ⟨e, he, hrow⟩ := entry_of_draft hn
    obtain rfl : e.place = p := by simpa [he] using hp
    obtain rfl : e.node = g := Option.some.inj ((at?_of_entry he).symm.trans hg)
    have hcovers := covers_of_draft hroot he hrow
    rw [hstart, hstop, Int.toNat_natCast, Int.toNat_natCast, charsBefore_bytesBefore ha,
      charsBefore_bytesBefore hb] at hcovers
    refine ⟨hcovers, ?_⟩
    rw [hstart, hstop, slice_encode source hcovers.le.1]
    exact congrArg encode (Node.Covers.textOf_eq hcovers)
  case root_parent => exact fun n hn => parent_of_head hn
  case parent_eq =>
    intro k n p hn hp hroot'
    obtain ⟨e, he, hrow⟩ := entry_of_draft hn
    obtain rfl : e.place = p := by simpa [he] using hp
    obtain ⟨j, above, hj, hparent, hlt, habove, hnearest⟩ := parent_entries he hroot'
    refine ⟨j, above.place, ?_, hlt, by simp [hj], habove, ?_⟩
    · exact (congrArg Node.parent hrow).trans (congrArg (Option.map Int.ofNat) hparent)
    · intro q hq hqe
      obtain ⟨e', he', rfl⟩ := List.mem_map.mp hq
      exact hnearest e' he' hqe
  case children_eq => exact forest_draft.children_eq

/-- A heading of two bytes and a word, below a section that is left out. -/
theorem tree_copies_section :
    let root := GrammarNode.mk "document" 0 5
      [.mk "section" 0 5 [.mk "heading" 0 2 [.mk "mark" 1 2 []], .mk "word" 3 5 []]]
    root.Within (encode "é\nab".toList).length ∧
    ∃ places t, ({ transparent := ["section"] } : Flattening).tree "markdown" "é\nab".toList root =
      .ok t ∧ t.language = "markdown" ∧
      ({ transparent := ["section"] } : Flattening).Copies "é\nab".toList root places t := by
  have hlength : (encode "é\nab".toList).length = 5 := by decide
  have hroot : GrammarNode.Within (encode "é\nab".toList).length (.mk "document" 0 5
      [.mk "section" 0 5 [.mk "heading" 0 2 [.mk "mark" 1 2 []], .mk "word" 3 5 []]]) := by
    rw [hlength]
    simp [GrammarNode.within_mk]
  exact ⟨hroot, tree_copies _ _ hroot⟩

end

end Flattening

end CodeChunks
