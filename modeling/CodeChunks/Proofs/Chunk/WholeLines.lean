import CodeChunks.Proofs.Chunk.Origins
import CodeChunks.Proofs.Chunk.Paging

/-! # The lines of a whole code

A chunk that holds a whole code, cut by size or as a node that reaches from its beginning to its
end, stands on the lines from the first one to that of the last character. The chunk of a code in
which no node became a chunk ends on the last line, the empty one after a newline at the end. -/
namespace CodeChunks

namespace LineIndex

theorem length_breaksFrom (i : Nat) (t : Text) : (breaksFrom i t).length = t.count '\n' := by
  induction t generalizing i with
  | nil => rfl
  | cons c t ih =>
    by_cases hc : c = '\n' <;> simp [breaksFrom, hc, ih]

theorem lineCount_ofText (t : Text) : (ofText t).lineCount = t.lineAt t.length := by
  rw [lineCount, Text.lineAt_length, ofText, List.size_toArray, length_breaksFrom]

end LineIndex

section

variable {code : Text} (hcode : code ≠ [])

include hcode

/-- A newline at the end of a text opens a line on which nothing stands. -/
theorem Text.lineAt_length_eq : code.lineAt code.length =
    code.lineAt (code.length - 1) + if code.getLast? = some '\n' then 1 else 0 := by
  have hlast := code.lineAt_eq_of_getLast? (List.length_pos_of_ne_nil hcode) (Nat.le_refl _)
  have hwhole : slice code (0 : Nat) code.length = code := slice_zero_length code
  rw [hlast, hwhole]
  split <;> rfl

theorem Text.cutRanges_of_le {size : Nat} (h : code.length ≤ size) :
    code.cutRanges size = [(0, (code.length : Int))] := by
  have hpos := List.length_pos_of_ne_nil hcode
  have hend : cutEnd (.ofText code) size code.length 0 = code.length :=
    cutEnd_of_le (by omega) _ (by omega)
  rw [Text.cutRanges, CodeChunks.cutRanges, dif_pos (by omega), hend, CodeChunks.cutRanges,
    dif_neg (Int.lt_irrefl _)]

theorem exists_fallbackChunk {size : Nat} (h : code.length ≤ size)
    (hhalf : Budget.hasHalf size) : ∃ c, fallbackChunks? code size = .ok [c] ∧
      fallbackChunks code size = [c] := by
  obtain ⟨c, hcut⟩ : ∃ c, fallbackChunks code size = [c] := by
    rw [fallbackChunks, Text.cutRanges_of_le hcode h]
    exact ⟨_, rfl⟩
  refine ⟨c, ?_, hcut⟩
  rw [fallbackChunks?, Budget.guard, Int.toNat_natCast, hhalf, if_pos (by simp), hcut]

end

/-- The chunk stands on every line of a code on which there is a character. -/
structure Chunk.OnAllLines (code : Text) (c : Chunk) : Prop where
  startLine : c.startLine = 1
  endLine : c.endLine = code.lineAt (code.length - 1)

namespace Tree

variable {t : Tree} {l : Option Language} {o : Options}

theorem Placed.onAllLines {k : Cut} (h : t.Placed l o k) (hne : t.source ≠ [])
    (hbounds : k.bounds = (0, t.source.length)) :
    (k.chunk t (t.lead l o)).OnAllLines t.source where
  startLine := by
    rw [h.startLine, hbounds]
    rfl
  endLine := by
    rw [h.endLine, hbounds, Text.lastLineAt, if_pos (List.length_pos_of_ne_nil hne)]

theorem top_mem_cuts {n : Node} {s : Span} (hn : n ∈ t.chosen l o) (hs : n.span = some s)
    (hfits : (t.lead l o ++ t.textOf n).length ≤ o.maxSize) : Cut.top n s ∈ t.cuts l o := by
  refine List.mem_flatMap.mpr ⟨n, hn, ?_⟩
  simp only [topCuts, hs, if_neg (Nat.not_lt.mpr hfits), List.mem_singleton]

end Tree

/-- The chunks that hold a whole code. Cut by size under a budget that it fits, as a chosen node
from its beginning to its end, and as any other part of a tree that takes it up, it stands on the
lines from the first one to that of its last character. The chunk of a code without boundaries ends
one line later if the code ends with a newline. -/
structure WholeLines (code : Text) : Prop where
  fallback : ∀ size : Nat, code.length ≤ size → Budget.hasHalf size →
    ∃ c, fallbackChunks? code size = .ok [c] ∧ c.content = code ∧ c.OnAllLines code
  node : ∀ (t : Tree) l o n, t.source = code → n ∈ t.chosen l o → n.Covers code 0 code.length →
    (t.lead l o ++ code).length ≤ o.maxSize → ∃ c ∈ t.extract l o,
      c.content = t.lead l o ++ code ∧ c.type = n.type ∧ c.OnAllLines code
  cut : ∀ (t : Tree) l o, t.Anchored → t.source = code → ∀ k ∈ t.cuts l o,
    k.bounds = (0, code.length) → (k.chunk t (t.lead l o)).OnAllLines code
  noBoundaries : (wholeChunk code).content = code ∧ (wholeChunk code).startLine = 1 ∧
    (wholeChunk code).endLine =
      code.lineAt (code.length - 1) + if code.getLast? = some '\n' then 1 else 0

theorem wholeLines_of_ne_nil {code : Text} (hcode : code ≠ []) : WholeLines code := by
  constructor
  case fallback =>
    intro size h hhalf
    obtain ⟨c, hc, hchunks⟩ := exists_fallbackChunk hcode h hhalf
    have hpages := hchunks ▸ pages_fallbackChunks code size
    have hcontent := hchunks ▸ flatMap_fallbackChunks code size
    rw [List.flatMap_singleton] at hcontent
    exact ⟨c, hc, hcontent, hpages.startLine_head rfl, hpages.endLine_getLast rfl⟩
  case node =>
    rintro t l o n rfl hn hspan hfits
    have htext : t.textOf n = t.source := hspan.textOf_eq.trans (slice_zero_length t.source)
    have ⟨s, hs, _⟩ := hspan
    have hcut := Tree.top_mem_cuts hn hs (by rwa [htext])
    have hplaced : t.Placed l o (.top n s) := Tree.placed_top hspan hs
    rw [Tree.extract_eq_map]
    exact ⟨_, List.mem_map_of_mem hcut, congrArg (t.lead l o ++ ·) htext, rfl,
      hplaced.onAllLines hcode (Tree.bounds_of_covers hspan hs).1⟩
  case cut =>
    rintro t l o ht rfl k hk hbounds
    exact (ht.shape_of_mem_cuts hk).2.onAllLines hcode hbounds
  case noBoundaries =>
    refine ⟨rfl, rfl, ?_⟩
    have hcount := LineIndex.lineCount_ofText code
    rw [Text.lineAt_length_eq hcode] at hcount
    rw [wholeChunk, hcount]
    split <;> rfl

/-- A unit that takes up the whole code, with the newline at its end. -/
def loneUnitTree : Tree where
  language := "units"
  source := "x\n".toList
  root := 0
  nodes := #[
    { id := 0, type := "module", span := some ⟨⟨0, 0, 0⟩, ⟨1, 0, 2⟩, by decide⟩, children := [1] },
    { id := 1, type := "unit", span := some ⟨⟨0, 0, 0⟩, ⟨1, 0, 2⟩, by decide⟩, parent := some 0 }]

def loneUnits : Language := { name := "units", grammar := "units", boundaries := ["unit"] }

theorem wholeLines_of_ne_nil_unit : "x\n".toList ≠ [] ∧ Budget.hasHalf 2 ∧
    (∃ c, fallbackChunks? "x\n".toList 2 = .ok [c] ∧ c.content = "x\n".toList ∧
      c.OnAllLines "x\n".toList) ∧
    ∃ n ∈ loneUnitTree.chosen loneUnits {}, n.Covers "x\n".toList 0 2 ∧
      ∃ c ∈ loneUnitTree.extract loneUnits {}, c.type = n.type ∧ c.OnAllLines "x\n".toList := by
  have hwhole := @wholeLines_of_ne_nil "x\n".toList (by decide)
  have hhalf : Budget.hasHalf 2 := by decide +kernel
  have hunit : loneUnitTree.chosen loneUnits {} = [loneUnitTree.nodes[1]] := by rfl
  have hspan : Node.Covers "x\n".toList 0 2 loneUnitTree.nodes[1] := ⟨_, rfl, by cbv⟩
  have hmem : loneUnitTree.nodes[1] ∈ loneUnitTree.chosen loneUnits {} := by
    rw [hunit]
    exact List.mem_singleton_self _
  obtain ⟨c, hc, -, htype, hlines⟩ :=
    hwhole.node loneUnitTree loneUnits {} _ rfl hmem hspan (by decide)
  exact ⟨by decide, hhalf, hwhole.fallback 2 (by decide) hhalf, _, hmem, hspan, c, hc, htype,
    hlines⟩

/-- The newline at the end opens a second line for the chunk of the code without boundaries alone.
Under a size beyond the floating point range the code cannot be cut, although it would fit. -/
theorem wholeChunk_newline : Text.allBlank "x\n".toList = false ∧
    (fallbackChunks? "x\n".toList 2).map (·.map fun c => (c.content, c.startLine, c.endLine)) =
      .ok [("x\n".toList, 1, 1)] ∧
    (loneUnitTree.extract loneUnits {}).map (fun c => (c.content, c.startLine, c.endLine)) =
      [("x\n".toList, 1, 1)] ∧
    (wholeChunk "x\n".toList).startLine = 1 ∧ (wholeChunk "x\n".toList).endLine = 2 ∧
    fallbackChunks? "x\n".toList (1 <<< 1024) = .error {} :=
  ⟨by decide, by cbv, by cbv, rfl, by decide, by cbv⟩

end CodeChunks
