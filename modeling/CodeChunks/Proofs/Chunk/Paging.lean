import CodeChunks.Chunk.Split
import CodeChunks.Proofs.Text.Alignment
import Mathlib.Data.List.Chain

/-! # A code cut by size is kept whole -/
namespace CodeChunks

variable (code : Text)

theorem map_content_fallbackChunks (size : Budget) :
    (fallbackChunks code size).map (·.content) =
      (code.cutRanges size).map fun r => slice code r.1 r.2 := by
  conv => rhs; rw [← List.zipIdx_map_fst 0 (code.cutRanges size), List.map_map]
  rw [fallbackChunks, List.map_map]
  rfl

theorem flatMap_fallbackChunks (size : Budget) :
    (fallbackChunks code size).flatMap (·.content) = code := by
  rw [List.flatMap, map_content_fallbackChunks]
  exact code.flatMap_cutRanges size

theorem length_fallbackChunks {size : Nat} (hsize : 0 < size) {c : Chunk}
    (hc : c ∈ fallbackChunks code size) : c.content.length ≤ size := by
  have hcontent : c.content ∈ (fallbackChunks code size).map (·.content) :=
    List.mem_map_of_mem hc
  rw [map_content_fallbackChunks] at hcontent
  obtain ⟨r, hr, hslice⟩ := List.mem_map.mp hcontent
  exact hslice ▸ code.length_slice_cutRanges hsize hr

theorem metadata_of_mem_fallbackChunks {size : Budget} {c : Chunk}
    (hc : c ∈ fallbackChunks code size) :
    ∃ i : Nat, c.metadata = [("fallback", .bool true), ("index", .int i)] := by
  obtain ⟨⟨r, i⟩, -, rfl⟩ := List.mem_map.mp hc
  exact ⟨i, rfl⟩

theorem isFallback_of_mem_fallbackChunks {size : Budget} {c : Chunk}
    (hc : c ∈ fallbackChunks code size) : c.isFallback := by
  obtain ⟨i, hmetadata⟩ := metadata_of_mem_fallbackChunks code hc
  rw [Chunk.isFallback, Chunk.flag, hmetadata]
  rfl

/-! ## A code cut by size is paged by its lines

A chunk stands on the lines of the characters that it was cut from. A cut after a newline lets the
next chunk begin on a line of its own, and a cut inside a line leaves it on the line of the chunk
before, so that the chunks share out the lines of the code in order and leave none out. -/

namespace Text

/-- The newlines of a text, not counting one at its end. -/
def innerBreaks (t : Text) : Nat := t.dropLast.count '\n'

variable (t : Text) {a b : Nat}

theorem dropLast_slice (h : a < b) (hb : b ≤ t.length) :
    (slice t a b).dropLast = (slice t a b).take (b - 1 - a) := by
  have hlength : b - a - 1 = b - 1 - a := by omega
  rw [List.dropLast_eq_take, length_slice t hb, hlength]

theorem lineAt_add_innerBreaks (h : a < b) (hb : b ≤ t.length) :
    t.lineAt a + innerBreaks (slice t a b) = t.lineAt (b - 1) := by
  have hlast : b - 1 = a + (b - 1 - a) := by omega
  rw [innerBreaks, dropLast_slice t h hb, hlast,
    lineAt_drop_take t (show b - 1 - a ≤ b - a by omega), ← slice_natCast_eq, lineAt, lineAt,
    ← hlast]
  omega

theorem getLast?_slice (h : a < b) (hb : b ≤ t.length) : (slice t a b).getLast? = t[b - 1]? := by
  have hlast : a + (b - a - 1) = b - 1 := by omega
  rw [List.getLast?_eq_getElem?, length_slice t hb, slice_natCast, List.getElem?_drop, hlast,
    List.getElem?_take_of_lt (by omega)]

/-- Only after a newline does the next character stand on the next line. -/
theorem lineAt_eq_of_getLast? (h : a < b) (hb : b ≤ t.length) : t.lineAt b =
    if (slice t a b).getLast? = some '\n' then t.lineAt (b - 1) + 1 else t.lineAt (b - 1) := by
  have hsucc := lineAt_succ t (show b - 1 < t.length by omega)
  rw [show b - 1 + 1 = b by omega] at hsucc
  rw [getLast?_slice t h hb, hsucc]
  split <;> rfl

end Text

/-- Chunks that were cut from a code from an offset on to its end, each with the lines of its first
and of its last character. -/
inductive Pages (code : Text) : Nat → List Chunk → Prop
  | nil : Pages code code.length []
  | cons {a b : Nat} {c : Chunk} {cs : List Chunk} (lt : a < b) (le : b ≤ code.length)
      (content : c.content = slice code a b) (startLine : c.startLine = code.lineAt a)
      (endLine : c.endLine = code.lineAt (b - 1)) (rest : Pages code b cs) : Pages code a (c :: cs)

namespace Pages

variable {code : Text} {a : Nat} {cs : List Chunk}

theorem content_ne_nil (h : Pages code a cs) {c : Chunk} (hc : c ∈ cs) : c.content ≠ [] := by
  induction h with
  | nil => cases hc
  | @cons a b _ _ lt le content _ _ _ ih =>
    rcases List.mem_cons.mp hc with rfl | hc
    · have hlength := @length_slice _ code a b le
      intro hnil
      rw [← content, hnil, List.length_nil] at hlength
      omega
    · exact ih hc

theorem startLine_head (h : Pages code a cs) {c : Chunk} (hc : cs.head? = some c) :
    c.startLine = code.lineAt a := by
  cases h with
  | nil => cases hc
  | cons _ _ _ startLine _ _ =>
    cases hc
    exact startLine

theorem extent (h : Pages code a cs) {c : Chunk} (hc : c ∈ cs) :
    c.endLine - c.startLine = c.content.innerBreaks := by
  induction h with
  | nil => cases hc
  | cons lt le content startLine endLine _ ih =>
    rcases List.mem_cons.mp hc with rfl | hc
    · have hlines := code.lineAt_add_innerBreaks lt le
      rw [startLine, endLine, content]
      omega
    · exact ih hc

/-- A chunk begins on the line that the one before ends on, or on the next one after a newline. -/
theorem isChain (h : Pages code a cs) : cs.IsChain fun c d =>
    d.startLine = if c.content.getLast? = some '\n' then c.endLine + 1 else c.endLine := by
  induction h with
  | nil => exact .nil
  | cons lt le content _ endLine rest ih =>
    refine List.isChain_cons.mpr ⟨fun d hd => ?_, ih⟩
    rw [rest.startLine_head hd, code.lineAt_eq_of_getLast? lt le, content, endLine]
    split <;> rfl

theorem endLine_getLast (h : Pages code a cs) {c : Chunk} (hc : cs.getLast? = some c) :
    c.endLine = code.lineAt (code.length - 1) := by
  induction h with
  | nil => cases hc
  | cons _ _ _ _ endLine rest ih =>
    cases rest with
    | nil =>
      cases hc
      exact endLine
    | cons lt le content startLine endLine rest =>
      exact ih ((List.getLast?_cons_cons ..).symm.trans hc)

/-- No line from the first of the chunks to the last of the code is left out. -/
theorem covers (h : Pages code a cs) (hne : cs ≠ []) {n : Nat} (hfirst : code.lineAt a ≤ n)
    (hlast : n ≤ code.lineAt (code.length - 1)) :
    ∃ c ∈ cs, c.startLine ≤ n ∧ n ≤ c.endLine := by
  induction h with
  | nil => exact absurd rfl hne
  | @cons a b c cs lt le content startLine endLine rest ih =>
    rcases Nat.lt_or_ge (code.lineAt (b - 1)) n with hn | hn
    · -- the line lies after the chunk, and the next one begins there or before
      have hnext := code.lineAt_eq_of_getLast? lt le
      have hcs : cs ≠ [] := by
        rintro rfl
        cases rest
        omega
      obtain ⟨d, hd, hline⟩ := ih hcs (by split at hnext <;> omega)
      exact ⟨d, List.mem_cons_of_mem c hd, hline⟩
    · exact ⟨c, List.mem_cons_self, by omega, by omega⟩

end Pages

theorem pages_of_tiles {code : Text} {a c : Int} {rs : List (Int × Int)} (h : Tiles a c rs)
    (ha : 0 ≤ a) (hc : c = code.length) (first : Nat) :
    Pages code a.toNat ((rs.zipIdx first).map fun (r, i) => {
      content := slice code r.1 r.2
      type := "text"
      startLine := (LineIndex.ofText code).line r.1
      endLine := (LineIndex.ofText code).lastLine r.1 r.2
      metadata := [("fallback", .bool true), ("index", .int i)] }) := by
  induction h generalizing first with
  | nil a =>
    have hend : a.toNat = code.length := by omega
    rw [hend]
    exact .nil
  | @cons a b c rs h hr ih =>
    have hle := hr.le
    obtain ⟨k, rfl⟩ := Int.eq_ofNat_of_zero_le ha
    obtain ⟨m, rfl⟩ := Int.eq_ofNat_of_zero_le (show 0 ≤ b by omega)
    have hkm : k < m := by omega
    refine .cons hkm (by omega) rfl ?_ ?_ (ih (by omega) hc (first + 1))
    · exact congrArg Int.ofNat (LineIndex.line_ofText code k)
    · have hlast := LineIndex.lastLine_ofText code k m
      rw [Text.lastLineAt, if_pos hkm] at hlast
      exact congrArg Int.ofNat hlast

theorem pages_fallbackChunks (code : Text) (size : Budget) :
    Pages code 0 (fallbackChunks code size) :=
  pages_of_tiles (code.tiles_cutRanges size) (Int.le_refl 0) rfl 0

/-- Chunks that make up a code and share out its lines. -/
structure Paged (code : Text) (size : Budget) (cs : List Chunk) : Prop where
  contents : cs.flatMap (·.content) = code
  content_ne_nil : ∀ c ∈ cs, c.content ≠ []
  size_le : ∀ c ∈ cs, c.content.length ≤ size
  metadata : cs.map (·.metadata) =
    (List.range cs.length).map fun i : Nat => [("fallback", .bool true), ("index", .int i)]
  first : ∀ c, cs.head? = some c → c.startLine = 1
  extent : ∀ c ∈ cs, c.endLine - c.startLine = c.content.innerBreaks
  next : cs.IsChain fun c d =>
    d.startLine = if c.content.getLast? = some '\n' then c.endLine + 1 else c.endLine
  last : ∀ c, cs.getLast? = some c → c.endLine = code.lineAt (code.length - 1)
  covers : ∀ n : Nat, 1 ≤ n → n ≤ code.lineAt (code.length - 1) →
    ∃ c ∈ cs, c.startLine ≤ n ∧ n ≤ c.endLine

theorem map_metadata_fallbackChunks (code : Text) (size : Budget) :
    (fallbackChunks code size).map (·.metadata) =
      (List.range (fallbackChunks code size).length).map fun i : Nat =>
        [("fallback", .bool true), ("index", .int i)] := by
  have hlength : (fallbackChunks code size).length = (code.cutRanges size).length := by
    rw [fallbackChunks, List.length_map, List.length_zipIdx]
  rw [hlength, List.range_eq_range', ← List.zipIdx_map_snd 0 (code.cutRanges size), List.map_map,
    fallbackChunks, List.map_map]
  rfl

/-- A code that is not empty is cut into chunks that share out its lines: they start at line one, a
chunk spans the newlines of its content but one at the end, the next one follows on the same line or
on the next, and the last one ends where the code does. -/
theorem fallback_paged {code : Text} (hcode : code ≠ []) {size : Budget} (hpos : 1 ≤ size)
    (hsize : size < 2 ^ 53) :
    ∃ cs, fallbackChunks? code size = .ok cs ∧ cs ≠ [] ∧ Paged code size cs := by
  have hpages := pages_fallbackChunks code size
  have hne : fallbackChunks code size ≠ [] := by
    intro hnil
    have hcontents := flatMap_fallbackChunks code size
    rw [hnil] at hcontents
    exact hcode hcontents.symm
  refine ⟨_, Budget.guard_natCast hsize _ _, hne, ?_⟩
  constructor
  case contents => exact flatMap_fallbackChunks code size
  case content_ne_nil => exact fun c hc => hpages.content_ne_nil hc
  case size_le => exact fun c hc => length_fallbackChunks code hpos hc
  case metadata => exact map_metadata_fallbackChunks code size
  case first => exact fun c hc => hpages.startLine_head hc
  case extent => exact fun c hc => hpages.extent hc
  case next => exact hpages.isChain
  case last => exact fun c hc => hpages.endLine_getLast hc
  case covers => exact fun n hfirst hlast => hpages.covers hne hfirst hlast

/-- Empty lines, a line that is cut and a newline at the end. -/
theorem fallback_paged_cutLine : ∃ cs, fallbackChunks? "\n\nabcde\nf\n".toList 3 = .ok cs ∧
    cs.map (fun c => (c.startLine, c.endLine)) = [(1, 3), (3, 3), (3, 4), (4, 4)] ∧
    Paged "\n\nabcde\nf\n".toList 3 cs := by
  obtain ⟨cs, hcs, -, hpaged⟩ :=
    @fallback_paged "\n\nabcde\nf\n".toList (by decide) 3 (by decide) (by decide)
  have hlines : (fallbackChunks "\n\nabcde\nf\n".toList 3).map
      (fun c => (c.startLine, c.endLine)) = [(1, 3), (3, 3), (3, 4), (4, 4)] := by decide +kernel
  have hguard := hcs.symm.trans (@Budget.guard_natCast _ 3 (by decide) _ _)
  exact ⟨cs, hcs, Except.ok.inj hguard ▸ hlines, hpaged⟩

end CodeChunks
