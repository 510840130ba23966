import CodeChunks.Chunk.Pipeline
import CodeChunks.Proofs.Text.Lines
import CodeChunks.Proofs.Text.Parts
import CodeChunks.Proofs.Text.Slices
import Mathlib.Data.List.Basic

/-! # Fenced blocks and what they enclose -/
namespace CodeChunks.Fence

/-- Lines fenced by a marker: one that opens with it, at least one line between, of which only the
first may look like a closing one, and one that closes with it. -/
structure Block where
  mark : Char
  isMark : mark = '\x60' ∨ mark = '~'
  count : Nat
  three_le : 3 ≤ count
  info : Text
  head_info : info.head? ≠ some mark
  first : Text
  others : List Text
  unclosed : ∀ l ∈ others, ¬ closes (List.replicate count mark) l
  tail : Text
  blank : tail.all isTail

namespace Block

variable (B : Block)

def marker : Text := List.replicate B.count B.mark

def opening : Text := B.marker ++ B.info

def payload : Text := Text.unlines (B.first :: B.others)

def lines : List Text := B.opening :: B.first :: (B.others ++ [B.marker ++ B.tail])

/-- The longest marker that the first line opens is that of the block. -/
theorem markers_opening : ∃ ms, markers B.opening = B.marker :: ms := by
  obtain ⟨k, hk⟩ := Nat.exists_eq_add_of_le' B.three_le
  have hinfo : B.info.takeWhile (· == B.mark) = [] := by
    cases hcs : B.info with
    | nil => rfl
    | cons c cs =>
      have hc : c ≠ B.mark := by
        rintro rfl
        exact B.head_info (by rw [hcs, List.head?_cons])
      exact List.takeWhile_cons_of_neg (by simpa using hc)
  have hlength : (B.opening.takeWhile (· == B.mark)).length = k + 3 := by
    rw [opening, marker, List.takeWhile_append_of_pos (by simp), hinfo]
    simp [hk]
  have hopening : B.opening = B.mark :: (List.replicate (k + 2) B.mark ++ B.info) := by
    rw [opening, marker, hk, List.replicate_succ]
    rfl
  rw [hopening] at hlength ⊢
  rw [markers, if_pos B.isMark]
  dsimp only
  rw [hlength, Nat.add_right_comm, Nat.add_sub_cancel, List.range_succ, List.reverse_concat,
    List.map_cons, marker, hk]
  exact ⟨_, rfl⟩

theorem closes_closing : closes B.marker (B.marker ++ B.tail) := by
  rw [closes, Bool.and_eq_true, Text.startsWith_iff, List.drop_left]
  exact ⟨List.prefix_append _ _, B.blank⟩

end Block

theorem untilClosed_append {marker closing : Text} {ls : List Text}
    (hls : ∀ l ∈ ls, ¬ closes marker l) (hclosing : closes marker closing) (rest : List Text) :
    untilClosed marker (ls ++ closing :: rest) = some ls := by
  induction ls with
  | nil => simp [untilClosed, hclosing]
  | cons l ls ih =>
    obtain ⟨hl, hls⟩ := List.forall_mem_cons.mp hls
    rw [List.cons_append, untilClosed, if_neg hl, ih hls, Option.map_some]

namespace Block

variable {B : Block} {t : Text} (h : t.lines = B.lines)

include h

theorem payload_eq : Fence.payload t = B.payload := by
  obtain ⟨ms, hms⟩ := B.markers_opening
  have hclosed : untilClosed B.marker (B.others ++ [B.marker ++ B.tail]) = some B.others :=
    untilClosed_append B.unclosed B.closes_closing []
  rw [Fence.payload, h, lines, firstEnclosed, hms, List.findSome?_cons, enclosed, hclosed, payload]
  rfl

theorem text_eq : t = B.opening ++ '\n' :: (B.payload ++ '\n' :: (B.marker ++ B.tail)) := by
  have hpayload : Text.unlines (B.first :: (B.others ++ [B.marker ++ B.tail])) =
      B.payload ++ '\n' :: (B.marker ++ B.tail) := by
    rw [← List.cons_append, Text.unlines_append (by simp) (by simp), Text.unlines_singleton,
      payload]
  rw [← t.unlines_lines, h, lines, Text.unlines_cons _ (by simp), hpayload]

private theorem newline_notMem_opening : '\n' ∉ B.opening := by
  refine Text.notMem_of_mem_splitAtChar (t := t) ?_
  rw [← Text.lines, h]
  exact List.mem_cons_self

/-- The payload of a block in a source starts one line below the block. -/
theorem source_eq {source : Text} {start stop : Nat} (hle : start ≤ stop)
    (hlength : stop ≤ source.length) (ht : t = slice source start stop) :
    ∃ pre post, source = pre ++ (B.payload ++ post) ∧
      pre.length = start + B.opening.length + 1 ∧ pre.count '\n' = source.lineAt start := by
  have hsource := eq_take_append_slice source hle
  rw [← ht, text_eq h] at hsource
  refine ⟨source.take start ++ (B.opening ++ ['\n']),
    '\n' :: (B.marker ++ B.tail) ++ source.drop stop, ?_, ?_, ?_⟩
  · simpa only [List.append_assoc, List.cons_append, List.singleton_append, List.nil_append]
      using hsource
  · simp only [List.length_append, List.length_take, List.length_singleton]
    omega
  · rw [Text.lineAt, List.count_append, List.count_append, List.count_singleton_self,
      List.count_eq_zero_of_not_mem (newline_notMem_opening h), Nat.zero_add]

end Block

end CodeChunks.Fence
