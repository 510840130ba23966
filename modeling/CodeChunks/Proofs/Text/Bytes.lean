import CodeChunks.Proofs.Text.Lines
import CodeChunks.Proofs.Text.Slices
import CodeChunks.Proofs.Text.Utf8
import CodeChunks.Text.LineIndex

/-! # Character offsets of byte offsets

The newlines of the bytes are the newlines of the text, so a row starts at the same place in both,
and what is counted between the start of the row and a byte are the characters that begin there. -/
namespace CodeChunks

open Utf8

/-- The newlines of a byte sequence among blanks for all other bytes. -/
def Utf8.newlines (bs : Bytes) : Text := bs.map fun b => if b = 10 then '\n' else ' '

namespace ByteIndex

theorem byteBreaksFrom_eq (i : Nat) (bs : Bytes) :
    byteBreaksFrom i bs = breaksFrom i (newlines bs) := by
  induction bs generalizing i with
  | nil => rfl
  | cons b bs ih =>
    have hcons : newlines (b :: bs) = (if b = 10 then '\n' else ' ') :: newlines bs := rfl
    rw [byteBreaksFrom, ih, hcons, breaksFrom]
    by_cases hb : b = 10 <;> simp [hb]

theorem byteBreaks_ofText (t : Text) :
    (ofText t).byteBreaks = .ofText (newlines (encode t)) := by
  simp [ofText, make, byteBreaksFrom_eq, LineIndex.ofText, newlines]

end ByteIndex

theorem breaksFrom_append (i : Nat) (t u : Text) :
    breaksFrom i (t ++ u) = breaksFrom i t ++ breaksFrom (i + t.length) u := by
  induction t generalizing i with
  | nil => rfl
  | cons c t ih =>
    have hlength : i + (c :: t).length = i + 1 + t.length := by rw [List.length_cons]; omega
    rw [List.cons_append, breaksFrom, breaksFrom, ih, hlength]
    split <;> rfl

theorem breaksFrom_succ (i : Nat) (t : Text) :
    breaksFrom (i + 1) t = (breaksFrom i t).map (· + 1) := by
  induction t generalizing i with
  | nil => rfl
  | cons c t ih =>
    rw [breaksFrom, breaksFrom, ih]
    split <;> rfl

namespace Utf8

/-- Only a newline has the byte of a newline in its encoding. -/
theorem eq_newline_of_mem {c : Char} (h : 10 ∈ String.utf8EncodeChar c) : c = '\n' :=
  Char.toNat_inj.mp (toNat_eq_of_mem_encodeChar h (by decide))

/-- The newlines of an encoded text stand where those of the text are encoded. -/
theorem breaksFrom_encode (i : Nat) (t : Text) :
    breaksFrom i (newlines (encode t)) = (breaksFrom 0 t).map fun p => i + bytesBefore t p := by
  induction t generalizing i with
  | nil => rfl
  | cons c t ih =>
    have hrest : breaksFrom (i + c.utf8Size) (newlines (encode t)) =
        (breaksFrom 1 t).map fun p => i + bytesBefore (c :: t) p := by
      rw [ih, breaksFrom_succ, List.map_map]
      apply List.map_congr_left
      intro p _
      simp [Nat.add_assoc]
    have hlength : (newlines (String.utf8EncodeChar c)).length = c.utf8Size := by
      rw [newlines, List.length_map, String.length_utf8EncodeChar]
    rw [encode_cons, newlines, List.map_append, breaksFrom_append, ← newlines, ← newlines, hlength,
      hrest, breaksFrom]
    by_cases hc : c = '\n'
    · subst hc
      rfl
    · have hnone : breaksFrom i (newlines (String.utf8EncodeChar c)) = [] := by
        rw [List.eq_nil_iff_forall_not_mem]
        intro p hp
        have hmem := List.mem_of_getElem? (mem_breaksFrom.mp hp).2
        obtain ⟨b, hb, hnewline⟩ := List.mem_map.mp hmem
        by_cases h10 : b = 10
        · exact hc (eq_newline_of_mem (h10 ▸ hb))
        · rw [if_neg h10] at hnewline
          cases hnewline
      rw [if_neg hc, hnone]
      rfl

end Utf8

namespace ByteIndex

theorem charBreaks_ofText (t : Text) : (ofText t).charBreaks = .ofText t := rfl

/-- As many rows of bytes as of characters, and each starts where the other does. -/
theorem rowStart_byteBreaks (t : Text) {r : Nat} (hr : r ≤ (ofText t).byteBreaks.breaks.size) :
    r < (ofText t).charBreaks.lineCount ∧
    (ofText t).charBreaks.rowStart r ≤ t.length ∧
    (ofText t).byteBreaks.rowStart r = bytesBefore t ((ofText t).charBreaks.rowStart r) := by
  rw [byteBreaks_ofText, charBreaks_ofText] at *
  have hbreaks : (LineIndex.ofText (newlines (encode t))).breaks =
      (LineIndex.ofText t).breaks.map fun p => bytesBefore t p := by
    simp [LineIndex.ofText, breaksFrom_encode]
  rw [hbreaks, Array.size_map] at hr
  refine ⟨Nat.lt_succ_of_le hr, ?_⟩
  cases r with
  | zero => simp [LineIndex.rowStart]
  | succ r =>
    have hget : (LineIndex.ofText t).breaks[r]? = some (LineIndex.ofText t).breaks[r] :=
      Array.getElem?_eq_getElem hr
    have hnewline := (LineIndex.mem_breaks_ofText t).mp (Array.getElem_mem hr)
    generalize (LineIndex.ofText t).breaks[r] = p at hget hnewline
    obtain ⟨hp, hchar⟩ := List.getElem?_eq_some_iff.mp hnewline
    have hstep : bytesBefore t (p + 1) = bytesBefore t p + 1 := by
      have henc : encode ['\n'] = [10] := rfl
      rw [bytesBefore, List.take_succ_eq_append_getElem hp, encode_append, List.length_append,
        hchar, henc]
      rfl
    simp only [LineIndex.rowStart, hbreaks, Nat.add_sub_cancel, Array.getElem?_map, hget,
      Option.map_some, Nat.succ_ne_zero, if_false]
    exact ⟨hp, hstep.symm⟩

/-- The character at or around a byte, found by its row whether or not each byte is one
character. -/
def decodedOffset (ix : ByteIndex) (b : Int) : Except Fault Int :=
  let r := ix.byteBreaks.row b
  let head := Utf8.decode (slice ix.contents (ix.byteBreaks.rowStart r) b)
  if r < ix.charBreaks.lineCount then .ok (ix.charBreaks.rowStart r + head.length)
  else .error .noSuchRow

theorem charOffset_eq (ix : ByteIndex) (b : Int) : ix.charOffset b =
    if ix.contents.length = ix.text.length then .ok b else ix.decodedOffset b := rfl

/-- The row of a byte, decoded up to it, has the characters that begin before it. -/
theorem decodedOffset_ofText (t : Text) (b : Nat) :
    (ofText t).decodedOffset b = .ok (charsBefore t b) := by
  have hrow := LineIndex.row_spec (newlines (encode t)) b
  have hstart := (LineIndex.rowStart_spec (newlines (encode t)) b).1
  rw [← byteBreaks_ofText] at hrow hstart
  obtain ⟨hlt, hle, heq⟩ := rowStart_byteBreaks t hrow.1
  rw [decodedOffset]
  generalize (ofText t).byteBreaks.row b = r at *
  rw [heq] at hstart ⊢
  generalize (ofText t).charBreaks.rowStart r = k at *
  have hhead : (decode (slice (ofText t).contents (bytesBefore t k) b)).length =
      charsBefore (t.drop k) (b - bytesBefore t k) := by
    change (decode (slice (encode t) (bytesBefore t k) b)).length = _
    rw [slice_natCast_eq, drop_bytesBefore_encode, length_decode_take_encode]
  rw [if_pos hlt, hhead, charsBefore_eq_add hle hstart]
  rfl

/-- The offset of a byte counts the characters that begin before it. -/
theorem charOffset_ofText (t : Text) {b : Nat} (hb : b ≤ (encode t).length) :
    (ofText t).charOffset b = .ok (charsBefore t b) := by
  rw [charOffset_eq]
  by_cases hlength : (encode t).length = t.length
  · rw [charsBefore_eq_self hlength (by omega)]
    exact if_pos hlength
  · exact (if_neg hlength).trans (decodedOffset_ofText t b)

/-- Every byte offset of a text has a character offset: the number of the characters that begin
before it. So the offsets keep their order and lie in the text, a boundary is found again, and where
each byte is one character decoding finds the byte offset itself. -/
theorem charOffset_counts (t : Text) :
    (∀ b ≤ (encode t).length, (ofText t).charOffset b =
      .ok ((List.range t.length).countP fun k => bytesBefore t k < b)) ∧
    (∀ a b : Nat, a ≤ b → b ≤ (encode t).length → ∀ m n, (ofText t).charOffset a = .ok m →
      (ofText t).charOffset b = .ok n → m ≤ n ∧ n ≤ t.length) ∧
    (∀ k ≤ t.length, (ofText t).charOffset (bytesBefore t k) = .ok k) ∧
    ∀ b ≤ (encode t).length, (ofText t).decodedOffset b = (ofText t).charOffset b := by
  refine ⟨?_, ?_, ?_, ?_⟩
  · intro b hb
    rw [charOffset_ofText t hb, charsBefore_eq_countP]
  · intro a b hab hb m n hm hn
    rw [charOffset_ofText t (Nat.le_trans hab hb)] at hm
    rw [charOffset_ofText t hb] at hn
    cases hm
    cases hn
    exact ⟨Int.ofNat_le.mpr (charsBefore_mono t hab), Int.ofNat_le.mpr (charsBefore_le_length t b)⟩
  · intro k hk
    rw [charOffset_ofText t (bytesBefore_le_length t k), charsBefore_bytesBefore hk]
  · intro b hb
    rw [decodedOffset_ofText, charOffset_ofText t hb]

/-- The fourth byte lies inside the third character, after a newline. -/
theorem charOffset_counts_inside : 4 ≤ (encode "\u00e9\n\u00fc".toList).length ∧
    (ofText "\u00e9\n\u00fc".toList).charOffset 4 = .ok 3 := by
  have hb : 4 ≤ (encode "\u00e9\n\u00fc".toList).length := by decide
  exact ⟨hb, (charOffset_counts _).1 4 hb⟩

end ByteIndex

/-- Between boundaries, the bytes are the encoding of the characters. -/
theorem Utf8.slice_encode (t : Text) {a b : Nat} (h : a ≤ b) :
    slice (encode t) (bytesBefore t a) (bytesBefore t b) = encode (slice t a b) := by
  have htake : bytesBefore t a = bytesBefore (t.take b) a := by
    rw [bytesBefore, bytesBefore, List.take_take, Nat.min_eq_left h]
  rw [slice_natCast, take_bytesBefore_encode, htake, drop_bytesBefore_encode, slice_natCast]

end CodeChunks
