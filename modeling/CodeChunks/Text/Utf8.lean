import CodeChunks.Text.Basic

/-! # UTF-8 -/
namespace CodeChunks

abbrev Bytes := List UInt8

namespace Utf8

def encode (t : Text) : Bytes := t.flatMap String.utf8EncodeChar

/-- What a leading byte announces: its own bits, how many bytes continue it, and the bounds of the
first of them. -/
structure Lead where
  bits : Nat
  more : Nat
  low : Nat
  high : Nat

/-- Bytes that lead nothing are continuations, the overlong leads `C0` and `C1`, and leads beyond
the last code point. -/
def lead? (b : UInt8) : Option Lead :=
  let n := b.toNat
  if n < 0x80 then some ⟨n, 0, 0x80, 0xBF⟩
  else if n < 0xC2 then none
  else if n < 0xE0 then some ⟨n - 0xC0, 1, 0x80, 0xBF⟩
  else if n = 0xE0 then some ⟨0, 2, 0xA0, 0xBF⟩
  else if n = 0xED then some ⟨0xD, 2, 0x80, 0x9F⟩
  else if n < 0xF0 then some ⟨n - 0xE0, 2, 0x80, 0xBF⟩
  else if n = 0xF0 then some ⟨0, 3, 0x90, 0xBF⟩
  else if n < 0xF4 then some ⟨n - 0xF0, 3, 0x80, 0xBF⟩
  else if n = 0xF4 then some ⟨4, 3, 0x80, 0x8F⟩
  else none

/-- The first unit of a byte sequence: a character, a maximal ill-formed part followed by the byte
that broke it, or a beginning of a character that the end of the sequence cuts off. -/
inductive Piece where
  | char (c : Char) (rest : Bytes)
  | broken (rest : Bytes)
  | cut

def continuation (more low high acc : Nat) (bs : Bytes) : Piece :=
  match more, bs with
  | 0, bs => .char (Char.ofNat acc) bs
  | _ + 1, [] => .cut
  | more + 1, b :: bs =>
    if low ≤ b.toNat ∧ b.toNat ≤ high then
      continuation more 0x80 0xBF (acc * 64 + b.toNat % 64) bs
    else .broken (b :: bs)

def piece (b : UInt8) (bs : Bytes) : Piece :=
  match lead? b with
  | none => .broken bs
  | some l => continuation l.more l.low l.high l.bits bs

def Piece.restLength : Piece → Nat
  | .char _ rest => rest.length
  | .broken rest => rest.length
  | .cut => 0

theorem restLength_continuation_le (more low high acc : Nat) (bs : Bytes) :
    (continuation more low high acc bs).restLength ≤ bs.length := by
  fun_induction continuation more low high acc bs with
  | case1 => simp [Piece.restLength]
  | case2 => simp [Piece.restLength]
  | case3 low high acc more b bs h ih => simp only [List.length_cons]; omega
  | case4 => simp [Piece.restLength]

theorem restLength_piece_le (b : UInt8) (bs : Bytes) : (piece b bs).restLength ≤ bs.length := by
  unfold piece
  split
  · simp [Piece.restLength]
  · exact restLength_continuation_le ..

/-- The characters of a byte sequence, with one replacement character for each maximal ill-formed
part. -/
def decode : Bytes → Text
  | [] => []
  | b :: bs => match _h : piece b bs with
    | .char c rest => c :: decode rest
    | .broken rest => '\uFFFD' :: decode rest
    | .cut => ['\uFFFD']
termination_by bs => bs.length
decreasing_by
  all_goals
    have := restLength_piece_le b bs
    rw [_h] at this
    simp only [Piece.restLength] at this
    simp only [List.length_cons]
    omega

/-- Why bytes are not UTF-8: one may not stand where it stands, or the end cuts a character off. -/
inductive Reason where
  | invalidByte
  | endOfData
deriving DecidableEq

/-- Where a byte sequence stops being UTF-8. -/
structure Fault where
  start : Nat
  reason : Reason

/-- The first fault of the bytes that stand at `start`. -/
def fault? (start : Nat) : Bytes → Option Fault
  | [] => none
  | b :: bs => match _h : piece b bs with
    | .char c rest => fault? (start + c.utf8Size) rest
    | .broken _ => some ⟨start, .invalidByte⟩
    | .cut => some ⟨start, .endOfData⟩
termination_by bs => bs.length
decreasing_by
  have := restLength_piece_le b bs
  rw [_h] at this
  simp only [Piece.restLength] at this
  simp only [List.length_cons]
  omega

end Utf8

namespace Text

/-- Carriage returns, alone or before a newline, end lines as newlines do. -/
def foldNewlines : Text → Text
  | [] => []
  | '\r' :: '\n' :: t => '\n' :: foldNewlines t
  | c :: t => (if c = '\r' then '\n' else c) :: foldNewlines t

end Text

end CodeChunks
