import CodeChunks.Text.Basic
import CodeChunks.Text.Utf8

/-! # Rows and columns of character offsets -/
namespace CodeChunks

def breaksFrom (i : Nat) : Text → List Nat
  | [] => []
  | c :: t => if c = '\n' then i :: breaksFrom (i + 1) t else breaksFrom (i + 1) t

/-- The length of a text and the offsets of its newlines in increasing order. -/
structure LineIndex where
  length : Nat
  breaks : Array Nat

namespace LineIndex

def ofText (t : Text) : LineIndex := ⟨t.length, (breaksFrom 0 t).toArray⟩

def lineCount (ix : LineIndex) : Nat := ix.breaks.size + 1

/-- The least index from `low` on whose entry is not below `x`, found by halving. -/
def firstNotBelow (xs : Array Nat) (x : Int) (low high : Nat) (h : high ≤ xs.size) : Nat :=
  if hlt : low < high then
    have hmid : (low + high) / 2 < xs.size := by omega
    if xs[(low + high) / 2] < x then firstNotBelow xs x ((low + high) / 2 + 1) high h
    else firstNotBelow xs x low ((low + high) / 2) (by omega)
  else low
termination_by high - low

/-- The number of newlines before an offset. -/
def row (ix : LineIndex) (o : Int) : Nat :=
  firstNotBelow ix.breaks o 0 ix.breaks.size (Nat.le_refl _)

/-- The offset at which a row starts. -/
def rowStart (ix : LineIndex) (r : Nat) : Nat :=
  if r = 0 then 0 else
    match ix.breaks[r - 1]? with
    | some p => p + 1
    | none => 0

/-- The offset after the last newline in `[low, high)`. -/
def lastBreak? (ix : LineIndex) (low high : Int) : Option Nat :=
  match ix.row high with
  | 0 => none
  | i + 1 => match ix.breaks[i]? with
    | some p => if p < low then none else some (p + 1)
    | none => none

/-- An offset that lies in no text of the given length. -/
structure OutOfRange where
  offset : Int
  length : Nat
deriving DecidableEq, Repr

def OutOfRange.message (e : OutOfRange) : String :=
  s!"Offset {e.offset} out of bounds (0-{e.length})"

/-- The row and the column of an offset, both counted from zero. -/
def point (ix : LineIndex) (o : Int) : Except OutOfRange (Nat × Int) :=
  if o < 0 ∨ ix.length < o then .error ⟨o, ix.length⟩
  else .ok (ix.row o, o - ix.rowStart (ix.row o))

/-- The line of the character at an offset, counted from one. -/
def line (ix : LineIndex) (o : Int) : Nat := ix.row o + 1

/-- The last line of `[start, stop)`; a newline at its end opens no further line. -/
def lastLine (ix : LineIndex) (start stop : Int) : Nat :=
  if stop ≤ start then ix.line start else ix.line (stop - 1)

def line? (ix : LineIndex) (o : Int) : Except OutOfRange Nat := (ix.point o).map (·.1 + 1)

def lastLine? (ix : LineIndex) (start stop : Int) : Except OutOfRange Nat :=
  if stop ≤ start then ix.line? start else ix.line? (stop - 1)

end LineIndex

/-! ## Character offsets of byte offsets -/

/-- A byte sequence beside the text it encodes, with the newlines of both. -/
structure ByteIndex where
  contents : Bytes
  text : Text
  byteBreaks : LineIndex
  charBreaks : LineIndex

namespace ByteIndex

def byteBreaksFrom (i : Nat) : Bytes → List Nat
  | [] => []
  | b :: bs => if b = 10 then i :: byteBreaksFrom (i + 1) bs else byteBreaksFrom (i + 1) bs

def make (contents : Bytes) (text : Text) : ByteIndex :=
  ⟨contents, text, ⟨contents.length, (byteBreaksFrom 0 contents).toArray⟩, .ofText text⟩

def ofText (text : Text) : ByteIndex := make (Utf8.encode text) text

/-- A row of the bytes that the text does not have. -/
inductive Fault where
  | noSuchRow
deriving DecidableEq, Repr

def Fault.message : Fault → String
  | .noSuchRow => "list index out of range"

/-- The character at or around a byte. Where each byte is one character, offsets stay as they are;
elsewhere the bytes between the start of the row and the offset are decoded and counted. -/
def charOffset (ix : ByteIndex) (b : Int) : Except Fault Int :=
  if ix.contents.length = ix.text.length then .ok b else
    let r := ix.byteBreaks.row b
    let head := Utf8.decode (slice ix.contents (ix.byteBreaks.rowStart r) b)
    if r < ix.charBreaks.lineCount then .ok (ix.charBreaks.rowStart r + head.length)
    else .error .noSuchRow

end ByteIndex

end CodeChunks
