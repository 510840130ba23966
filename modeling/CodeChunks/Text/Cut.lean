import CodeChunks.Text.LineIndex

/-! # Cutting a text to a size, at line ends where they are near -/
namespace CodeChunks

/-- The largest number of characters that a piece may have. -/
abbrev Budget := Nat

namespace Budget

/-- The nearest multiple of a power of two with 53 binary digits, ties to the even one. -/
def round53 (n : Nat) : Nat :=
  let u := 1 <<< (n.log2 - 52)
  let q := n / u
  let r := n % u
  (if 2 * r < u ∨ (2 * r = u ∧ q % 2 = 0) then q else q + 1) * u

/-- Half of the budget, taken in binary floating point. -/
def half (n : Budget) : Nat := if n < 1 <<< 53 then n / 2 else round53 n / 2

/-- How far before a full piece the last newline may stand for the cut to be made there. -/
def window (n : Budget) : Nat := max 1 n.half

/-- A budget has a half as long as it lies in the range of binary64. -/
def hasHalf (n : Budget) : Bool := n < 1 <<< 1024 - 1 <<< 970

/-- A size beyond the floating point range, or one below zero. -/
structure TooLarge where
deriving DecidableEq, Repr

def TooLarge.message (_ : TooLarge) : String := "int too large to convert to float"

/-- Runs a cut of a text with something in it only under a size that is a budget with a half. -/
def guard {α : Type} (size : Int) (idle : Bool) (cut : Budget → α) : Except TooLarge α :=
  if idle || (0 ≤ size && hasHalf size.toNat) then .ok (cut size.toNat) else .error {}

end Budget

/-- Where a piece that starts at `start` ends: at the end of the range if it fits, else after the
last newline in the window before the full size, else at the full size. -/
def cutEnd (ix : LineIndex) (size : Budget) (stop start : Int) : Int :=
  let full := min (start + max 1 size) stop
  if full < stop then
    match ix.lastBreak? (max start (full - size.window)) full with
    | some p => if start < p then p else full
    | none => full
  else full

theorem lt_cutEnd (ix : LineIndex) (size : Budget) {stop start : Int} (h : start < stop) :
    start < cutEnd ix size stop start := by
  simp only [cutEnd]
  split
  · split
    · split <;> omega
    · omega
  · omega

/-- The ranges of the pieces of `[start, stop)`, in order and without gaps. -/
def cutRanges (ix : LineIndex) (size : Budget) (stop start : Int) : List (Int × Int) :=
  if _h : start < stop then
    (start, cutEnd ix size stop start) :: cutRanges ix size stop (cutEnd ix size stop start)
  else []
termination_by (stop - start).toNat
decreasing_by
  have := lt_cutEnd ix size _h
  omega

namespace Text

def cutRanges (t : Text) (size : Budget) : List (Int × Int) :=
  CodeChunks.cutRanges (.ofText t) size t.length 0

def cut (t : Text) (size : Budget) : List Text :=
  (t.cutRanges size).map fun r => slice t r.1 r.2

def cut? (t : Text) (size : Int) : Except Budget.TooLarge (List Text) :=
  Budget.guard size t.isEmpty t.cut

end Text

end CodeChunks
