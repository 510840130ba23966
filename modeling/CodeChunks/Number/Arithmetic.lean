import CodeChunks.Number.Binary64

/-! # Arithmetic of binary64 numbers -/

/-! ## Conversions between binary64 and binary32 -/
namespace CodeChunks.Binary32

open Float.Model (Format UnpackedFloat)

/-- The number of a format that is nearest, of two equally near ones the one with the even
mantissa. -/
def fit (spec : Format) : UnpackedFloat → UnpackedFloat
  | .finite s m e _ => .round spec s m e
  | f => f

def narrow (x : Float) : Float32 := .ofModel (.pack (fit .binary32 x.toModel.unpack))

/-- Every binary32 number is one of binary64. -/
def widen (x : Float32) : Float := .ofModel (.pack (fit .binary64 x.toModel.unpack))

end CodeChunks.Binary32

/-! ## Quotients of integers and sums -/
namespace CodeChunks.Binary64

open Float.Model (UnpackedFloat)

def whole (n : Nat) : UnpackedFloat :=
  if h : n = 0 then .zero .positive else .finite .positive n 0 (Nat.pos_of_ne_zero h)

/-- The quotient of two integers, which is rounded once even where the integers are no numbers of
the format. -/
def ratio (n d : Nat) : Float := .ofModel (.pack (.div .binary64 (whole n) (whole d)))

/-- A sum so far, and what rounding has taken from it. -/
structure Tally where
  sum : Float := 0
  lost : Float := 0

namespace Tally

def add (s : Tally) (x : Float) : Tally :=
  let t := s.sum + x
  ⟨t, s.lost + if x.abs < s.sum.abs then (s.sum - t) + x else (x - t) + s.sum⟩

def value (s : Tally) : Float := if s.lost.isFinite then s.sum + s.lost else s.sum

end Tally

/-- The sum with what the roundings have taken from it added in the end. -/
def sum (xs : List Float) : Float := (xs.foldl Tally.add {}).value

end CodeChunks.Binary64

/-! ## Natural logarithms

They are computed in units that are far below the last place of the result, which is rounded
once. -/
namespace CodeChunks.Logarithm

open Float.Model (UnpackedFloat)

/-- The number of binary places that are kept. -/
def places : Nat := 128

/-- The sum of `x ^ k / k` for so many `k` from the given one on; `power` is its `x ^ k`. -/
def series (x : Nat) : Nat → Nat → Nat → Nat
  | 0, _, _ => 0
  | terms + 1, k, power => power / k + series x terms (k + 1) ((power * x) >>> places)

/-- The logarithm of `n / d` between one and two. It is the one of `1 / (1 - x)` for the `x` with
`n * x = n - d`, and so the sum of all `x ^ k / k`. -/
def ofRatio (n d : Nat) : Nat :=
  let x := (n - d) <<< places / n
  series x places 1 x

/-- The logarithm of `n / d`, at least one. -/
def scaled (n d : Nat) : Nat :=
  let twos := (n / d).log2
  twos * ofRatio 2 1 + ofRatio n (d <<< twos)

/-- The logarithm of a fraction; below one it is that of the inverse with its sign changed. -/
def ofFraction (q : Binary64.Fraction) : UnpackedFloat :=
  if q.den ≤ q.num then .round .binary64 .positive (scaled q.num q.den) (-places)
  else .round .binary64 .negative (scaled q.den q.num) (-places)

/-- What is below zero has no logarithm. -/
def unpacked : UnpackedFloat → UnpackedFloat
  | .finite .positive m e _ => ofFraction (Binary64.scaled 2 m e)
  | .infinity .positive => .infinity .positive
  | .zero _ => .infinity .negative
  | _ => .notANumber

def ln (x : Float) : Float := .ofModel (.pack (unpacked x.toModel.unpack))

end CodeChunks.Logarithm
