import CodeChunks.Text.Basic

/-! # The decimal texts of binary64 numbers -/
namespace CodeChunks.Binary64

/-- A number as sign, mantissa and power of two. -/
inductive Shape where
  | nan
  | infinite (negative : Bool)
  | finite (negative : Bool) (mantissa : Nat) (exponent : Int)
deriving DecidableEq, Repr

def shape (x : Float) : Shape :=
  let b := x.toBits.toNat
  let negative := decide (1 <<< 63 ≤ b)
  let e : Nat := b / (1 <<< 52) % 2048
  let m : Nat := b % (1 <<< 52)
  if e = 2047 then if m = 0 then .infinite negative else .nan
  else if e = 0 then .finite negative m (-1074)
  else .finite negative (1 <<< 52 + m) ((e : Int) - 1075)

def nan : Float := Float.ofBits 0x7FF8000000000000

def infinity : Float := Float.ofBits 0x7FF0000000000000

/-- A positive fraction `num / den`. -/
structure Fraction where
  num : Nat
  den : Nat
deriving DecidableEq, Repr

/-- `m · b ^ e` as a fraction. -/
def scaled (b m : Nat) (e : Int) : Fraction :=
  if 0 ≤ e then ⟨m * Nat.pow b e.toNat, 1⟩ else ⟨m, Nat.pow b (-e).toNat⟩

/-- The nearest integer, a half going to the even neighbour. -/
def Fraction.round (q : Fraction) : Nat :=
  let n := q.num / q.den
  let r := q.num % q.den
  if 2 * r < q.den ∨ (2 * r = q.den ∧ n % 2 = 0) then n else n + 1

def digits (n : Nat) : Text := Nat.toDigits 10 n

def padLeft (width : Nat) (t : Text) : Text := List.replicate (width - t.length) '0' ++ t

/-- Fixed notation with a given number of places; a zero has no sign. -/
def fixed (places : Nat) (x : Float) : Text :=
  match shape x with
  | .nan => ['n', 'a', 'n']
  | .infinite negative => (if negative then ['-'] else []) ++ ['i', 'n', 'f']
  | .finite negative m e =>
    let q := scaled 2 m e
    let n := Fraction.round ⟨q.num * Nat.pow 10 places, q.den⟩
    let ds := padLeft (places + 1) (digits n)
    (if negative && n != 0 then ['-'] else []) ++
      ds.take (ds.length - places) ++ '.' :: ds.drop (ds.length - places)

/-- The number without its places; NaN and infinity are no integers. -/
def truncate? (x : Float) : Option Int :=
  match shape x with
  | .finite negative m e =>
    let q := scaled 2 m e
    let n : Int := q.num / q.den
    some (if negative then -n else n)
  | _ => none

/-- The number nearest to `d · 10 ^ e`. -/
def ofDecimal (d : Nat) (e : Int) : Float :=
  if d = 0 then 0
  else if 310 < (digits d).length + e then infinity
  else if (digits d).length + e < -330 then 0
  else Float.ofScientific d (decide (e < 0)) e.natAbs

/-- The `k` with `10 ^ (k - 1) ≤ q < 10 ^ k`. -/
def Fraction.magnitude (q : Fraction) : Int :=
  if q.den ≤ q.num then (digits (q.num / q.den)).length
  else match (List.range 400).find? fun j => q.den ≤ q.num * Nat.pow 10 j with
    | some j => 1 - j
    | none => 0

/-- The neighbours of `q` among the multiples of `10 ^ e`. -/
def Fraction.neighbours (q : Fraction) (e : Int) : Nat × Nat :=
  let p :=
    if 0 ≤ e then q.num / (q.den * Nat.pow 10 e.toNat)
    else q.num * Nat.pow 10 (-e).toNat / q.den
  (p, p + 1)

/-- Whether `a · 10 ^ e` is at most as far from `q` as `(a + 1) · 10 ^ e` is; a tie goes to the even
one. -/
def Fraction.prefersLower (q : Fraction) (a : Nat) (e : Int) : Bool :=
  let s := scaled 10 1 e
  let middle := (2 * a + 1) * s.num * q.den
  let value := 2 * q.num * s.den
  value < middle || (value == middle && a % 2 == 0)

/-- The nearest multiple of `10 ^ e` that reads back as `x`. -/
def onGrid (x : Float) (q : Fraction) (e : Int) : Option Nat :=
  let (a, b) := q.neighbours e
  let reads := fun n => ofDecimal n e == x
  match reads a, reads b with
  | true, true => some (if q.prefersLower a e then a else b)
  | true, false => some a
  | false, true => some b
  | false, false => none

/-- The decimal with the fewest digits that reads back as a positive number. -/
def shortest (x : Float) (q : Fraction) : Nat × Int :=
  let k := q.magnitude
  match (List.range 17).findSome? fun n : Nat =>
    (onGrid x q (k - (n + 1))).map (·, k - (n + 1)) with
  | some r => r
  | none => (0, 0)

/-- Digits with their decimal point after the first `point` of them: positional between `1e-4` and
`1e16`, otherwise with an exponent of at least two digits. -/
def layout (ds : Text) (point : Int) : Text :=
  if -4 < point ∧ point ≤ 16 then
    if point ≤ 0 then '0' :: '.' :: List.replicate (-point).toNat '0' ++ ds
    else if ds.length ≤ point then
      ds ++ List.replicate (point.toNat - ds.length) '0' ++ ['.', '0']
    else ds.take point.toNat ++ '.' :: ds.drop point.toNat
  else
    let e := point - 1
    ds.take 1 ++ (if ds.length = 1 then [] else '.' :: ds.drop 1) ++
      'e' :: (if e < 0 then '-' else '+') :: padLeft 2 (digits e.natAbs)

/-- The fewest digits that read back. -/
def toText (x : Float) : Text :=
  match shape x with
  | .nan => ['N', 'a', 'N']
  | .infinite negative => (if negative then ['-'] else []) ++ "Infinity".toList
  | .finite negative m e =>
    (if negative then ['-'] else []) ++
      if m = 0 then ['0', '.', '0'] else
        let (d, e') := shortest x.abs (scaled 2 m e)
        let ds := digits d
        layout ((ds.reverse.dropWhile (· == '0')).reverse) (ds.length + e')

/-- An integer as a binary64 number. -/
def ofInt (n : Int) : Float :=
  if n < 0 then -(ofDecimal n.natAbs 0) else ofDecimal n.natAbs 0

end CodeChunks.Binary64
