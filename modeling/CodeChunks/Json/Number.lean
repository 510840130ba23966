import CodeChunks.Number.Binary64

/-! # Numbers in documents -/
namespace CodeChunks.Json

/-- A number without point and exponent is an integer of any size. -/
inductive Number where
  | int (n : Int)
  | float (x : Float)
deriving DecidableEq

namespace Number

def truncate? : Number → Option Int
  | .int n => some n
  | .float x => Binary64.truncate? x

def toFloat : Number → Float
  | .int n => Binary64.ofInt n
  | .float x => x

/-- Integers beyond the range of binary64 have no binary64 number near them. -/
def toFloat? : Number → Option Float
  | .int n => if n.natAbs < 1 <<< 1024 - 1 <<< 970 then some (Binary64.ofInt n) else none
  | .float x => some x

def digitsValue (ds : Text) : Nat := ds.foldl (fun n c => 10 * n + (c.toNat - 48)) 0

/-- The digits at the head of a text and the rest. -/
def spanDigits (t : Text) : Text × Text := (t.takeWhile Char.isDigit, t.dropWhile Char.isDigit)

/-- The digits before the point: a zero stands alone. -/
def whole : Text → Option (Text × Text)
  | '0' :: t => some (['0'], t)
  | c :: t => if c.isDigit then some (spanDigits (c :: t)) else none
  | [] => none

/-- A point with at least one digit, or nothing. -/
def places : Text → Text × Text
  | '.' :: t => if (spanDigits t).1.isEmpty then ([], '.' :: t) else spanDigits t
  | t => ([], t)

def exponentSign : Text → Bool × Text
  | '-' :: t => (true, t)
  | '+' :: t => (false, t)
  | t => (false, t)

/-- An exponent with at least one digit, or nothing. -/
def exponent (t : Text) : Option Int × Text :=
  match t with
  | c :: u =>
    if c = 'e' ∨ c = 'E' then
      let (negative, v) := exponentSign u
      let (ds, rest) := spanDigits v
      if ds.isEmpty then (none, t)
      else (some (if negative then -(digitsValue ds : Int) else digitsValue ds), rest)
    else (none, t)
  | [] => (none, [])

def negate (negative : Bool) (x : Float) : Float := if negative then -x else x

/-- The number without its sign. -/
def readUnsigned (negative : Bool) (t : Text) : Option (Number × Text) :=
  match whole t with
  | none => none
  | some (ws, t) =>
    let (ps, t) := places t
    let (e, t) := exponent t
    if ps.isEmpty && e.isNone then
      some (.int (if negative then -(digitsValue ws : Int) else digitsValue ws), t)
    else
      some (.float (negate negative
        (Binary64.ofDecimal (digitsValue (ws ++ ps)) (e.getD 0 - ps.length))), t)

/-- The literals for what no digits can say. -/
def readLiteral (t : Text) : Option (Number × Text) :=
  let infinity := "Infinity".toList
  if t.startsWith ['N', 'a', 'N'] then some (.float Binary64.nan, t.drop 3)
  else if t.startsWith infinity then some (.float Binary64.infinity, t.drop infinity.length)
  else if t.startsWith ('-' :: infinity) then
    some (.float (-Binary64.infinity), t.drop (infinity.length + 1))
  else none

/-- The longest number at the head of a text and the rest. -/
def read (t : Text) : Option (Number × Text) :=
  match readLiteral t with
  | some r => some r
  | none => match t with
    | '-' :: u => readUnsigned true u
    | _ => readUnsigned false t

end Number

/-- A binary64 number that its own text reads back as. -/
structure Real64 where
  value : Float
  reads : Number.read (Binary64.toText value) = some (.float value, [])

theorem Real64.ext {x y : Real64} (h : x.value = y.value) : x = y := by
  cases x; cases y; cases h; rfl

def Real64.zero : Real64 := ⟨0, by decide +kernel⟩

instance : DecidableEq Real64 := fun x y =>
  if h : x.value = y.value then .isTrue (Real64.ext h) else .isFalse fun e => h (e ▸ rfl)

end CodeChunks.Json
