import CodeChunks.Json.Number
import CodeChunks.Lists
import CodeChunks.Text.Printed

/-! # Documents -/
namespace CodeChunks

/-- A document value. The fields of an object keep their order and have different keys. -/
inductive Json where
  | null
  | bool (b : Bool)
  | int (n : Int)
  | float (x : Json.Real64)
  | str (s : String)
  | arr (xs : List Json)
  | obj (fs : List (String × Json))

namespace Json

instance : Inhabited Json := ⟨.null⟩

/-- The fields of an object. -/
abbrev Fields := List (String × Json)

def ofFloat (x : Float) : Json :=
  .float (if h : Number.read (Binary64.toText x) = some (.float x, []) then ⟨x, h⟩ else .zero)

def ofNumber : Number → Json
  | .int n => .int n
  | .float x => ofFloat x

/-- Truth values count as the integers zero and one. -/
def number? : Json → Option Number
  | .bool b => some (.int (if b then 1 else 0))
  | .int n => some (.int n)
  | .float x => some (.float x.value)
  | _ => none

def Number.isZero : Number → Bool
  | .int n => n == 0
  | .float x => x == 0

/-- Null, false, zeros and everything empty are not truthy. -/
def truthy : Json → Bool
  | .null => false
  | .bool b => b
  | .int n => n != 0
  | .float x => !Number.isZero (.float x.value)
  | .str s => !s.isEmpty
  | .arr xs => !xs.isEmpty
  | .obj fs => !fs.isEmpty

/-- Whether a float has exactly the value of an integer. -/
def Number.floatIsInt (x : Float) (n : Int) : Bool :=
  match Binary64.shape x with
  | .finite negative m e =>
    let q := Binary64.scaled 2 m e
    q.num == n.natAbs * q.den && (n == 0 || negative == decide (n < 0))
  | _ => false

/-- Numbers are the same when their values are, whatever they are written as. -/
def Number.same : Number → Number → Bool
  | .int a, .int b => a == b
  | .float x, .float y => x == y
  | .float x, .int n => floatIsInt x n
  | .int n, .float x => floatIsInt x n

/-- A finite number as numerator and denominator. -/
def Number.ratio? : Number → Option (Int × Nat)
  | .int n => some (n, 1)
  | .float x => match Binary64.shape x with
    | .finite negative m e =>
      let q := Binary64.scaled 2 m e
      some (if negative then -(q.num : Int) else q.num, q.den)
    | _ => none

/-- Numbers in order, by their values. -/
def Number.isLess (a b : Number) : Bool :=
  match a.ratio?, b.ratio? with
  | some (p, q), some (r, s) => p * s < r * q
  | _, _ => a.toFloat < b.toFloat

def isLess (v w : Json) : Bool :=
  match v.number?, w.number? with
  | some a, some b => a.isLess b
  | _, _ => false

mutual

/-- Equality of values: numbers by value, objects up to the order of their fields. -/
def same : Json → Json → Bool
  | .null, .null => true
  | .str a, .str b => a == b
  | .arr xs, .arr ys => sameItems xs ys
  | .obj fs, .obj gs => fs.length == gs.length && sameFields fs gs
  | a, b => match a.number?, b.number? with
    | some x, some y => x.same y
    | _, _ => false

def sameItems : List Json → List Json → Bool
  | [], [] => true
  | x :: xs, y :: ys => same x y && sameItems xs ys
  | _, _ => false

def sameFields : Fields → Fields → Bool
  | [], _ => true
  | (k, v) :: fs, gs => (match Assoc.find? k gs with
    | some w => same v w
    | none => false) && sameFields fs gs

end

def field? (k : String) : Json → Option Json
  | .obj fs => Assoc.find? k fs
  | _ => none

/-- The field of a key, null where there is none. -/
def field (k : String) (v : Json) : Json := (v.field? k).getD .null

def fields : Json → Fields
  | .obj fs => fs
  | _ => []

def items : Json → List Json
  | .arr xs => xs
  | _ => []

def string? : Json → Option String
  | .str s => some s
  | _ => none

def int? : Json → Option Int
  | .int n => some n
  | _ => none

def floatName (x : Float) : String :=
  match Binary64.shape x with
  | .nan => "nan"
  | .infinite negative => if negative then "-inf" else "inf"
  | _ => String.ofList (Binary64.toText x)

mutual

/-- A value between other text, strings in quotes. -/
def quoted : Json → String
  | .null => "None"
  | .bool b => if b then "True" else "False"
  | .int n => toString n
  | .float x => floatName x.value
  | .str s => printedName s
  | .arr xs => "[" ++ ", ".intercalate (quotedItems xs) ++ "]"
  | .obj fs => "\x7b" ++ ", ".intercalate (quotedFields fs) ++ "\x7d"

def quotedItems : List Json → List String
  | [] => []
  | x :: xs => quoted x :: quotedItems xs

def quotedFields : Fields → List String
  | [] => []
  | (k, v) :: fs => (printedName k ++ ": " ++ quoted v) :: quotedFields fs

end

/-- A value as a name: a string stands for itself. -/
def name : Json → String
  | .str s => s
  | v => quoted v

end Json

end CodeChunks
