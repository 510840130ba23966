import CodeChunks.Json.Value
import CodeChunks.Text.Numeral

/-! # Entries and integers made of values -/

/-! ## Objects made of entries -/
namespace CodeChunks.Json

/-- The kind of a value, as error texts name it. -/
def kind : Json → String
  | .null => "NoneType"
  | .bool _ => "bool"
  | .int _ => "int"
  | .float _ => "float"
  | .str _ => "str"
  | .arr _ => "list"
  | .obj _ => "dict"

/-- The members of a value: items, characters or keys. -/
def members? : Json → Option (List Json)
  | .arr xs => some xs
  | .str s => some (s.toList.map fun c => .str (String.ofList [c]))
  | .obj fs => some (fs.map fun f => .str f.1)
  | _ => none

/-- Arrays and objects are neither keys nor members of a set. -/
def isHashable : Json → Bool
  | .arr _ => false
  | .obj _ => false
  | _ => true

/-- Why a value makes no object; entries are known by their places. -/
inductive EntriesFault where
  | notIterable (kind : String)
  | noEntry (place : Nat)
  | noPair (place length : Nat)
  | unhashable (kind : String)
deriving DecidableEq

def EntriesFault.message : EntriesFault → String
  | .notIterable kind => s!"'{kind}' object is not iterable"
  | .noEntry place => s!"cannot convert dictionary update sequence element #{place} to a sequence"
  | .noPair place length =>
    s!"dictionary update sequence element #{place} has length {length}; 2 is required"
  | .unhashable kind => s!"unhashable type: '{kind}'"

/-- A member with two members of its own is an entry, a key and a value. -/
def entry (place : Nat) (v : Json) : Except EntriesFault (Json × Json) :=
  match v.members? with
  | none => .error (.noEntry place)
  | some [k, w] => if k.isHashable then .ok (k, w) else .error (.unhashable k.kind)
  | some ms => .error (.noPair place ms.length)

/-- An entry takes the place of one with the same key, which stays as it was first written. -/
def insertEntry (e : Json × Json) : List (Json × Json) → List (Json × Json)
  | [] => [e]
  | d :: ds => if d.1.same e.1 then (d.1, e.2) :: ds else d :: insertEntry e ds

/-- The text of a key of an object. -/
def keyText : Json → String
  | .str s => s
  | .null => "null"
  | .bool b => if b then "true" else "false"
  | .int n => toString n
  | .float x => String.ofList (Binary64.toText x.value)
  | v => v.name

/-- The object with the entries that a value has as members; an object is itself. -/
def asFields : Json → Except EntriesFault Fields
  | .obj fs => .ok fs
  | v => match v.members? with
    | none => .error (.notIterable v.kind)
    | some ms => do
      let es ← ms.zipIdx.mapM fun (m, place) => entry place m
      let ds := es.foldl (fun ds e => insertEntry e ds) []
      return Assoc.ofList (ds.map fun e => (e.1.keyText, e.2))

/-! ## Integers made of values -/

/-- Why a value makes no integer. -/
inductive IntegerFault where
  | numeral (e : Numeral.Fault)
  | nan
  | infinite
  | noNumber (kind : String)
deriving DecidableEq

def IntegerFault.message : IntegerFault → String
  | .numeral e => e.message
  | .nan => "cannot convert float NaN to integer"
  | .infinite => "cannot convert float infinity to integer"
  | .noNumber kind =>
    s!"int() argument must be a string, a bytes-like object or a real number, not '{kind}'"

/-- A number without its places. -/
def Number.asInt (n : Number) : Except IntegerFault Int :=
  match n.truncate? with
  | some n => .ok n
  | none => .error (if n.toFloat == n.toFloat then .infinite else .nan)

/-- The integer that a number is without its places, or that a string is the numeral of. -/
def asInt : Json → Except IntegerFault Int
  | .str s => (Numeral.readInt s.toList).mapError .numeral
  | v => match v.number? with
    | some n => n.asInt
    | none => .error (.noNumber v.kind)

end CodeChunks.Json
