import CodeChunks.Json.Token
import CodeChunks.Text.Numeral

/-! # Reading documents -/
namespace CodeChunks.Json

/-- An array or an object some of whose content has been read, latest first; of an object, the key
of the field being read too. -/
inductive Frame where
  | arr (done : List Json)
  | obj (done : Fields) (key : String)

/-- What may come next. -/
inductive Next where
  | value
  | itemOrClose
  | fieldOrClose
  | field (done : Fields)
  | colon (done : Fields) (key : String)
  | after (v : Json)

/-- How many arrays and objects may stand inside each other, and whether the digits of an integer
are limited too. -/
structure Limits where
  depth : Option Nat := none
  digits : Bool := false

/-- Why a text is refused as it is no document, or a document or its text as it is beyond the
limits. The digits of an integer are counted when it is read. -/
inductive Fault where
  | malformed
  | tooDeep (task : String)
  | tooLong (digits : Option Nat)
deriving DecidableEq

def Fault.message : Fault → String
  | .malformed => "no document"
  | .tooDeep task => s!"maximum recursion depth exceeded while {task}"
  | .tooLong (some digits) => (Numeral.Fault.tooLong digits).message
  | .tooLong none => s!"Exceeds the limit ({Numeral.maxDigits} digits) for integer string " ++
    "conversion; use sys.set_int_max_str_digits() to increase the limit"

/-- A reader inside the frames of the stack, innermost first. -/
structure Reader where
  stack : List Frame
  next : Next

namespace Reader

def start : Reader := ⟨[], .value⟩

/-- Opens an array or an object inside the frames of a stack. -/
def enter (l : Limits) (stack : List Frame) (kind : String) (r : Reader) :
    Except Fault Reader :=
  if l.depth.any (· ≤ stack.length) then
    .error (.tooDeep s!"decoding a JSON {kind} from a unicode string")
  else .ok r

def takeLeaf (l : Limits) (stack : List Frame) (v : Json) : Except Fault Reader :=
  match v with
  | .int n =>
    if l.digits && Nat.pow 10 Numeral.maxDigits ≤ n.natAbs then
      .error (.tooLong (some (Binary64.digits n.natAbs).length))
    else .ok ⟨stack, .after v⟩
  | v => .ok ⟨stack, .after v⟩

def takeValue (l : Limits) (stack : List Frame) : Token → Except Fault Reader
  | .leaf v => takeLeaf l stack v
  | .arrOpen => enter l stack "array" ⟨.arr [] :: stack, .itemOrClose⟩
  | .objOpen => enter l stack "object" ⟨stack, .fieldOrClose⟩
  | _ => .error .malformed

def takeField (stack : List Frame) (done : Fields) : Token → Except Fault Reader
  | .leaf (.str k) => .ok ⟨stack, .colon done k⟩
  | _ => .error .malformed

/-- An object keeps the last value of a key, at the place of the first. -/
def closeObject (done : Fields) : Json := .obj (Assoc.ofList done.reverse)

/-- What may follow a value inside a frame. -/
def leave (v : Json) : List Frame → Token → Except Fault Reader
  | .arr xs :: stack, .comma => .ok ⟨.arr (v :: xs) :: stack, .value⟩
  | .arr xs :: stack, .arrClose => .ok ⟨stack, .after (.arr (v :: xs).reverse)⟩
  | .obj fs k :: stack, .comma => .ok ⟨stack, .field ((k, v) :: fs)⟩
  | .obj fs k :: stack, .objClose => .ok ⟨stack, .after (closeObject ((k, v) :: fs))⟩
  | _, _ => .error .malformed

def step (l : Limits) (r : Reader) (t : Token) : Except Fault Reader :=
  match r.next with
  | .value => takeValue l r.stack t
  | .itemOrClose => match r.stack, t with
    | .arr xs :: stack, .arrClose => .ok ⟨stack, .after (.arr xs.reverse)⟩
    | stack, t => takeValue l stack t
  | .fieldOrClose => match t with
    | .objClose => .ok ⟨r.stack, .after (.obj [])⟩
    | t => takeField r.stack [] t
  | .field done => takeField r.stack done t
  | .colon done k => match t with
    | .colon => .ok ⟨.obj done k :: r.stack, .value⟩
    | _ => .error .malformed
  | .after v => leave v r.stack t

def run (l : Limits) (r : Reader) (ts : List Token) : Except Fault Reader :=
  ts.foldlM (step l) r

def value? (r : Reader) : Except Fault Json :=
  match r.stack, r.next with
  | [], .after v => .ok v
  | _, _ => .error .malformed

end Reader

/-- The document that a text holds, if it holds exactly one. -/
def readWithin (l : Limits) (t : Text) : Except Fault Json := do
  (← Reader.start.run l (Token.ofText t)).value?

def read (t : Text) : Option Json := (readWithin {} t).toOption

end CodeChunks.Json
