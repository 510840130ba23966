import CodeChunks.Json.Read

/-! # Writing documents -/
namespace CodeChunks.Json

/-- The fields in the order of their keys. -/
def sortFields (fs : Fields) : Fields := fs.mergeSort fun f g => decide (f.1 ≤ g.1)

mutual

/-- The same document with the fields of every object in the order of their keys. -/
def sorted : Json → Json
  | .arr xs => .arr (sortedItems xs)
  | .obj fs => .obj (sortFields (sortedFields fs))
  | v => v

def sortedItems : List Json → List Json
  | [] => []
  | x :: xs => sorted x :: sortedItems xs

def sortedFields : Fields → Fields
  | [] => []
  | (k, v) :: fs => (k, sorted v) :: sortedFields fs

end

mutual

def tokens : Json → List Token
  | .arr xs => .arrOpen :: itemTokens xs
  | .obj fs => .objOpen :: fieldTokens fs
  | v => [.leaf v]

/-- The items that are left, and the closing bracket. -/
def itemTokens : List Json → List Token
  | [] => [.arrClose]
  | [x] => tokens x ++ [.arrClose]
  | x :: y :: xs => tokens x ++ .comma :: itemTokens (y :: xs)

/-- The fields that are left, and the closing brace. -/
def fieldTokens : Fields → List Token
  | [] => [.objClose]
  | [(k, v)] => .leaf (.str k) :: .colon :: tokens v ++ [.objClose]
  | (k, v) :: f :: fs => .leaf (.str k) :: .colon :: tokens v ++ .comma :: fieldTokens (f :: fs)

end

/-- The document on one line in ASCII, keys in order. -/
def write (v : Json) : Text := (tokens (sorted v)).flatMap Token.text

mutual

/-- The first thing beyond the limits in a value inside so many arrays and objects. -/
def beyond? (l : Limits) (depth : Nat) : Json → Option Fault
  | .int n =>
    if l.digits && Nat.pow 10 Numeral.maxDigits ≤ n.natAbs then some (.tooLong none) else none
  | .arr xs =>
    if l.depth.any (· ≤ depth) then some (.tooDeep "encoding a JSON object")
    else itemBeyond? l (depth + 1) xs
  | .obj fs =>
    if l.depth.any (· ≤ depth) then some (.tooDeep "encoding a JSON object")
    else fieldBeyond? l (depth + 1) fs
  | _ => none

def itemBeyond? (l : Limits) (depth : Nat) : List Json → Option Fault
  | [] => none
  | x :: xs => match beyond? l depth x with
    | some e => some e
    | none => itemBeyond? l depth xs

def fieldBeyond? (l : Limits) (depth : Nat) : Fields → Option Fault
  | [] => none
  | (_, v) :: fs => match beyond? l depth v with
    | some e => some e
    | none => fieldBeyond? l depth fs

end

/-- Why a document is not written, if it is not. -/
def writingFault? (l : Limits) (v : Json) : Option Fault := beyond? l 0 (sorted v)

/-! ## Printing documents for readers -/

/-- Only quotes, backslashes and control characters are escaped. -/
def printedChar (c : Char) : Text :=
  if 127 ≤ c.toNat then [c] else Token.escaped c

def printedToken : Token → Text
  | .leaf (.str s) => '"' :: s.toList.flatMap printedChar ++ ['"']
  | t => t.text

/-- The document on one line, fields in their own order. -/
def print (v : Json) : Text := (tokens v).flatMap printedToken

end CodeChunks.Json
