import CodeChunks.Text.Basic
import CodeChunks.Text.Printed

/-! # Numerals -/
namespace CodeChunks.Numeral

/-- The zeros of the decimal digit systems; the other nine digits follow each. -/
def zeros : List Nat :=
 [0x30, 0x660, 0x6F0, 0x7C0, 0x966, 0x9E6, 0xA66, 0xAE6, 0xB66, 0xBE6,
  0xC66, 0xCE6, 0xD66, 0xDE6, 0xE50, 0xED0, 0xF20, 0x1040, 0x1090, 0x17E0,
  0x1810, 0x1946, 0x19D0, 0x1A80, 0x1A90, 0x1B50, 0x1BB0, 0x1C40, 0x1C50, 0xA620,
  0xA8D0, 0xA900, 0xA9D0, 0xA9F0, 0xAA50, 0xABF0, 0xFF10, 0x104A0, 0x10D30, 0x11066,
  0x110F0, 0x11136, 0x111D0, 0x112F0, 0x11450, 0x114D0, 0x11650, 0x116C0, 0x11730, 0x118E0,
  0x11950, 0x11C50, 0x11D50, 0x11DA0, 0x16A60, 0x16AC0, 0x16B50, 0x1D7CE, 0x1D7D8, 0x1D7E2,
  0x1D7EC, 0x1D7F6, 0x1E140, 0x1E2F0, 0x1E950, 0x1FBF0]

/-- Digits of every system become ASCII digits, blanks beyond ASCII become spaces. -/
def plainChar (c : Char) : Char :=
  if c.toNat < 127 then c
  else if Text.isBlank c then ' '
  else match zeros.find? fun z => z ≤ c.toNat && c.toNat < z + 10 with
    | some z => Char.ofNat (48 + (c.toNat - z))
    | none => c

/-- The blanks that may surround a numeral; the information separators may not. -/
def isMargin (c : Char) : Bool := c == ' ' || (9 ≤ c.toNat && c.toNat ≤ 13)

def plain (t : Text) : Text :=
  Text.trimRight isMargin ((t.map plainChar).dropWhile isMargin)

def digit? (c : Char) : Option Nat := if c.isDigit then some (c.toNat - 48) else none

def ofDigits (ds : List Nat) : Nat := ds.foldl (fun n d => 10 * n + d) 0

/-- A run of digits with single underscores between them, and what follows it. -/
def digits : Text → Option (List Nat × Text)
  | [] => none
  | [c] => (digit? c).map fun d => ([d], [])
  | c :: '_' :: t => match digit? c with
    | some d => (digits t).map fun r => (d :: r.1, r.2)
    | none => none
  | c :: c' :: t => match digit? c with
    | some d => match digits (c' :: t) with
      | some r => some (d :: r.1, r.2)
      | none => some ([d], c' :: t)
    | none => none

def sign : Text → Bool × Text
  | '-' :: t => (true, t)
  | '+' :: t => (false, t)
  | t => (false, t)

/-- The most digits that an integer may be written with. -/
def maxDigits : Nat := 4300

/-- Why a text is no integer. -/
inductive Fault where
  | malformed (t : Text)
  | tooLong (digits : Nat)
deriving DecidableEq

/-- A malformed text is shown up to the 200th character of its printed form. -/
def Fault.message : Fault → String
  | .malformed t =>
    "invalid literal for int() with base 10: " ++ String.ofList ((Text.printed t).take 200)
  | .tooLong n => s!"Exceeds the limit ({maxDigits} digits) for integer string conversion: " ++
    s!"value has {n} digits; use sys.set_int_max_str_digits() to increase the limit"

/-- An integer in decimal digits, with an optional sign and surrounding blanks. That there are too
many digits shows before what follows them does. -/
def readInt (t : Text) : Except Fault Int :=
  let (neg, u) := sign (plain t)
  match digits u with
  | none => .error (.malformed t)
  | some (ds, rest) =>
    if maxDigits < ds.length then .error (.tooLong ds.length)
    else if rest.isEmpty then .ok (if neg then -(ofDigits ds : Int) else ofDigits ds)
    else .error (.malformed t)

def int? (t : Text) : Option Int := (readInt t).toOption

end CodeChunks.Numeral
