import CodeChunks.Text.Lower
import CodeChunks.Text.PrintTable
import CodeChunks.Text.Utf8

/-! # Texts between quotes and in percent-encoding -/

/-! ## Texts written between quotes -/
namespace CodeChunks.Text

def hexDigit (n : Nat) : Char := if n < 10 then Char.ofNat (48 + n) else Char.ofNat (87 + n)

/-- The value of a hexadecimal digit in either case. -/
def hexValue? (c : Char) : Option Nat :=
  let n := c.toNat
  if 48 ≤ n ∧ n < 58 then some (n - 48)
  else if 65 ≤ n ∧ n < 71 then some (n - 55)
  else if 97 ≤ n ∧ n < 103 then some (n - 87)
  else none

/-- The last `width` hexadecimal digits of a number. -/
def hex : Nat → Nat → Text
  | 0, _ => []
  | width + 1, n => hex width (n / 16) ++ [hexDigit (n % 16)]

def isPrintable (c : Char) : Bool :=
  if c.toNat < 127 then 32 ≤ c.toNat else !inRanges unprintableRanges c

/-- A character between the quotes `q`. -/
def printedChar (q c : Char) : Text :=
  if c = q ∨ c = '\\' then ['\\', c]
  else if c = '\n' then ['\\', 'n']
  else if c = '\r' then ['\\', 'r']
  else if c = '\t' then ['\\', 't']
  else if isPrintable c then [c]
  else if c.toNat < 0x100 then '\\' :: 'x' :: hex 2 c.toNat
  else if c.toNat < 0x10000 then '\\' :: 'u' :: hex 4 c.toNat
  else '\\' :: 'U' :: hex 8 c.toNat

/-- Single quotes enclose a text, double ones a text that has single quotes and no double ones. -/
def printed (t : Text) : Text :=
  let q := if t.contains '\'' && !t.contains '"' then '"' else '\''
  q :: t.flatMap (printedChar q) ++ [q]

end CodeChunks.Text

namespace CodeChunks

def printedName (s : String) : String := String.ofList (Text.printed s.toList)

end CodeChunks

/-! ## Percent-encoded texts -/
namespace CodeChunks.Text

def isAscii (c : Char) : Bool := c.toNat < 128

/-- The bytes of an ASCII text in which a percent sign and two hexadecimal digits are one byte. -/
def percentBytes : Text → Bytes
  | '%' :: a :: b :: t => match hexValue? a, hexValue? b with
    | some m, some n => UInt8.ofNat (16 * m + n) :: percentBytes t
    | _, _ => UInt8.ofNat '%'.toNat :: percentBytes (a :: b :: t)
  | c :: t => UInt8.ofNat c.toNat :: percentBytes t
  | [] => []

/-- The encoded text. Bytes make characters only inside a run of ASCII characters. -/
def decodePercent (t : Text) : Text :=
  (t.splitBy fun c d => isAscii c == isAscii d).flatMap fun run =>
    if run.all isAscii then Utf8.decode (percentBytes run) else run

/-- The fields of a form, each a key and a value; those without a value are left out. -/
def formFields (t : Text) : List (Text × Text) :=
  let plain (u : Text) : Text := decodePercent (u.map fun c => if c = '+' then ' ' else c)
  (splitAtChar '&' t).filterMap fun f =>
    match f.dropWhile (· != '=') with
    | '=' :: c :: v => some (plain (f.takeWhile (· != '=')), plain (c :: v))
    | _ => none

end CodeChunks.Text
