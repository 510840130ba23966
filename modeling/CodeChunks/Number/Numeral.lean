import CodeChunks.Number.Binary64
import CodeChunks.Text.Lower
import CodeChunks.Text.Numeral

/-! # Numerals of binary64 numbers -/
namespace CodeChunks.Numeral

/-- Every underscore stands between two digits; `before` is the character before the text. -/
def joinsDigits (before : Char) : Text → Bool
  | [] => before != '_'
  | c :: t =>
    (if c == '_' then before.isDigit else before != '_' || c.isDigit) && joinsDigits c t

def digitRun (t : Text) : List Nat × Text :=
  ((t.takeWhile Char.isDigit).filterMap digit?, t.dropWhile Char.isDigit)

/-- The exponent that is all of a text; without one it is zero. -/
def exponent? : Text → Option Int
  | [] => some 0
  | c :: t =>
    if c == 'e' || c == 'E' then
      let (negative, t) := sign t
      match digitRun t with
      | ([], _) => none
      | (ds, []) => some (if negative then -(ofDigits ds : Int) else ofDigits ds)
      | _ => none
    else none

/-- Digits around an optional point, at least one of them, and an optional exponent. -/
def decimal? (t : Text) : Option Float :=
  let (whole, t) := digitRun t
  let (places, t) := match t with
    | '.' :: t => digitRun t
    | t => ([], t)
  if whole.isEmpty && places.isEmpty then none
  else (exponent? t).map fun e =>
    Binary64.ofDecimal (ofDigits (whole ++ places)) (e - places.length)

def magnitude? (t : Text) : Option Float :=
  let w := Text.lower t
  if w == "inf".toList || w == "infinity".toList then some Binary64.infinity
  else if w == "nan".toList then some Binary64.nan
  else decimal? t

/-- A number in positional or exponent notation, infinity or NaN, with an optional sign and
surrounding blanks. -/
def float? (t : Text) : Option Float :=
  let t := plain t
  if joinsDigits ' ' t then
    let (negative, u) := sign (t.filter (· != '_'))
    (magnitude? u).map fun x => if negative then -x else x
  else none

end CodeChunks.Numeral
