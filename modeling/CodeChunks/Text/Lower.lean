import CodeChunks.Text.Basic
import CodeChunks.Text.CaseTable

/-! # Lower case -/
namespace CodeChunks.Text

def inRanges (rs : List (Nat × Nat)) (c : Char) : Bool :=
  rs.any fun r => r.1 ≤ c.toNat && c.toNat ≤ r.2

def isCased (c : Char) : Bool := inRanges casedRanges c

def isCaseIgnorable (c : Char) : Bool := inRanges caseIgnorableRanges c

def CaseRun.holds (r : CaseRun) (n : Nat) : Bool :=
  r.first ≤ n && n ≤ r.last && (n - r.first) % r.step == 0

/-- The lower-case form of one character, its neighbours left out of account. -/
def lowerChar (c : Char) : Text :=
  if c.toNat < 128 then [c.toLower]
  else if c = 'İ' then ['i', '\u0307']
  else match caseRuns.find? (·.holds c.toNat) with
    | some r => [Char.ofNat (c.toNat + r.shift).toNat]
    | none => [c]

/-- Whether the nearest character that counts has a case. -/
def meetsCased (t : Text) : Bool := ((t.dropWhile isCaseIgnorable).head?).any isCased

/-- Lower-cases what follows `before`, whose characters stand in reverse. A sigma that ends a word
takes its final form. -/
def lowerAfter : Text → Text → Text
  | _, [] => []
  | before, c :: t =>
    (if c = 'Σ' then [if meetsCased before && !meetsCased t then 'ς' else 'σ'] else lowerChar c)
      ++ lowerAfter (c :: before) t

def lower (t : Text) : Text := lowerAfter [] t

end CodeChunks.Text

namespace CodeChunks

def lowerName (s : String) : String := String.ofList (Text.lower s.toList)

/-! ## Names that agree up to case and surrounding blanks -/

def stripName (s : String) : String := String.ofList (Text.strip s.toList)

/-- The key under which a name is registered and looked up. -/
def nameKey (s : String) : String := lowerName (stripName s)

end CodeChunks
