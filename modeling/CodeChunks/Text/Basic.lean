import CodeChunks.Lists

/-! # Texts, their lines and their blanks -/
namespace CodeChunks

/-- A text is the list of its characters, so every length and offset counts characters. -/
abbrev Text := List Char

namespace Text

def startsWith : Text → Text → Bool
  | _, [] => true
  | [], _ :: _ => false
  | c :: t, d :: u => c == d && startsWith t u

/-- Texts in order, by their first characters that are not the same. -/
def isLe : Text → Text → Bool
  | [], _ => true
  | _ :: _, [] => false
  | c :: t, d :: u => c.toNat < d.toNat || (c == d && isLe t u)

/-- The parts of a text between the copies of a character. -/
def splitAtChar (d : Char) : Text → List Text
  | [] => [[]]
  | c :: t => if c = d then [] :: splitAtChar d t else
    match splitAtChar d t with
    | [] => [[c]]
    | l :: ls => (c :: l) :: ls

/-- The lines between newlines; a text without one is a single line. -/
def lines (t : Text) : List Text := splitAtChar '\n' t

def unlines (ls : List Text) : Text := ['\n'].intercalate ls

/-! ## Blank characters -/

/-- The white space of the Unicode standard together with the four information separators. -/
def isBlank (c : Char) : Bool :=
  let n := c.toNat
  (9 ≤ n && n ≤ 13) || (28 ≤ n && n ≤ 32) || n == 0x85 || n == 0xA0 || n == 0x1680 ||
  (0x2000 ≤ n && n ≤ 0x200A) || n == 0x2028 || n == 0x2029 || n == 0x202F || n == 0x205F ||
  n == 0x3000

def allBlank (t : Text) : Bool := t.all isBlank

def trimRight (p : Char → Bool) (t : Text) : Text := (t.reverse.dropWhile p).reverse

/-- The text without the blanks at its two ends. -/
def strip (t : Text) : Text := trimRight isBlank (t.dropWhile isBlank)

def firstWord (t : Text) : Text := (t.dropWhile isBlank).takeWhile (!isBlank ·)

end Text

end CodeChunks
