import CodeChunks.Text.Lower
import CodeChunks.Text.Printed

/-! # Paths -/
namespace CodeChunks

/-- A path as written, its components separated by slashes. -/
abbrev Path := String

namespace Path

def parts (p : Path) : List String :=
  ((Text.splitAtChar '/' p.toList).map String.ofList).filter fun s => s != "" && s != "."

def isAbsolute (p : Path) : Bool := p.toList.head? == some '/'

/-- The last component; empty for the root and for the current folder. -/
def fileName (p : Path) : String := (parts p).getLastD ""

/-- Exactly two slashes at the front stay two; more count as one. -/
def anchor (p : Path) : String :=
  match p.toList with
  | '/' :: '/' :: '/' :: _ => "/"
  | '/' :: '/' :: _ => "//"
  | '/' :: _ => "/"
  | _ => ""

/-- The path without empty and dot components. -/
def normal (p : Path) : Path :=
  let s := anchor p ++ "/".intercalate (parts p)
  if s = "" then "." else s

/-- The components with every double dot resolved against the one before it. Those that are left
stand at the front, and lead out of the folder. -/
def resolved (p : Path) : List String :=
  (parts p).foldl (fun cs c =>
    if c = ".." then
      if cs.getLast?.all (· == "..") then (if isAbsolute p then cs else cs ++ [c]) else cs.dropLast
    else cs ++ [c]) []

/-- What follows the last dot of a text that has one. -/
def afterLastDot? (t : Text) : Option Text :=
  if t.contains '.' then some ((t.reverse.takeWhile (· != '.')).reverse) else none

/-- The last component from its last dot on, unless that dot is its first or last character. -/
def suffix (p : Path) : String :=
  let name := (fileName p).toList
  match afterLastDot? name with
  | none => ""
  | some e => if e.isEmpty || e.length + 1 == name.length then "" else String.ofList ('.' :: e)

end Path

end CodeChunks
