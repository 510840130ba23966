import CodeChunks.Files.Path
import CodeChunks.Lists
import CodeChunks.Text.Utf8

/-! # The files below the current folder -/
namespace CodeChunks

/-- Why a file cannot be read. -/
inductive FileFault where
  | missing (p : Path)
  | notFolder (p : Path)
  | folder (p : Path)
  | nameTooLong (p : Path)
  | denied (p : Path)
  | zeroByte (p : Path)
deriving DecidableEq

def FileFault.message : FileFault → String
  | .missing p => "[Errno 2] No such file or directory: " ++ printedName p
  | .notFolder p => "[Errno 20] Not a directory: " ++ printedName p
  | .folder p => "[Errno 21] Is a directory: " ++ printedName p
  | .nameTooLong p => "[Errno 36] File name too long: " ++ printedName p
  | .denied p => "[Errno 13] Permission denied: " ++ printedName p
  | .zeroByte _ => "embedded null byte"

/-- What reading a path gives. -/
abbrev Files := Path → Except FileFault Bytes

/-- A file as text: ill-formed bytes replaced, every line ended by a newline. -/
def Files.text (fs : Files) (p : Path) : Except FileFault Text :=
  (fs p).map fun bs => Text.foldNewlines (Utf8.decode bs)

/-- The files and the folders below the current one, by the components of their paths. -/
structure Folder where
  files : List (List String × Bytes) := []
  folders : List (List String) := []

namespace Path

/-- A relative path is meant from a base. -/
def under (base p : Path) : Path := if isAbsolute p || base = "" then p else base ++ "/" ++ p

end Path

namespace Folder

/-- Where a path leads: to a file, to a folder known by its components, or to a folder outside. -/
inductive Place where
  | file (bs : Bytes)
  | inside (cs : List String)
  | outside

def addFile (d : Folder) (name : Path) (bs : Bytes) : Folder :=
  { d with files := Assoc.insert (Path.parts name) bs d.files }

def addFolder (d : Folder) (name : Path) : Folder :=
  { d with folders := Path.parts name :: d.folders }

/-- Folders are those named and those that something lies in. -/
def isFolder (d : Folder) (cs : List String) : Bool :=
  cs.isEmpty || (Assoc.keys d.files ++ d.folders).any fun p => p.take cs.length == cs &&
    (cs.length < p.length || d.folders.contains p)

/-- The most bytes that a path may have, and that one of its components may have. -/
def maxPathBytes : Nat := 4095

def maxNameBytes : Nat := 255

def enter (d : Folder) (p : Path) (cs : List String) (c : String) : Except FileFault Place :=
  if maxNameBytes < c.utf8ByteSize then .error (.nameTooLong p)
  else match Assoc.find? (cs ++ [c]) d.files with
    | some bs => .ok (.file bs)
    | none => if d.isFolder (cs ++ [c]) then .ok (.inside (cs ++ [c])) else .error (.missing p)

/-- Follows the components of `p` one by one. -/
def walk (d : Folder) (p : Path) : Place → List String → Except FileFault Place
  | place, [] => .ok place
  | .file _, _ :: _ => .error (.notFolder p)
  | .inside [], ".." :: cs => d.walk p .outside cs
  | .inside (k :: ks), ".." :: cs => d.walk p (.inside (k :: ks).dropLast) cs
  | .inside ks, c :: cs => do d.walk p (← d.enter p ks c) cs
  | .outside, ".." :: cs => d.walk p .outside cs
  | .outside, _ :: _ => .error (.missing p)

/-- Where the components of a path lead. Nothing is known of absolute paths but that there is a
root. -/
def placeOf (d : Folder) (p : Path) (cs : List String) : Except FileFault Place :=
  d.walk (Path.normal p) (if Path.isAbsolute p then .outside else .inside []) cs

def read (d : Folder) : Files := fun p =>
  if p.toList.contains '\x00' then .error (.zeroByte p)
  else if maxPathBytes < (Path.normal p).utf8ByteSize then .error (.nameTooLong (Path.normal p))
  else do match ← d.placeOf p (Path.parts p) with
    | .file bs => .ok bs
    | _ => .error (.folder (Path.normal p))

/-- A new file can be made inside a folder that is there. Outside, every folder above is there. -/
def canMake (d : Folder) (cs : List String) : Bool :=
  match cs.dropWhile (· == "..") with
  | [] => false
  | [_] => true
  | _ => cs.head? != some ".." && !d.isFolder cs && d.isFolder cs.dropLast

end Folder

end CodeChunks
