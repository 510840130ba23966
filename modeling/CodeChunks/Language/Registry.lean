import CodeChunks.Files.Path
import CodeChunks.Language.Config

/-! # Tables of languages -/
namespace CodeChunks

/-- The languages by name, and the extensions and aliases that lead to names. -/
structure Languages where
  table : List (String × Language) := []
  extensions : List (String × String) := []
  aliases : List (String × String) := []

namespace Languages

/-- A second language of a name takes the place of the first; an extension or an alias stays with
the first language that declares it. -/
def add (ls : Languages) (l : Language) : Languages where
  table := Assoc.insert l.name l ls.table
  extensions := l.extensions.foldl (fun m e => Assoc.insertNew e l.name m) ls.extensions
  aliases := l.aliases.foldl (fun m a => Assoc.insertNew a l.name m) ls.aliases

def addExtension (ls : Languages) (extension language : String) : Languages :=
  { ls with extensions := Assoc.insertNew extension language ls.extensions }

def ofList (ds : List Language) (extra : List (String × String)) : Languages :=
  extra.foldl (fun ls (e, l) => ls.addExtension e l) (ds.foldl add {})

def objectFields (v : Json) (key : String) : Except Language.Fault Json.Fields :=
  match v with
  | .obj _ => match v.field? key with
    | none => .ok []
    | some (.obj fs) => .ok fs
    | some _ => .error .noFields
  | _ => .error .noFields

/-- Reads a document with the descriptions of languages and further extensions. -/
def ofJson (v : Json) : Except Language.Fault Languages := do
  let ds ← (← objectFields v "languages").mapM fun (name, raw) =>
    Language.ofJson (lowerName name) raw
  let extra ← objectFields v "extra_extensions"
  return ofList ds (extra.map fun (e, l) => (lowerName e, lowerName l.name))

def names (ls : Languages) : List String := Assoc.keys ls.table

def find? (ls : Languages) (name : String) : Option Language :=
  if name = "" then none else Assoc.find? (nameKey name) ls.table

/-- The language that the last component of a path points to: by its extension, or by what follows
its last dot being a language or an alias. -/
def ofFileName (ls : Languages) (name : String) : Option String :=
  match Path.afterLastDot? name.toList with
  | none => Assoc.find? name ls.extensions
  | some e =>
    let e := String.ofList e
    match Assoc.find? e ls.extensions with
    | some l => some l
    | none => if Assoc.has e ls.table then some e else Assoc.find? e ls.aliases

/-- The language of a path, of a language name or of an alias. -/
def detect (ls : Languages) (pathOrName : String) : Option String :=
  let raw := stripName pathOrName
  let key := lowerName raw
  if raw = "" then none
  else if Assoc.has key ls.table then some key
  else match Assoc.find? key ls.aliases with
    | some l => some l
    | none => ls.ofFileName (lowerName (Path.fileName raw))

end Languages

end CodeChunks
