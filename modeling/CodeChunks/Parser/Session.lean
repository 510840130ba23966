import CodeChunks.Language.Registry
import CodeChunks.Tree.Draft

/-! # Parsers and the sessions that load them -/

/-! ## Parsers -/
namespace CodeChunks

/-- Why a parse gives no tree. -/
inductive ParseFault where
  | tree (e : Tree.Fault)
  | noTree (language : String)
  | badSource (language : String)
  | refused (message : String)

def ParseFault.message : ParseFault → String
  | .tree e => e.message
  | .noTree language => s!"tree-sitter produced no tree for {language}"
  | .badSource language => s!"Syntax errors in {language} source"
  | .refused message => message

/-- What comes of a parse: a tree, something that is not a tree, nothing, or a failure. -/
inductive Parsed where
  | tree (t : Tree)
  | malformed
  | nothing
  | failed (e : ParseFault)

inductive HandleName where
  | labelled (label : String)
  | grammar (language grammar : String)
deriving DecidableEq

/-- A loaded parser. Its parses are logged under `log`. -/
structure Handle where
  name : HandleName
  log : String
  parse : Text → Json.Fields → Parsed

/-- What comes of loading a parser. -/
inductive Loaded where
  | handle (h : Handle)
  | nothing
  | failed
  | hangs

/-- Loads the parser of a language; the calls of a labelled factory are logged. -/
structure Factory where
  label : Option String := none
  load : String → Loaded

/-! ## Registered parsers and loaded ones -/

/-- An attempt to load a parser under a key. -/
inductive Load where
  | factory (label : Option String) (key : String)
  | discovery (key : String)
deriving DecidableEq

/-- The factories and the loaded parsers by key, with everything done so far: the attempts to load a
parser, and the codes that were parsed, each under the name of its parser. A key without a parser is
remembered too. -/
structure Session where
  factories : List (String × Factory) := []
  cache : List (String × Option Handle) := []
  loads : List Load := []
  parsed : List (String × Text) := []

namespace Session

inductive Fault where
  | emptyName
  | notCallable
deriving DecidableEq

def Fault.message : Fault → String
  | .emptyName => "Parser name must be non-empty"
  | .notCallable => "Parser factory must be callable"

def register (s : Session) (name : String) (f : Option Factory) : Except Fault Session :=
  if nameKey name = "" then .error .emptyName
  else match f with
    | none => .error .notCallable
    | some f => .ok { s with factories := Assoc.insert (nameKey name) f s.factories }

def unregister (s : Session) (name : String) : Session :=
  { s with factories := Assoc.erase (nameKey name) s.factories }

def factory? (s : Session) (name : String) : Option Factory :=
  Assoc.find? (nameKey name) s.factories

/-- The keys with a factory, in order. -/
def available (s : Session) : List String :=
  (Assoc.keys s.factories).mergeSort fun a b => decide (a ≤ b)

def clearCache (s : Session) : Session := { s with cache := [] }

/-- A session in which one factory serves every language of a table. -/
def ofLanguages (ls : Languages) (f : Factory) : Session where
  factories := ls.names.foldl (fun m n => Assoc.insert (nameKey n) f m) []

def logLoad (s : Session) (l : Load) : Session := { s with loads := s.loads ++ [l] }

def logParse (s : Session) (name : String) (code : Text) : Session :=
  { s with parsed := s.parsed ++ [(name, code)] }

/-- The parses in order, with the lengths of the codes. -/
def parses (s : Session) : List (String × Nat) :=
  s.parsed.map fun (name, code) => (name, code.length)

def remember (s : Session) (key : String) (h : Option Handle) : Session :=
  { s with cache := Assoc.insert key h s.cache }

end Session

/-- The table of languages, and how a grammar is found by the name of a language. -/
structure Toolbox where
  languages : Languages
  discover : String → Loaded

/-- Why a run ends early: a parser never answers, or a budget is out of range. -/
inductive Stop where
  | hangs
  | tooLarge
deriving DecidableEq

/-- A computation that uses parsers. -/
abbrev Run := ExceptT Stop (StateM Session)

namespace Toolbox

/-- A loaded parser, if there is one. -/
def settle : Loaded → Run (Option Handle)
  | .handle h => return some h
  | .nothing => return none
  | .failed => return none
  | .hangs => throw .hangs

def loadRegistered (key : String) : Run (Option Handle) := do
  match (← get).factory? key with
  | none => return none
  | some f =>
    modify (·.logLoad (.factory f.label key))
    settle (f.load key)

def loadDiscovered (b : Toolbox) (key : String) : Run (Option Handle) := do
  modify (·.logLoad (.discovery key))
  settle (b.discover key)

/-- The parser of a language: the one decided on before, the one that its factory loads, or the one
that discovery finds. What comes out is remembered, a failure included. -/
def resolve (b : Toolbox) (language : String) : Run (Option Handle) := do
  let key := nameKey language
  if key = "" then return none
  match Assoc.find? key (← get).cache with
  | some h => return h
  | none =>
    let h ← match ← loadRegistered key with
      | some h => pure (some h)
      | none => b.loadDiscovered key
    modify (·.remember key h)
    return h

/-- What extraction starts from. -/
inductive Source where
  | tree (t : Tree)
  | malformed

/-- The parse of a code in a language, if there is a parser and it succeeds. -/
def parse (b : Toolbox) (code : Text) (language : String) (options : Json.Fields) :
    Run (Option Source) := do
  match ← b.resolve language with
  | none => return none
  | some h =>
    modify (·.logParse h.log code)
    match h.parse code options with
    | .tree t => return some (.tree t)
    | .malformed => return some .malformed
    | .nothing => return none
    | .failed _ => return none

end Toolbox

end CodeChunks
