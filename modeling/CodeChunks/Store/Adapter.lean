import CodeChunks.Lists
import CodeChunks.Text.Lower

/-! # Adapters of stores -/
namespace CodeChunks

/-- What makes a store: the lexical store, or something known by its label only. -/
inductive Adapter where
  | lexical
  | labelled (label : String)
deriving DecidableEq

/-- The adapters by key. -/
structure Adapters where
  table : List (String × Adapter) := [("sqlite", .lexical)]

namespace Adapters

inductive Fault where
  | emptyName
  | notCallable
  | unsupported (name : String)
deriving DecidableEq

def Fault.message : Fault → String
  | .emptyName => "Adapter name must be non-empty"
  | .notCallable => "Adapter factory must be callable"
  | .unsupported name => s!"Unsupported persistence adapter '{name}'"

def register (m : Adapters) (name : String) (a : Option Adapter) : Except Fault Adapters :=
  if nameKey name = "" then .error .emptyName
  else match a with
    | none => .error .notCallable
    | some a => .ok ⟨Assoc.insert (nameKey name) a m.table⟩

def get? (m : Adapters) (name : String) : Option Adapter := Assoc.find? (nameKey name) m.table

/-- The keys in order. -/
def available (m : Adapters) : List String :=
  (Assoc.keys m.table).mergeSort fun a b => decide (a ≤ b)

/-- The adapter of a name; the empty name means the lexical store's own. -/
def choose (m : Adapters) (name : String) : Except Fault Adapter :=
  match m.get? (if nameKey name = "" then "sqlite" else name) with
  | some a => .ok a
  | none => .error (.unsupported name)

end Adapters

end CodeChunks
