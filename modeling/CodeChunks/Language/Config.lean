import CodeChunks.Grammar.Flatten
import CodeChunks.Json.Entries
import CodeChunks.Text.Lower

/-! # What is known of a language -/
namespace CodeChunks

/-- Nodes of a type that host code in another language: named by an attribute, or else the default.
The key of the attribute and the default are null where there is none; nothing else is checked. -/
structure EmbeddingRule where
  nodeType : String
  recursive : Bool := true
  languageKey : Json := .null
  default : Json := .null

/-- A set of node types, in order. Members that are no strings are no types of nodes; they are kept
as they are, those of equal value once. -/
structure TypeSet where
  names : List String := []
  others : List Json := []

instance : Coe (List String) TypeSet := ⟨fun names => { names }⟩

namespace TypeSet

def contains (s : TypeSet) (type : String) : Bool := s.names.contains type

def toList (s : TypeSet) : List Json := s.others ++ s.names.map .str

def insertName (s : String) : List String → List String
  | [] => [s]
  | t :: ts => if s = t then t :: ts else if s < t then s :: t :: ts else t :: insertName s ts

def insertOther (v : Json) : List Json → List Json
  | [] => [v]
  | w :: ws =>
    if v.same w then w :: ws else if v.isLess w then v :: w :: ws else w :: insertOther v ws

def insert (s : TypeSet) : Json → TypeSet
  | .str t => { s with names := insertName t s.names }
  | v => { s with others := insertOther v s.others }

end TypeSet

/-- The grammar of a language, the names that lead to it, and the parts that its node types play. -/
structure Language where
  name : String
  grammar : String
  extensions : List String := []
  aliases : List String := []
  boundaries : TypeSet := {}
  contexts : TypeSet := {}
  wrappers : TypeSet := {}
  transparent : TypeSet := {}
  embeddings : List EmbeddingRule := []
  attributes : AttributeTable := []
  options : Json.Fields := []

namespace Language

/-- Why a description of languages cannot be read. -/
inductive Fault where
  | missing (key : String)
  | noFields
  | noRule (v : Json)
  | entries (e : Json.EntriesFault)

def Fault.message : Fault → String
  | .missing key => printedName key
  | .noFields => "no attribute"
  | .noRule (.str _) => "string indices must be integers, not 'str'"
  | .noRule (.arr _) => "list indices must be integers or slices, not str"
  | .noRule v => s!"'{v.kind}' object is not subscriptable"
  | .entries e => e.message

/-- The members of a field, none where it is absent. -/
def listField (raw : Json) (key : String) : Except Fault (List Json) :=
  match raw.field? key with
  | none => .ok []
  | some v => match v.members? with
    | some ms => .ok ms
    | none => .error (.entries (.notIterable v.kind))

def typeSet (raw : Json) (key : String) : Except Fault TypeSet := do
  let vs ← listField raw key
  vs.foldlM (fun s v =>
    if v.isHashable then .ok (s.insert v) else .error (.entries (.unhashable v.kind))) {}

def names (raw : Json) (key : String) : Except Fault (List String) := do
  return (← listField raw key).map fun v => lowerName v.name

def embeddingRule (v : Json) : Except Fault EmbeddingRule :=
  match v with
  | .obj _ => match v.field? "node_type" with
    | none => .error (.missing "node_type")
    | some t => .ok {
        nodeType := t.name
        recursive := ((v.field? "recursive").getD (.bool true)).truthy
        languageKey := v.field "lang_attr"
        default :=
          if (v.field "default_language").truthy then v.field "default_language" else .null }
  | v => .error (.noRule v)

/-- The entries of a value, as an object. -/
def entries (v : Json) : Except Fault Json.Fields := v.asFields.mapError .entries

def attributeTable (v : Json) : Except Fault AttributeTable :=
  match v with
  | .obj fs => fs.mapM fun (type, w) => do
    return (type, ← entries w)
  | _ => .error .noFields

/-- Reads a description under a name already chosen. -/
def ofJson (name : String) (raw : Json) : Except Fault Language :=
  match raw with
  | .obj _ => do
    let embeddings ← (← listField raw "embedded").mapM embeddingRule
    let grammar := raw.field "parser"
    let extensions ← names raw "extensions"
    let aliases ← names raw "aliases"
    let boundaries ← typeSet raw "boundaries"
    let contexts ← typeSet raw "context_types"
    let wrappers ← typeSet raw "wrappers"
    let transparent ← typeSet raw "transparent"
    let attributes ← attributeTable ((raw.field? "attributes").getD (.obj []))
    let options ← entries ((raw.field? "parser_options").getD (.obj []))
    return {
      name, grammar := if grammar.truthy then grammar.name else name
      extensions, aliases, boundaries, contexts, wrappers, transparent, embeddings, attributes
      options }
  | _ => .error .noFields

def flattening (l : Language) : Flattening := ⟨l.attributes, l.transparent.names⟩

end Language

/-! ## The parts that nodes play in a language -/

/-- Names under which code is plain text. -/
def plainTextNames : List String := ["text", "plain", "plaintext", "txt"]

namespace Language

def isBoundary (l : Option Language) (type : String) : Bool :=
  (l.map fun l => l.boundaries.contains type).getD false

/-- The nodes that are context for every chunk, in the order of the table. -/
def contextNodes (l : Option Language) (t : Tree) : List Node :=
  match l with
  | none => []
  | some l => t.nodes.toList.filter fun n => l.contexts.contains n.type

/-- The first rule for a node type. -/
def embedding? (l : Option Language) (type : String) : Option EmbeddingRule :=
  l.bind fun l => l.embeddings.find? (·.nodeType == type)

end Language

/-- Why the language of embedded code cannot be told: a value that is no key, or no name. -/
inductive EmbeddingFault where
  | unhashable (kind : String)
  | noName (kind : String)
deriving DecidableEq

def EmbeddingFault.message : EmbeddingFault → String
  | .unhashable kind => s!"unhashable type: '{kind}'"
  | .noName kind => s!"'{kind}' object has no attribute 'strip'"

namespace EmbeddingRule

/-- The name that the attributes give under the key of the rule. -/
def named? (r : EmbeddingRule) (attributes : Json.Fields) : Option String :=
  (r.languageKey.string?.bind fun key => (Assoc.find? key attributes).bind Json.string?).filter
    (· != "")

/-- The language that the attributes name, in lower case, or else the default. Attributes are looked
at only under a key, which has to be one that they can have. -/
def detect (r : EmbeddingRule) (attributes : Json.Fields) : Except EmbeddingFault Json :=
  if attributes.isEmpty || !r.languageKey.truthy then .ok r.default
  else if r.languageKey.isHashable then
    .ok ((r.named? attributes).elim r.default fun s => .str (lowerName s))
  else .error (.unhashable r.languageKey.kind)

end EmbeddingRule

end CodeChunks
