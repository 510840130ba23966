import CodeChunks.Grammar.Flatten
import CodeChunks.Language.Registry
import CodeChunks.Parser.Session

/-! # Packs of grammars -/
namespace CodeChunks

/-- The parse of a source: its root, and whether the source has errors. -/
structure GrammarParse where
  root : GrammarNode
  hasErrors : Bool

/-- Grammars by name, and what each makes of a source. -/
structure Pack where
  has : String → Bool
  parse : String → Text → Option GrammarParse

/-- A parse known beforehand, for one source or for all. -/
structure Recording where
  grammar : String
  source : Option Text
  parse : Option GrammarParse

namespace Pack

/-- The first recording of a grammar that fits the source counts. -/
def ofRecordings (rs : List Recording) : Pack where
  has g := rs.any (·.grammar == g)
  parse g t :=
    (rs.find? fun r => r.grammar == g && (r.source.map (· == t)).getD true).bind (·.parse)

/-- A grammar that no pack has. -/
structure Missing where
  grammar : String

def Missing.message (e : Missing) : String := s!"no recorded grammar {e.grammar}"

/-- Under the option `strict`, a source with errors is refused. -/
def parseTree (p : Pack) (language grammar : String) (f : Flattening) (t : Text)
    (options : Json.Fields) : Parsed :=
  match p.parse grammar t with
  | none => .failed (.noTree language)
  | some g =>
    if ((Assoc.find? "strict" options).getD .null).truthy && g.hasErrors then
      .failed (.badSource language)
    else match f.tree language t g.root with
      | .ok tree => .tree tree
      | .error e => .failed (.tree e)

def handle (p : Pack) (language grammar : String) (f : Flattening) : Except Missing Handle :=
  let g := if grammar = "" then language else grammar
  if p.has g then .ok ⟨.grammar language g, g, p.parseTree language g f⟩ else .error ⟨g⟩

def load (p : Pack) (language grammar : String) (f : Flattening) : Loaded :=
  match p.handle language grammar f with
  | .ok h => .handle h
  | .error _ => .failed

/-- A grammar may be found by the name of the language. -/
def discover (p : Pack) (language : String) : Loaded := p.load language language {}

/-- Loads the grammar that the table of languages names. -/
def factory (p : Pack) (ls : Languages) : Factory where
  load language := match ls.find? language with
    | none => .failed
    | some l => p.load language l.grammar l.flattening

end Pack

end CodeChunks
