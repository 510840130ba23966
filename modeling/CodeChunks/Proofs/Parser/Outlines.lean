import CodeChunks.Proofs.Parser.Runs
import CodeChunks.Proofs.Tree.Anchors

/-! # Parsers that find one outline in every code -/
namespace CodeChunks

namespace Outline

def handle (o : Outline) (language : String) : Handle where
  name := .labelled language
  log := language
  parse code _ := match o.tree language code 0 with
    | .ok t => .tree t
    | .error e => .failed (.tree e)

end Outline

namespace Toolbox

/-- Languages with the outline that the parser of each finds. -/
def ofOutlines (ls : List (Language × Outline)) : Toolbox where
  languages := { table := ls.map fun (l, _) => (l.name, l) }
  discover key := match Assoc.find? key (ls.map fun (l, o) => (l.name, o)) with
    | none => .nothing
    | some o => .handle (o.handle key)

variable (ls : List (Language × Outline))

theorem answers_ofOutlines : (ofOutlines ls).Answers {} := by
  refine ⟨by simp, fun key => ?_⟩
  simp only [ofOutlines]
  split <;> simp

end Toolbox

end CodeChunks
