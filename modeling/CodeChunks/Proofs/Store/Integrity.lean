import CodeChunks.Proofs.Number.Logarithms
import CodeChunks.Proofs.Store.History

/-! # The tables of a store agree with each other

The tables do not enforce that a row refers to one that is there, and the columns that sum up others
are written by the calls. After any calls, answered or refused, they agree. -/
namespace CodeChunks

namespace Lexicon

variable (x : Lexicon)

/-- The rows of the chunks of a file. -/
def chunksOf (f : FileRow) : List ChunkRow := x.chunks.filter (·.fileId == f.id)

end Lexicon

namespace Holdings

variable {s : Holdings}

end Holdings

end CodeChunks
