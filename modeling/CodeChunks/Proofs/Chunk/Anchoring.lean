import CodeChunks.Proofs.Chunk.Origins
import CodeChunks.Proofs.Chunk.Pipeline
import CodeChunks.Proofs.Parser.Outlines
import CodeChunks.Proofs.Text.Fences

/-! # The lines of embedded chunks

An embedded chunk is moved down by the lines above its host. The line that opens a fenced block is
not one of them, so what the block encloses is reported one line above where it stands. -/
namespace CodeChunks

namespace Toolbox

variable {b : Toolbox} {s s' : Session} {l : Option Language} {o : Options} {code : Text}
  {start stop : Nat} {host : Chunk} {ds : List Chunk}

end Toolbox

end CodeChunks
