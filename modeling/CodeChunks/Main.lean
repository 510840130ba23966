import CodeChunks.CommandLine.Command
import CodeChunks.Grammar.Pack
import CodeChunks.Json.Write
import CodeChunks.Language.Builtin

/-! # The program

It knows no grammar, so that every file is cut by size, and its store lasts as long as the run. A
program that has grammars hands them in as a pack. -/
namespace CodeChunks

def pack : Pack := .ofRecordings []

def variableNames : List String := [
  "CHUNKER_MAX_CHUNK_SIZE", "CHUNKER_MIN_CHUNK_SIZE", "CHUNKER_PRESERVE_CONTEXT",
  "CHUNKER_PARSE_EMBEDDED", "DATABASE_URL"]

def readEnvironment : IO Environment := do
  let vs ← variableNames.mapM fun name => return (name, ← IO.getEnv name)
  return vs.filterMap fun (name, v) => v.map (name, ·)

def faultOf (p : Path) : IO.Error → FileFault
  | .inappropriateType _ code _ =>
    if code = 20 || code = 0 - 20 then .notFolder (Path.normal p) else .folder (Path.normal p)
  | .permissionDenied _ _ _ => .denied (Path.normal p)
  | _ => .missing (Path.normal p)

def readFile (p : Path) : IO (Path × Except FileFault Bytes) := do
  try return (p, .ok (← IO.FS.readBinFile (Path.normal p)).toList)
  catch e => return (p, .error (faultOf p e))

def readFiles (ps : List Path) : IO Files := do
  let found ← ps.eraseDups.mapM readFile
  return fun p => (Assoc.find? p found).getD (.error (.missing p))

def usage : String :=
  "usage: code-chunks [-h] [--max-chunk-size N] [--min-chunk-size N] [--no-context]" ++
  " [--no-embedded] [--timeout SECONDS] [--languages] [--db URL] [-v] [paths ...]"

/-- The line for the reader of a fault that is no fault of the arguments. -/
def faultText : Command.Fault → String
  | .exit _ => usage
  | .settings e => e.message
  | .detector e => e.message
  | .store e => e.message?.getD "the database cannot be used"
  | .index e => e.message

def finish : Except Command.Fault Command.Output → IO UInt32
  | .ok o => do
    IO.println (String.ofList (Json.print o.toJson))
    return 0
  | .error (.exit .help) => do
    IO.println usage
    return 0
  | .error (.exit .usage) => do
    IO.eprintln usage
    return 2
  | .error e => do
    IO.eprintln (faultText e)
    return 1

end CodeChunks

open CodeChunks in
def main (args : List String) : IO UInt32 := do
  let languages := Languages.builtin
  let paths := match Settings.ofArguments args with
    | .ok s => s.paths
    | .error _ => []
  let w : Surroundings := {
    toolbox := ⟨languages, pack.discover⟩
    environment := ← readEnvironment
    files := ← readFiles paths }
  let session := Session.ofLanguages languages (pack.factory languages)
  finish (Command.run w args (session, {})).1
