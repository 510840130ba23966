import CodeChunks.CommandLine.Arguments
import CodeChunks.Files.Binary
import CodeChunks.Indexing.Process

/-! # The command -/
namespace CodeChunks

namespace Settings

/-- Why settings make no options. -/
inductive Fault where
  | options (e : Options.Fault)
  | blankSize

def Fault.message : Fault → String
  | .options e => e.message
  | .blankSize => "'<' not supported between instances of 'list' and 'int'"

/-- The options that the arguments name, or else the environment, or else the defaults. The larger
size is checked first. -/
def options (s : Settings) (env : Environment) : Except Fault Options :=
  let make (maxSize minSize : Int) : Except Fault Options :=
    (Options.make? maxSize minSize
      (!s.noContext && env.bool "CHUNKER_PRESERVE_CONTEXT" true)
      none
      (!s.noEmbedded && env.bool "CHUNKER_PARSE_EMBEDDED" true)).mapError .options
  match s.maxSize.getD? (env.int "CHUNKER_MAX_CHUNK_SIZE" 1000) with
  | none => .error .blankSize
  | some maxSize =>
    match s.minSize.getD? (env.int "CHUNKER_MIN_CHUNK_SIZE" 100) with
    | none => do
      let _ ← make maxSize 0
      .error .blankSize
    | some minSize => make maxSize minSize

/-- The address of the lexical store, if there is to be one. -/
def databaseUrl? (s : Settings) (env : Environment) : Option Text :=
  let given := (s.database.value?.getD "").toList
  let url := if given.isEmpty then env.value "DATABASE_URL" else given
  if url.isEmpty then none else some url

/-- A limit that is not positive is none. -/
def limited (s : Settings) : Except IndexFault Bool :=
  match s.timeout with
  | .absent => .ok false
  | .value x => .ok (!(x ≤ 0))
  | .blank => .error .blankLimit

end Settings

/-- What a command works on. -/
structure Surroundings where
  toolbox : Toolbox
  environment : Environment := []
  files : Files
  folder : Folder := {}
  time : Int := 0

namespace Command

inductive Fault where
  | exit (e : Argument.Exit)
  | settings (e : Settings.Fault)
  | detector (e : Detector.Fault)
  | store (e : Store.Fault)
  | index (e : IndexFault)

inductive Output where
  | languages (names : List String)
  | summary (s : Summary)

def Output.toJson : Output → Json
  | .languages names => .arr (names.map .str)
  | .summary s => s.toJson

/-- The sessions of parsers and the databases that a command changes. -/
abbrev State := Session × Databases

def openStore (w : Surroundings) (ds : Databases) :
    Option Text → Except Store.Fault (Option Store) × Databases
  | none => (.ok none, ds)
  | some url => match ds.create w.folder ⟨"sqlite", .address url, true⟩ with
    | (.ok s, ds) => (.ok (some s), ds)
    | (.error e, ds) => (.error e, ds)

def closeStore (s : Option Store) (x : State) : State :=
  (x.1, (s.map x.2.close).getD x.2)

/-- Chunks the texts among the paths, with a store that is open meanwhile. -/
def index (w : Surroundings) (s : Settings) (o : Options) (texts skipped : List Path)
    (store : Option Store) (x : State) : Except Fault Output × State :=
  let shop : Workshop := ⟨w.toolbox, o, w.files, s.limited⟩
  match (shop.process (store.map fun k => Sink.ofStore k w.time) texts).run x with
  | (.ok (entries, failures), x) =>
    (.ok (.summary ⟨o, entries, failures, skipped, store.isSome⟩), closeStore store x)
  | (.error e, x) => (.error (.index e), closeStore store x)

def settle (w : Surroundings) (s : Settings) :
    Except Fault (Options × List Path × List Path) := do
  let o ← (s.options w.environment).mapError .settings
  let (texts, skipped) ← (Detector.partition {} w.files s.paths).mapError .detector
  return (o, texts, skipped)

def runSettings (w : Surroundings) (s : Settings) (x : State) : Except Fault Output × State :=
  if s.languages then (.ok (.languages w.toolbox.languages.names), x)
  else match settle w s with
    | .error e => (.error e, x)
    | .ok (o, texts, skipped) =>
      match openStore w x.2 (s.databaseUrl? w.environment) with
      | (.error e, ds) => (.error (.store e), (x.1, ds))
      | (.ok store, ds) => index w s o texts skipped store (x.1, ds)

/-- Runs a command line. -/
def run (w : Surroundings) (args : List String) (x : State) : Except Fault Output × State :=
  match Settings.ofArguments args with
  | .error e => (.error (.exit e), x)
  | .ok s => runSettings w s x

end Command

end CodeChunks
