import CodeChunks.Files.Folder
import CodeChunks.Store.Address
import CodeChunks.Store.Schema

/-! # Stores and the databases behind them -/
namespace CodeChunks

/-- A database in memory, known by its number, or one in a file, known by the components of its
path below the current folder or below the root. -/
inductive Site where
  | memory (number : Nat)
  | file (absolute : Bool) (parts : List String)
deriving DecidableEq

/-- The databases by their sites; one that is not there is empty. -/
structure Databases where
  table : List (Site × Database) := []
  opened : Nat := 0

/-- A lexical store, whether the database behind it is its own, and how that is opened. -/
structure Store where
  site : Site
  owned : Bool
  access : Access := .create

namespace Store

/-- Where a store gets its database from: an address, a factory of databases in memory, or somebody
who lends one. -/
inductive Engine where
  | address (url : Text)
  | factory
  | lent (site : Site)

/-- Why a store cannot be made or used. -/
inductive Fault where
  | provider
  | address (e : Address.Fault)
  | database (e : Database.Fault)
  | overflow (e : Lexicon.Overflow)
  | row (e : RowFault)

/-- The fault is told in words of the program; the other faults are told by the engine behind it. -/
def Fault.message? : Fault → Option String
  | .provider => some "cfg.provider must be 'sqlite' for PersistInSqlite"
  | .address e => e.message?
  | .overflow e => some e.message
  | .row e => some e.message
  | .database _ => none

/-- A document of metadata that cannot be written is told like one that cannot be read. -/
def Fault.ofLexicon : Lexicon.Fault → Fault
  | .overflow e => .overflow e
  | .metadata e => .row (.document e)

structure Config where
  provider : String := "sqlite"
  engine : Engine
  migrated : Bool := true

end Store

namespace Databases

open Store (Fault)

def get (ds : Databases) (s : Site) : Database := (Assoc.find? s ds.table).getD {}

def set (ds : Databases) (s : Site) (db : Database) : Databases :=
  { ds with table := Assoc.insert s db ds.table }

/-- A new database in memory. -/
def openMemory (ds : Databases) : Site × Databases :=
  (.memory ds.opened, { ds with opened := ds.opened + 1 })

/-- The site of a path, which ends at its first zero byte. -/
def siteOf (p : Path) : Site :=
  let t := "/".intercalate (Path.resolved p)
  .file (Path.isAbsolute p) (Path.parts (String.ofList (t.toList.takeWhile (· != '\x00'))))

def connect (ds : Databases) : Store.Engine → Except Fault (Store × Databases)
  | .lent site => .ok (⟨site, false, .create⟩, ds)
  | .factory => .ok (⟨ds.openMemory.1, true, .create⟩, ds.openMemory.2)
  | .address url => match Address.ofText url with
    | .error e => .error (.address e)
    | .ok .memory => .ok (⟨ds.openMemory.1, true, .create⟩, ds.openMemory.2)
    | .ok (.file p access) => .ok (⟨siteOf p, true, access⟩, ds)

/-- The most bytes of a file name that leave room for the name of its journal, and of a path with
the folder that it is in. -/
def maxNameBytes : Nat := Folder.maxNameBytes - 8

def maxPathBytes : Nat := 487

def isTooLong (parts : List String) : Bool :=
  maxPathBytes < ("/".intercalate parts).utf8ByteSize ||
    parts.any (Folder.maxNameBytes < ·.utf8ByteSize) ||
    parts.getLast?.any (maxNameBytes < ·.utf8ByteSize)

/-- Of the folders that are not below the current one, the root and the one for temporary files are
known. -/
def isOpenToAll (parts : List String) : Bool :=
  !parts.isEmpty && parts != ["tmp"] && (parts.dropLast == [] || parts.dropLast == ["tmp"])

/-- Why the file of a database that has not been opened before cannot be opened. A file with one
byte counts as empty, and no other file may have content. -/
def fileFault? (folder : Folder) (absolute : Bool) (parts : List String) (access : Access) :
    Option Database.Fault :=
  let found := if absolute then none else Assoc.find? parts folder.files
  match found with
  | some bs =>
    if access = .refused || access = .read then some .operational
    else if 1 < bs.length then some .foreign
    else if isTooLong parts then some .operational
    else none
  | none =>
    let isThere := if absolute then isOpenToAll parts else folder.canMake parts
    if access = .create && isThere && !isTooLong parts then none else some .operational

def openFault? (ds : Databases) (folder : Folder) (s : Store) : Option Database.Fault :=
  match s.site with
  | .memory _ => none
  | .file absolute parts =>
    if s.access != .refused && Assoc.has s.site ds.table then none
    else fileFault? folder absolute parts s.access

def migrate (ds : Databases) (folder : Folder) (s : Store) : Except Fault Unit × Databases :=
  match ds.openFault? folder s with
  | some e => (.error (.database e), ds)
  | none => match (ds.get s.site).migrate Database.migrations with
    | (.ok _, db) => (.ok (), ds.set s.site db)
    | (.error e, db) => (.error (.database e), ds.set s.site db)

/-- Opens a store, as a rule with all migrations applied. -/
def create (ds : Databases) (folder : Folder) (c : Store.Config) :
    Except Fault Store × Databases :=
  if c.provider ≠ "sqlite" then (.error .provider, ds)
  else match ds.connect c.engine with
    | .error e => (.error e, ds)
    | .ok (s, ds) =>
      if c.migrated then
        match ds.migrate folder s with
        | (.ok _, ds) => (.ok s, ds)
        | (.error e, ds) => (.error e, ds)
      else (.ok s, ds)

/-- The rows behind a store, once the database has the tables that hold them. -/
def rows (ds : Databases) (s : Store) : Except Fault Lexicon :=
  if (ds.get s.site).isReady then .ok (ds.get s.site).rows else .error (.database .operational)

def setRows (ds : Databases) (s : Store) (x : Lexicon) : Databases :=
  ds.set s.site { ds.get s.site with rows := x }

def persist (ds : Databases) (s : Store) (path : String) (content : Text)
    (language : Option String) (cs : List Chunk) (mtime : Int) : Except Fault Int × Databases :=
  match ds.rows s with
  | .error e => (.error e, ds)
  | .ok x => match x.persist path content language cs mtime with
    | (.ok id, x) => (.ok id, ds.setRows s x)
    | (.error e, x) => (.error (.ofLexicon e), ds.setRows s x)

/-- Removing nothing does not touch the database. -/
def delete (ds : Databases) (s : Store) (paths : List String) : Except Fault Unit × Databases :=
  if paths.isEmpty then (.ok (), ds)
  else match ds.rows s with
    | .error e => (.error e, ds)
    | .ok x => (.ok (), ds.setRows s (x.delete paths))

def chunksAt (ds : Databases) (s : Store) (path : String) : Except Fault (List Chunk) := do
  ((← ds.rows s).chunksAt path).mapError .row

/-- A store lets go of a database of its own; one in memory is gone then. -/
def close (ds : Databases) (s : Store) : Databases :=
  match s.owned, s.site with
  | true, .memory n => ds.set (.memory n) {}
  | _, _ => ds

end Databases

end CodeChunks
