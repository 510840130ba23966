import CodeChunks.Lists
import CodeChunks.Number.Numeral
import CodeChunks.Text.Lower
import CodeChunks.Text.Numeral

/-! # Settings from the command line and the environment -/

/-! ## Settings from the environment -/
namespace CodeChunks

/-- The variables by name. -/
abbrev Environment := List (String × String)

namespace Environment

/-- The value without blanks at its ends; an unset variable counts as empty. -/
def value (e : Environment) (name : String) : Text :=
  Text.strip ((Assoc.find? name e).getD "").toList

/-- The integer that a variable holds, or else the default. -/
def int (e : Environment) (name : String) (default : Int) : Int :=
  (Numeral.int? (e.value name)).getD default

def trueWords : List Text := ["1", "true", "yes", "on"].map String.toList

def falseWords : List Text := ["0", "false", "no", "off"].map String.toList

/-- The truth value that a variable names in any case, or else the default. -/
def bool (e : Environment) (name : String) (default : Bool) : Bool :=
  let w := Text.lower (e.value name)
  if trueWords.contains w then true
  else if falseWords.contains w then false
  else default

end Environment

/-! ## Command line arguments -/

inductive Flag where
  | help
  | maxSize
  | minSize
  | noContext
  | noEmbedded
  | timeout
  | languages
  | database
  | verbose
deriving DecidableEq

namespace Flag

def names : List (Text × Flag) := [
  ("--help".toList, .help),
  ("--max-chunk-size".toList, .maxSize),
  ("--min-chunk-size".toList, .minSize),
  ("--no-context".toList, .noContext),
  ("--no-embedded".toList, .noEmbedded),
  ("--timeout".toList, .timeout),
  ("--languages".toList, .languages),
  ("--db".toList, .database),
  ("--verbose".toList, .verbose)]

/-- The flags of one letter; none of them takes a value. -/
def ofLetter? (c : Char) : Option Flag :=
  if c = 'h' then some .help else if c = 'v' then some .verbose else none

def takesValue : Flag → Bool
  | .maxSize => true
  | .minSize => true
  | .timeout => true
  | .database => true
  | _ => false

/-- The flags whose names begin with a text, only the one if it is a name itself. -/
def candidates (t : Text) : List Flag :=
  match Assoc.find? t names with
  | some f => [f]
  | none => (names.filter fun n => n.1.startsWith t).map (·.2)

end Flag

/-- What an argument looks like on its own. -/
inductive Argument where
  | plain (t : Text)
  | separator
  | flag (f : Flag) (value : Option Text)
  | letters (t : Text)
  | unknown
deriving DecidableEq

namespace Argument

/-- How a reading of the arguments ends early. -/
inductive Exit where
  | help
  | usage
deriving DecidableEq

/-- The text before the first equals sign and what follows it. -/
def splitValue (t : Text) : Text × Option Text :=
  match t.dropWhile (· != '=') with
  | _ :: v => (t.takeWhile (· != '='), some v)
  | [] => (t, none)

def isDigit (c : Char) : Bool := (Numeral.plainChar c).isDigit

/-- A minus sign and digits, perhaps with a point that digits follow. -/
def looksNegative (t : Text) : Bool :=
  match t with
  | '-' :: u =>
    let u := if u.getLast? == some '\n' then u.dropLast else u
    match u.dropWhile isDigit with
    | [] => !u.isEmpty
    | '.' :: v => !v.isEmpty && v.all isDigit
    | _ => false
  | _ => false

/-- No flag begins like this: a plain argument if it is a negative number or has a space. -/
def strange (t : Text) : Argument :=
  if looksNegative t || t.contains ' ' then .plain t else .unknown

/-- Long flags may be cut short as long as one flag only is meant. -/
def ofLong (t : Text) : Except Exit Argument :=
  let (name, value) := splitValue t
  match Flag.candidates name with
  | [f] => .ok (.flag f value)
  | [] => .ok (strange t)
  | _ => .error .usage

/-- Letters of which the first is a flag. What follows an equals sign are more letters, so that the
sign tells nothing; without any it stays, as a letter that is no flag. -/
def ofShort (t : Text) (c : Char) (more : Text) : Argument :=
  match Flag.ofLetter? c, more with
  | none, _ => strange t
  | some _, '=' :: d :: more => .letters (c :: d :: more)
  | some _, more => .letters (c :: more)

def ofText (t : Text) : Except Exit Argument :=
  match t with
  | '-' :: '-' :: _ => ofLong t
  | '-' :: c :: more => .ok (ofShort t c more)
  | _ => .ok (.plain t)

/-- All arguments; after the first separator everything is plain. -/
def ofTexts : List Text → Except Exit (List Argument)
  | [] => .ok []
  | t :: ts =>
    if t = ['-', '-'] then .ok (.separator :: ts.map .plain)
    else do return (← ofText t) :: (← ofTexts ts)

end Argument

/-- What the arguments say of a setting: nothing, a value, or its name with a separator in place of
a value. -/
inductive Given (α : Type) where
  | absent
  | value (a : α)
  | blank

namespace Given

variable {α : Type}

/-- The value, or else the default of a setting that is not named. -/
def getD? : Given α → α → Option α
  | .absent, d => some d
  | .value a, _ => some a
  | .blank, _ => none

def value? : Given α → Option α
  | .value a => some a
  | _ => none

/-- A separator is no value, and a text that cannot be read is a fault. -/
def read? (read : Text → Option α) (t : Text) : Option (Given α) :=
  if t = ['-', '-'] then some .blank else (read t).map .value

end Given

/-- The settings that the arguments make. -/
structure Settings where
  paths : List String := []
  maxSize : Given Int := .absent
  minSize : Given Int := .absent
  noContext : Bool := false
  noEmbedded : Bool := false
  timeout : Given Float := .absent
  languages : Bool := false
  database : Given String := .absent

namespace Settings

open Argument (Exit)

def turnOn (s : Settings) : Flag → Except Exit Settings
  | .help => .error .help
  | .noContext => .ok { s with noContext := true }
  | .noEmbedded => .ok { s with noEmbedded := true }
  | .languages => .ok { s with languages := true }
  | _ => .ok s

/-- The settings with a value for a flag, if that can be read and the flag takes one. -/
def setValue? (s : Settings) (f : Flag) (v : Text) : Option Settings :=
  match f with
  | .maxSize => (Given.read? Numeral.int? v).map fun n => { s with maxSize := n }
  | .minSize => (Given.read? Numeral.int? v).map fun n => { s with minSize := n }
  | .timeout => (Given.read? Numeral.float? v).map fun x => { s with timeout := x }
  | .database => (Given.read? (some ∘ String.ofList) v).map fun t => { s with database := t }
  | _ => none

/-- The run of plain arguments that the paths are taken from: only the first run counts. -/
inductive PathRun where
  | before
  | inside
  | after
deriving DecidableEq

/-- Settings in the making; `extra` tells of arguments that nothing takes. -/
structure Draft where
  settings : Settings := {}
  run : PathRun := .before
  extra : Bool := false

namespace Draft

def takePath (d : Draft) (t : Text) : Draft :=
  if d.run = .after then { d with extra := true }
  else { d with
    settings.paths := d.settings.paths ++ [String.ofList t]
    run := .inside }

def takeSeparator (d : Draft) : Draft :=
  if d.run = .after then { d with extra := true } else { d with run := .inside }

/-- A flag ends the run of paths. -/
def endRun (d : Draft) : Draft := if d.run = .inside then { d with run := .after } else d

def turnOn (d : Draft) (f : Flag) : Except Exit Draft := do
  return { d with settings := ← d.settings.turnOn f }

def setValue (d : Draft) (f : Flag) (v : Text) : Except Exit Draft :=
  match d.settings.setValue? f v with
  | some s => .ok { d with settings := s }
  | none => .error .usage

/-- All letters are flags, or none of them counts. -/
def takeLetters (d : Draft) (t : Text) : Except Exit Draft :=
  match t.mapM Flag.ofLetter? with
  | some fs => fs.foldlM turnOn d
  | none => .error .usage

/-- Takes the arguments in turn. A flag with a value finds it after its equals sign or in the next
argument, which must be plain. -/
def take (d : Draft) : List Argument → Except Exit Draft
  | [] => .ok d
  | .plain t :: as => take (d.takePath t) as
  | .separator :: as => take d.takeSeparator as
  | .unknown :: as => take { d.endRun with extra := true } as
  | .letters t :: as => do take (← d.endRun.takeLetters t) as
  | .flag f (some v) :: as => do take (← d.endRun.setValue f v) as
  | .flag f none :: as =>
    if f.takesValue then
      match as with
      | .plain v :: as => do take (← d.endRun.setValue f v) as
      | _ => .error .usage
    else do take (← d.endRun.turnOn f) as

end Draft

/-- Reads the arguments; what nothing takes is a fault only at the end. -/
def ofArguments (args : List String) : Except Exit Settings := do
  let as ← Argument.ofTexts (args.map String.toList)
  let d ← Draft.take {} as
  if d.extra then .error .usage else return d.settings

end Settings

end CodeChunks
