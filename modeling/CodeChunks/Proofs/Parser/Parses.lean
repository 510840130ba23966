import CodeChunks.Proofs.Parser.Runs

/-! # The parses of a run

A run that returns has added the codes that it had parsed to the log. To look for a parser adds
none, and to parse a code adds that code, if the language has a parser. -/
namespace CodeChunks

namespace Session

variable (s : Session)

@[simp] theorem parsed_logLoad (l : Load) : (s.logLoad l).parsed = s.parsed := rfl

@[simp] theorem parsed_remember (key : String) (h : Option Handle) :
    (s.remember key h).parsed = s.parsed := rfl

@[simp] theorem parsed_logParse (name : String) (code : Text) :
    (s.logParse name code).parsed = s.parsed ++ [(name, code)] := rfl

end Session

namespace Run

variable {α β : Type} {s : Session}

/-- If the run returns, the given codes have been parsed, each under the name of its parser, and no
others. -/
def Parses (m : Run α) (s : Session) (ps : List (String × Text)) : Prop :=
  m.Ends s (fun _ => True) fun _ s' => s'.parsed = s.parsed ++ ps

theorem parses_pure (a : α) : Parses (pure a) s [] := by
  simp [Parses]

theorem parses_throw (e : Stop) (ps : List (String × Text)) :
    Parses (throw e : Run α) s ps := by
  simp [Parses]

end Run

namespace Toolbox

open Run

variable (b : Toolbox) (s : Session)

theorem settle_parses (r : Loaded) : (settle r).Parses s [] := by
  cases r with
  | handle h => exact parses_pure _
  | nothing => exact parses_pure _
  | failed => exact parses_pure _
  | hangs => exact parses_throw _ _

theorem loadRegistered_parses (key : String) : (loadRegistered key).Parses s [] := by
  simp only [loadRegistered, Parses, ends_bind, ends_get]
  cases s.factory? key with
  | none => simp
  | some f =>
    simp only [ends_bind, ends_modify]
    simpa [Parses] using settle_parses (s.logLoad (.factory f.label key)) (f.load key)

theorem loadDiscovered_parses (key : String) : (b.loadDiscovered key).Parses s [] := by
  simp only [loadDiscovered, Parses, ends_bind, ends_modify]
  simpa [Parses] using settle_parses (s.logLoad (.discovery key)) (b.discover key)

theorem resolve_parses (language : String) : (b.resolve language).Parses s [] := by
  rw [resolve]
  generalize nameKey language = key
  dsimp only
  split
  · exact parses_pure _
  simp only [Parses, ends_bind, ends_get]
  cases Assoc.find? key s.cache with
  | some h => simp
  | none =>
    simp only [ends_bind]
    apply Ends.mono (loadRegistered_parses s key)
    intro h s' hs
    cases h with
    | some h => simpa using hs
    | none =>
      simp only [ends_bind, ends_modify, ends_pure]
      apply Ends.mono (b.loadDiscovered_parses s' key)
      intro h s'' hs'
      simpa [hs] using hs'

/-- A code is parsed once, if its language has a parser. -/
theorem parse_parses (code : Text) (language : String) (options : Json.Fields) :
    (b.parse code language options).Parses s
      ((b.handle? s language).map fun h => (h.log, code)).toList := by
  simp only [parse, Parses, ends_bind]
  refine ((b.resolve_ends s language).and (b.resolve_parses s language)).imp (fun _ _ => trivial) ?_
  rintro h s' ⟨⟨hh, -⟩, hs⟩
  rw [List.append_nil] at hs
  rw [← hh]
  cases h with
  | none => simpa using hs
  | some h =>
    simp only [ends_bind, ends_modify]
    cases h.parse code options <;> simp [hs]

end Toolbox

end CodeChunks
