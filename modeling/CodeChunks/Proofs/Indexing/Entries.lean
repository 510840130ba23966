import CodeChunks.Indexing.Process
import CodeChunks.Proofs.Chunk.Answers
import CodeChunks.Proofs.Chunk.Isolation

/-! # One outcome for each file

Files share a session of parsers and a sink, but the outcome of a file is the one that it has alone:
parsers are decided on alike, and a sink that is steady takes or refuses whatever came before. -/
namespace CodeChunks

open Steps

variable {σ : Type}

namespace Sink

/-- States in which the sink gives the same answers. -/
def alike (k : Sink σ) : Setoid σ where
  r x y := ∀ path content language cs,
    (k.put path content language cs x).1 = (k.put path content language cs y).1
  iseqv := ⟨fun _ _ _ _ _ => rfl,
    fun h path content language cs => (h path content language cs).symm,
    fun h h' path content language cs =>
      (h path content language cs).trans (h' path content language cs)⟩

/-- What the sink answers does not depend on what it was given before. -/
def Steady (k : Sink σ) : Prop :=
  ∀ path content language cs x, k.alike.r x (k.put path content language cs x).2

end Sink

/-- The files that were chunked, among all outcomes. -/
def entriesOf (rs : List (Except IndexFailure IndexEntry)) : List IndexEntry :=
  rs.filterMap Except.toOption

/-- The files that failed, among all outcomes. -/
def failuresOf (rs : List (Except IndexFailure IndexEntry)) : List IndexFailure :=
  rs.filterMap fun
    | .ok _ => none
    | .error f => some f

namespace Workshop

variable (w : Workshop)

/-- How the chunks of a file come about: chunking returns them, or it never answers and the text is
cut by size once its time has run out. -/
inductive Chunked (s : Session) (limited : Bool) (path : Path) (code : Text) :
    List Chunk → Bool → Prop
  | inTime {cs : List Chunk} {s' : Session}
      (h : (w.toolbox.chunk code path w.options).run.run s = (.ok cs, s')) :
      Chunked s limited path code cs false
  | late {s' : Session}
      (h : (w.toolbox.chunk code path w.options).run.run s = (.error .hangs, s'))
      (hlimited : limited) (hangs : ¬ w.toolbox.Answers s) :
      Chunked s limited path code
        (if code.allBlank then [] else fallbackChunks code w.options.maxSize) true

variable {w} {limited : Bool} {s : Session}

/-- What is made of the end of a run within a limit. -/
def told (w : Workshop) (code : Text) (limited : Bool) :
    Except Stop (List Chunk) → Except IndexFault (List Chunk × Bool)
  | .ok cs => .ok (cs, false)
  | .error .hangs => if limited then w.lateChunks code else .error .hangs
  | .error .tooLarge => .error .tooLarge

theorem chunk_eq (path : Path) (code : Text) (limited : Bool) (s : Session) :
    w.chunk path code limited s =
      (w.told code limited ((w.toolbox.chunk code path w.options).run.run s).1,
        ((w.toolbox.chunk code path w.options).run.run s).2) := by
  have hrun : (w.toolbox.chunk code path w.options).run s =
      (w.toolbox.chunk code path w.options).run.run s := rfl
  rw [chunk, hrun]
  rcases (w.toolbox.chunk code path w.options).run.run s with ⟨⟨_ | _⟩ | _, _⟩ <;> rfl

/-- Every file is chunked, in one way or the other. -/
theorem exists_chunk (hsize : w.options.maxSize < 2 ^ 1023)
    (hanswers : limited = false → w.toolbox.Answers s) (path : Path) (code : Text) :
    ∃ cs late, (w.chunk path code limited s).1 = .ok (cs, late) ∧
      w.Chunked s limited path code cs late := by
  have hhalf := Budget.hasHalf_of_lt hsize
  have hends := w.toolbox.chunk_ends s code path w.options
  rw [Run.Ends] at hends
  rw [chunk_eq]
  rcases hrun : (w.toolbox.chunk code path w.options).run.run s with ⟨e | cs, s'⟩
  · rw [hrun] at hends
    rcases hends with ⟨rfl, hangs⟩ | ⟨-, hlarge⟩
    · have hlimited : limited := by
        by_contra h
        exact hangs (hanswers (Bool.eq_false_iff.mpr h))
      -- a blank code has no chunks without any parser being asked
      have hcode : ¬ code.allBlank := by
        intro hblank
        rw [Toolbox.chunk, Toolbox.chunkWith, if_pos hblank] at hrun
        cases hrun
      have hlate : w.lateChunks code = .ok (fallbackChunks code w.options.maxSize, true) := by
        simp [lateChunks, fallbackChunks?, Budget.guard, hhalf]
      refine ⟨_, true, ?_, .late hrun hlimited hangs⟩
      rw [if_neg hcode]
      exact (if_pos hlimited).trans hlate
    · exact absurd hhalf hlarge
  · exact ⟨cs, false, rfl, .inTime hrun⟩

section

variable (sink : Option (Sink σ))

/-- States that agree on all parsers, and on what the sink answers. -/
def alike (w : Workshop) (sink : Option (Sink σ)) : Setoid (Session × σ) where
  r x y := w.toolbox.alike.r x.1 y.1 ∧ ∀ k ∈ sink, k.alike.r x.2 y.2
  iseqv := ⟨fun x => ⟨w.toolbox.alike.refl x.1, fun k _ => k.alike.refl x.2⟩,
    fun h => ⟨w.toolbox.alike.symm h.1, fun k hk => k.alike.symm (h.2 k hk)⟩,
    fun h h' => ⟨w.toolbox.alike.trans h.1 h'.1, fun k hk => k.alike.trans (h.2 k hk) (h'.2 k hk)⟩⟩

theorem chunkStep_run (path : Path) (code : Text) (x : Session × σ) :
    (w.chunkStep path code).run.run x = match w.limited with
      | .error e => (.error e, x)
      | .ok limited =>
        ((w.chunk path code limited x.1).1, ((w.chunk path code limited x.1).2, x.2)) := by
  rw [chunkStep, run_bind, run_ofExcept]
  cases w.limited with
  | error e => rfl
  | ok limited =>
    dsimp only
    rw [run_bind, run_get]
    dsimp only
    rw [run_bind, run_set]
    exact run_ofExcept _ _

theorem putStep_run (k : Sink σ) (code : Text) (e : IndexEntry) (x : Session × σ) :
    (putStep (some k) code e).run.run x =
      (.ok (match (k.put e.path code e.language e.chunks x.2).1 with
        | .ok _ => .ok e
        | .error t => .error ⟨e.path, t⟩),
        (x.1, (k.put e.path code e.language e.chunks x.2).2)) := by
  rw [putStep, run_bind, run_get]
  dsimp only
  rw [run_bind, run_set]
  dsimp only
  cases (k.put e.path code e.language e.chunks x.2).1 <;> rfl

theorem isolated_chunkStep (path : Path) (code : Text) :
    Isolated (w.alike sink) (w.chunkStep path code) := by
  constructor
  · intro x
    rw [chunkStep_run]
    split
    · exact (w.alike sink).refl x
    · rw [chunk_eq]
      exact ⟨(w.toolbox.isolated_chunk code path w.options).leaves x.1, fun k _ => k.alike.refl x.2⟩
  · intro x y hxy
    rw [chunkStep_run, chunkStep_run]
    split
    · rfl
    · rw [chunk_eq, chunk_eq, (w.toolbox.isolated_chunk code path w.options).reads x.1 y.1 hxy.1]

variable {sink} (hsink : ∀ k ∈ sink, k.Steady)

include hsink

theorem isolated_putStep (code : Text) (e : IndexEntry) :
    Isolated (w.alike sink) (putStep sink code e) := by
  cases sink with
  | none => exact isolated_pure _ _
  | some k =>
    constructor
    · intro x
      rw [putStep_run]
      refine ⟨w.toolbox.alike.refl x.1, fun k' hk' => ?_⟩
      obtain rfl := Option.some.inj hk'
      exact hsink k rfl e.path code e.language e.chunks x.2
    · intro x y hxy
      rw [putStep_run, putStep_run, hxy.2 k rfl]

theorem isolated_processFile (p : Path) : Isolated (w.alike sink) (w.processFile sink p) := by
  rw [processFile]
  match w.files.text p with
  | .error (.zeroByte _) => exact isolated_throw _ _
  | .error (.missing _) => exact isolated_pure _ _
  | .error (.notFolder _) => exact isolated_pure _ _
  | .error (.folder _) => exact isolated_pure _ _
  | .error (.nameTooLong _) => exact isolated_pure _ _
  | .error (.denied _) => exact isolated_pure _ _
  | .ok code =>
    exact (isolated_chunkStep sink p code).bind fun r => isolated_putStep hsink code _

end

/-- What becomes of a file: it cannot be read, the sink refuses its chunks, or it is an entry. The
state is the one before all files. -/
inductive Outcome (w : Workshop) (sink : Option (Sink σ)) (limited : Bool) (x : Session × σ)
    (p : Path) : Except IndexFailure IndexEntry → Prop
  | unread {e : FileFault} (h : w.files.text p = .error e) :
      Outcome w sink limited x p (.error ⟨p, e.message⟩)
  | refused {code : Text} {cs : List Chunk} {late : Bool} {k : Sink σ} {t : String}
      (h : w.files.text p = .ok code) (hchunked : w.Chunked x.1 limited p code cs late)
      (hsink : sink = some k)
      (hput : (k.put p code (w.toolbox.languages.detect p) cs x.2).1 = .error t) :
      Outcome w sink limited x p (.error ⟨p, t⟩)
  | entry {code : Text} {cs : List Chunk} {late : Bool} (h : w.files.text p = .ok code)
      (hchunked : w.Chunked x.1 limited p code cs late)
      (hput : ∀ k ∈ sink, (k.put p code (w.toolbox.languages.detect p) cs x.2).1 = .ok ()) :
      Outcome w sink limited x p (.ok ⟨p, w.toolbox.languages.detect p, late, cs⟩)

theorem processFile_of_chunk {sink : Option (Sink σ)} {x : Session × σ} {p : Path} {code : Text}
    {cs : List Chunk} {late : Bool} (h : w.files.text p = .ok code)
    (hlimited : w.limited = .ok limited)
    (hchunk : (w.chunk p code limited x.1).1 = .ok (cs, late)) :
    (w.processFile sink p).run.run x =
      (putStep sink code ⟨p, w.toolbox.languages.detect p, late, cs⟩).run.run
        ((w.chunk p code limited x.1).2, x.2) := by
  simp only [processFile, h, run_bind, chunkStep_run, hlimited, hchunk]

theorem exists_outcome {sink : Option (Sink σ)} (hlimited : w.limited = .ok limited)
    (hsize : w.options.maxSize < 2 ^ 1023) {x : Session × σ}
    (hanswers : limited = false → w.toolbox.Answers x.1) {p : Path}
    (hp : ∀ q, w.files p ≠ .error (.zeroByte q)) :
    ∃ r, ((w.processFile sink p).run.run x).1 = .ok r ∧ w.Outcome sink limited x p r := by
  have htext : ∀ q, w.files.text p ≠ .error (.zeroByte q) := by
    intro q hq
    rw [Files.text] at hq
    cases h : w.files p with
    | error e =>
      rw [h] at hq
      exact hp q (h.trans (by rw [Except.error.inj hq]))
    | ok bs =>
      rw [h] at hq
      cases hq
  cases h : w.files.text p with
  | error e =>
    refine ⟨_, ?_, .unread h⟩
    rw [processFile, h]
    cases e with
    | zeroByte q => exact absurd h (htext q)
    | _ => rfl
  | ok code =>
    obtain ⟨cs, late, hchunk, hchunked⟩ := exists_chunk hsize hanswers p code
    rw [processFile_of_chunk h hlimited hchunk]
    cases sink with
    | none => exact ⟨_, rfl, .entry h hchunked fun _ hk => absurd hk (Option.not_mem_none _)⟩
    | some k =>
      rw [putStep_run]
      cases hput : (k.put p code (w.toolbox.languages.detect p) cs x.2).1 with
      | error t => exact ⟨_, rfl, .refused h hchunked rfl hput⟩
      | ok u =>
        refine ⟨_, rfl, .entry h hchunked fun k' hk' => ?_⟩
        obtain rfl := Option.some.inj hk'
        exact hput

/-- The files in turn, each with its outcome. -/
inductive Turns (w : Workshop) (sink : Option (Sink σ)) :
    Session × σ → List Path → List (Except IndexFailure IndexEntry) → Session × σ → Prop
  | nil (x : Session × σ) : Turns w sink x [] [] x
  | cons {x y z : Session × σ} {p : Path} {ps : List Path}
      {r : Except IndexFailure IndexEntry} {rs : List (Except IndexFailure IndexEntry)}
      (hfile : (w.processFile sink p).run.run x = (.ok r, y)) (hrest : Turns w sink y ps rs z) :
      Turns w sink x (p :: ps) (r :: rs) z

variable {sink : Option (Sink σ)} {x z : Session × σ} {ps : List Path}
  {rs : List (Except IndexFailure IndexEntry)}

theorem Turns.process_run (h : w.Turns sink x ps rs z) :
    (w.process sink ps).run.run x = (.ok (entriesOf rs, failuresOf rs), z) := by
  induction h with
  | nil x => rfl
  | @cons x y z p ps r rs hfile _ ih =>
    rw [process, run_bind, hfile]
    dsimp only
    rw [run_bind, ih]
    cases r <;> rfl

/-- Every file has the outcome that it has where the others have not been dealt with. -/
theorem exists_turns (hsink : ∀ k ∈ sink, k.Steady)
    (hfiles : ∀ p ∈ ps, ∃ r, ((w.processFile sink p).run.run x).1 = .ok r) :
    ∃ rs z, w.Turns sink x ps rs z ∧
      List.Forall₂ (fun p r => ((w.processFile sink p).run.run x).1 = .ok r) ps rs := by
  induction ps generalizing x with
  | nil => exact ⟨[], x, .nil x, .nil⟩
  | cons p ps ih =>
    obtain ⟨hp, hps⟩ := List.forall_mem_cons.mp hfiles
    obtain ⟨r, hr⟩ := hp
    have hisolated := fun q => isolated_processFile (w := w) hsink q
    have hleaves := (hisolated p).leaves x
    rcases hrun : (w.processFile sink p).run.run x with ⟨r', y⟩
    rw [hrun] at hleaves hr
    obtain rfl : r' = .ok r := hr
    have hsame : ∀ q, ((w.processFile sink q).run.run y).1 = ((w.processFile sink q).run.run x).1 :=
      fun q => ((hisolated q).reads x y hleaves).symm
    obtain ⟨rs, z, hturns, hall⟩ := ih (x := y) (by simpa only [hsame] using hps)
    simp only [hsame] at hall
    exact ⟨r :: rs, z, .cons hrun hturns, .cons (congrArg Prod.fst hrun) hall⟩

end Workshop

end CodeChunks
