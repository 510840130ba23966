import CodeChunks.Files.Binary
import CodeChunks.Proofs.Indexing.Stored
import CodeChunks.Proofs.Parser.Outlines

/-! # Every path is accounted for once

Paths are told apart into texts and binary files, and each text becomes one entry or one failure,
the one that it becomes alone. -/
namespace CodeChunks

namespace Folder

theorem enter_ne_zeroByte (d : Folder) (p : Path) (cs : List String) (c : String) (q : Path) :
    d.enter p cs c ≠ .error (.zeroByte q) := by
  rw [enter]
  split
  · simp
  · split
    · simp
    · split <;> simp

theorem walk_ne_zeroByte (d : Folder) (p : Path) (place : Place) (cs : List String) (q : Path) :
    d.walk p place cs ≠ .error (.zeroByte q) := by
  fun_induction walk d p place cs with
  | case1 place => simp
  | case2 => simp
  | case3 => assumption
  | case4 => assumption
  | case5 ks c cs _ _ ih =>
    intro h
    cases henter : d.enter p ks c with
    | error e =>
      rw [henter] at h
      exact d.enter_ne_zeroByte p ks c q (henter.trans (by rw [Except.error.inj h]))
    | ok place =>
      rw [henter] at h
      exact ih place h
  | case6 => assumption
  | case7 => simp

/-- Only a path with a zero byte in it is refused for that. -/
theorem read_ne_zeroByte (d : Folder) {p : Path} (h : '\x00' ∉ p.toList) (q : Path) :
    d.read p ≠ .error (.zeroByte q) := by
  rw [read, if_neg (by simpa using h)]
  split
  · simp
  · cases hplace : d.placeOf p (Path.parts p) with
    | error e =>
      intro he
      have : e = .zeroByte q := Except.error.inj he
      exact d.walk_ne_zeroByte _ _ _ q (this ▸ hplace)
    | ok place =>
      cases place <;> simp [bind, Except.bind]

end Folder

namespace Detector

/-- Whether a path counts as binary. -/
def finds (d : Detector) (files : Files) (p : Path) : Bool :=
  (d.isBinary files p).toOption.getD false

theorem partition_eq {d : Detector} {files : Files} {paths : List Path}
    (h : ∀ p ∈ paths, ∃ binary, d.isBinary files p = .ok binary) :
    d.partition files paths =
      .ok (paths.filter fun p => !d.finds files p, paths.filter (d.finds files)) := by
  induction paths with
  | nil => rfl
  | cons p ps ih =>
    obtain ⟨⟨binary, hp⟩, hps⟩ := List.forall_mem_cons.mp h
    have hfinds : d.finds files p = binary := by rw [finds, hp]; rfl
    rw [partition, hp, ih hps, List.filter_cons, List.filter_cons, hfinds]
    cases binary <;> rfl

theorem exists_isBinary {files : Files} {p : Path} (h : ∀ q, files p ≠ .error (.zeroByte q)) :
    ∃ binary, Detector.isBinary {} files p = .ok binary := by
  have hunder : Path.under "" p = p := by simp [Path.under]
  rw [isBinary, hunder]
  split
  · exact ⟨true, rfl⟩
  · cases hp : files p with
    | ok bs => exact ⟨_, rfl⟩
    | error e =>
      cases e with
      | zeroByte q => exact absurd hp (h q)
      | _ => exact ⟨false, rfl⟩

end Detector

namespace Workshop

variable {w : Workshop}

/-- A file that is dealt with alone is the only entry or failure. -/
theorem process_alone {σ : Type} {sink : Option (Sink σ)} {x : Session × σ} {p : Path}
    {r : Except IndexFailure IndexEntry} (h : ((w.processFile sink p).run.run x).1 = .ok r) :
    ∃ y, (w.process sink [p]).run.run x = (.ok (entriesOf [r], failuresOf [r]), y) := by
  rcases hfile : (w.processFile sink p).run.run x with ⟨r', y⟩
  rw [hfile] at h
  obtain rfl : r' = .ok r := h
  exact ⟨y, (Turns.cons hfile (.nil y)).process_run⟩

/-- The paths that do not count as binary. -/
def texts (w : Workshop) (paths : List Path) : List Path :=
  paths.filter fun p => !Detector.finds {} w.files p

def binaries (w : Workshop) (paths : List Path) : List Path :=
  paths.filter (Detector.finds {} w.files)

/-- What becomes of paths: they are told apart into binary files and texts, each text has one
outcome, the one that it has alone, and a store answers for a path with the chunks of its last
entry. -/
structure Accounts (w : Workshop) (store : Option Store) (mtime : Int) (limited : Bool)
    (x z : Session × Databases) (paths : List Path)
    (rs : List (Except IndexFailure IndexEntry)) : Prop where
  partition : Detector.partition {} w.files paths = .ok (w.texts paths, w.binaries paths)
  run : (w.process (store.map (Sink.ofStore · mtime)) (w.texts paths)).run.run x =
    (.ok (entriesOf rs, failuresOf rs), z)
  outcomes : List.Forall₂ (w.Outcome (store.map (Sink.ofStore · mtime)) limited x)
    (w.texts paths) rs
  alone : List.Forall₂ (fun p r => ∃ y,
    (w.process (store.map (Sink.ofStore · mtime)) [p]).run.run x =
      (.ok (entriesOf [r], failuresOf [r]), y)) (w.texts paths) rs
  last : ∀ k ∈ store, ∀ p e, lastOf? (entriesOf rs) p = some e →
    z.2.chunksAt k p = (e.chunks.mapM Chunk.reread).mapError .row ∧
    ((∀ c ∈ e.chunks, Json.Readable metadataLimits 0 (.obj c.metadata)) →
      ∃ cs, z.2.chunksAt k p = .ok cs ∧
        List.Forall₂ (fun d c => d.Agrees c.typed) cs e.chunks)
  kept : ∀ k ∈ store, ∀ p, lastOf? (entriesOf rs) p = none →
    z.2.chunksAt k p = x.2.chunksAt k p

theorem process_accounts {store : Option Store} (mtime : Int) {paths : List Path} {limited : Bool}
    {x : Session × Databases} (hpaths : ∀ p ∈ paths, ∀ q, w.files p ≠ .error (.zeroByte q))
    (hlimited : w.limited = .ok limited) (hsize : w.options.maxSize < 2 ^ 1023)
    (hanswers : limited = false → w.toolbox.Answers x.1) (hheld : ∀ k ∈ store, k.Held x.2) :
    ∃ z rs, w.Accounts store mtime limited x z paths rs := by
  have hsteady : ∀ s ∈ store.map (Sink.ofStore · mtime), s.Steady := by
    intro s hs
    obtain ⟨k, -, rfl⟩ := Option.map_eq_some_iff.mp hs
    exact Sink.steady_ofStore k mtime
  have houtcome : ∀ p ∈ w.texts paths, ∃ r,
      ((w.processFile (store.map (Sink.ofStore · mtime)) p).run.run x).1 = .ok r ∧
      w.Outcome (store.map (Sink.ofStore · mtime)) limited x p r :=
    fun p hp => exists_outcome hlimited hsize hanswers (hpaths p (List.mem_of_mem_filter hp))
  obtain ⟨rs, z, hturns, hall⟩ := exists_turns hsteady fun p hp =>
    (houtcome p hp).imp fun _ => And.left
  refine ⟨z, rs, ?_⟩
  constructor
  case partition =>
    exact Detector.partition_eq fun p hp => Detector.exists_isBinary (hpaths p hp)
  case run => exact hturns.process_run
  case outcomes =>
    -- a file has one outcome at most
    rw [List.forall₂_iff_get] at hall ⊢
    refine ⟨hall.1, fun i hi hi' => ?_⟩
    obtain ⟨r, hr, houtcome⟩ := houtcome _ (List.get_mem _ ⟨i, hi⟩)
    rwa [Except.ok.inj (hr.symm.trans (hall.2 i hi hi'))] at houtcome
  case alone => exact hall.imp fun _ _ => process_alone
  case last =>
    rintro k rfl p e he
    have hlast := hturns.chunksAt (hheld k rfl) p
    rw [he] at hlast
    dsimp only at hlast
    refine ⟨hlast, fun hreadable => ?_⟩
    obtain ⟨cs, hcs, hagree⟩ := Holdings.exists_mapM_reread fun c hc =>
      Chunk.exists_reread (hreadable c hc)
    refine ⟨cs, ?_, hagree⟩
    rw [hlast, hcs]
    rfl
  case kept =>
    rintro k rfl p hnone
    have hkept := hturns.chunksAt (hheld k rfl) p
    rwa [hnone] at hkept

/-- A store in a database of its own, without any files. -/
def emptyStore : Store := ⟨.memory 0, true, .create⟩

def emptyDatabases : Databases := (({} : Databases).create {} { engine := .factory }).2

theorem rows_emptyDatabases : emptyDatabases.rows emptyStore = .ok (History.run []).rows := by
  rfl

theorem held_emptyStore : emptyStore.Held emptyDatabases :=
  fun _ hx => ⟨[], Except.ok.inj (hx.symm.trans rows_emptyDatabases)⟩

/-- A limited time for a file whose parser never answers. -/
def hanging : Workshop where
  toolbox := {
    languages := { table := [("x", { name := "x", grammar := "x" })] }
    discover _ := .hangs }
  options := {}
  files := (({} : Folder).addFile "x" [97, 98]).read
  limited := .ok true

theorem chunked_hanging {cs : List Chunk} {late : Bool}
    (h : hanging.Chunked {} true "x" "ab".toList cs late) :
    cs = fallbackChunks "ab".toList 1000 ∧ late = true := by
  have hruns : ((hanging.toolbox.chunk "ab".toList "x" hanging.options).run.run {}).1 =
      .error .hangs := by cbv
  cases h with
  | inTime hrun =>
    rw [hrun] at hruns
    cases hruns
  | late => exact ⟨rfl, rfl⟩

theorem refusal?_fallbackChunks :
    Lexicon.refusal? (fallbackChunks "ab".toList 1000) 0 = none := by
  have hchunks : fallbackChunks "ab".toList 1000 =
      [⟨"ab".toList, "text", 1, 1, [("fallback", .bool true), ("index", .int 0)]⟩] := by cbv
  have hreadable : Json.Readable writingLimits 0
      (.obj [("fallback", .bool true), ("index", .int 0)]) := by
    apply Json.Readable.obj 0 _ (by decide) (by decide)
    rw [List.forall_mem_cons, List.forall_mem_singleton]
    refine ⟨.bool 1 true, .int 1 0 fun _ => ?_⟩
    generalize Numeral.maxDigits = n
    exact Nat.pow_pos (by decide)
  rw [hchunks, Lexicon.refusal?_eq_none_iff, List.forall_mem_singleton, Lexicon.fault?,
    hreadable.writingFault?_eq_none]
  exact ⟨by decide, rfl⟩

theorem outcome_hanging {r : Except IndexFailure IndexEntry}
    (h : hanging.Outcome (some (Sink.ofStore emptyStore 0)) true ({}, emptyDatabases) "x" r) :
    r = .ok ⟨"x", some "x", true, fallbackChunks "ab".toList 1000⟩ := by
  have htext : hanging.files.text "x" = .ok "ab".toList := by cbv
  have hlanguage : hanging.toolbox.languages.detect "x" = some "x" := by cbv
  have htaken := refusal?_fallbackChunks
  cases h with
  | unread h =>
    rw [htext] at h
    cases h
  | refused h hchunked hsink hput =>
    obtain rfl := Except.ok.inj (htext.symm.trans h)
    obtain ⟨rfl, rfl⟩ := chunked_hanging hchunked
    obtain rfl := Option.some.inj hsink
    rw [Sink.put_of_rows _ _ _ _ rows_emptyDatabases, htaken] at hput
    cases hput
  | entry h hchunked hput =>
    obtain rfl := Except.ok.inj (htext.symm.trans h)
    obtain ⟨rfl, rfl⟩ := chunked_hanging hchunked
    rw [hlanguage]

theorem outcome_missing {r : Except IndexFailure IndexEntry}
    (h : hanging.Outcome (some (Sink.ofStore emptyStore 0)) true ({}, emptyDatabases) "y" r) :
    r = .error ⟨"y", FileFault.message (.missing "y")⟩ := by
  have htext : hanging.files.text "y" = .error (.missing "y") := by cbv
  cases h with
  | unread h =>
    rw [htext] at h
    rw [Except.error.inj h]
  | refused h =>
    rw [htext] at h
    cases h
  | entry h =>
    rw [htext] at h
    cases h

/-- The time runs out twice; in between one file is binary and one is missing. -/
theorem process_accounts_hanging :
    let late : IndexEntry := ⟨"x", some "x", true, fallbackChunks "ab".toList 1000⟩
    ∃ z, hanging.Accounts (some emptyStore) 0 true ({}, emptyDatabases) z ["x", "i.png", "y", "x"]
      [.ok late, .error ⟨"y", FileFault.message (.missing "y")⟩, .ok late] := by
  intro late
  have hpaths : ∀ p ∈ ["x", "i.png", "y", "x"], '\x00' ∉ p.toList := by decide
  have htexts : hanging.texts ["x", "i.png", "y", "x"] = ["x", "y", "x"] := by
    decide +kernel
  have hheld : ∀ k ∈ some emptyStore, k.Held emptyDatabases := by
    intro k hk
    obtain rfl := Option.some.inj hk
    exact held_emptyStore
  obtain ⟨z, rs, h⟩ := process_accounts (w := hanging) (x := ({}, emptyDatabases)) 0
    (fun p hp => Folder.read_ne_zeroByte _ (hpaths p hp)) rfl (by decide +kernel)
    Bool.noConfusion hheld
  have houtcomes := h.outcomes
  rw [htexts] at houtcomes
  obtain _ | ⟨hx, _ | ⟨hy, _ | ⟨hx', _ | _⟩⟩⟩ := houtcomes
  obtain rfl := outcome_hanging hx
  obtain rfl := outcome_missing hy
  obtain rfl := outcome_hanging hx'
  exact ⟨z, h⟩

/-- A file whose only chunk has the empty type. -/
def untyped : Workshop where
  toolbox := .ofOutlines [({ name := "x", grammar := "x", boundaries := [""] },
    [⟨"root", some (0, 2), none, []⟩, ⟨"", some (0, 2), some 0, []⟩])]
  options := {}
  files := (({} : Folder).addFile "x" [97, 98]).read
  limited := .ok false

/-- A store answers with a type where the entry has none. -/
theorem process_untyped : ∃ e z,
    (untyped.process (some (Sink.ofStore emptyStore 0)) ["x"]).run.run ({}, emptyDatabases) =
      (.ok ([e], []), z) ∧
    e.chunks = [⟨"ab".toList, "", 1, 1, []⟩] ∧
    z.2.chunksAt emptyStore e.path = .ok [⟨"ab".toList, "unknown", 1, 1, []⟩] := by
  have htext : untyped.files.text "x" = .ok "ab".toList := by cbv
  have hchunk : (untyped.chunk "x" "ab".toList false {}).1 =
      .ok ([⟨"ab".toList, "", 1, 1, []⟩], false) := by cbv
  have htaken : Lexicon.refusal? [⟨"ab".toList, "", 1, 1, []⟩] 0 = none := by cbv
  have hread : ([⟨"ab".toList, "", 1, 1, []⟩] : List Chunk).mapM Chunk.reread =
      .ok [⟨"ab".toList, "unknown", 1, 1, []⟩] := by cbv
  have hfile : (untyped.processFile (some (Sink.ofStore emptyStore 0)) "x").run.run
      ({}, emptyDatabases) = _ := processFile_of_chunk htext rfl hchunk
  rw [putStep_run, Sink.put_of_rows _ _ _ _ rows_emptyDatabases, htaken] at hfile
  have hturns := Turns.cons hfile (.nil _)
  have hchunks := hturns.chunksAt held_emptyStore "x"
  refine ⟨_, _, hturns.process_run, rfl, hchunks.trans ?_⟩
  exact congrArg (Except.mapError Store.Fault.row) hread

end Workshop

end CodeChunks
