import CodeChunks.Proofs.Assoc
import CodeChunks.Proofs.Store.Upkeep
import CodeChunks.Store.Schema

/-! # Histories of a store

Calls act on a store one after another. Beside the store runs the record of what is held: the paths
with the chunks last stored for them and not removed since. -/
namespace CodeChunks

/-- A call that changes a store. -/
inductive Call where
  | persist (path : String) (content : Text) (language : Option String) (chunks : List Chunk)
      (mtime : Int)
  | delete (paths : List String)

/-- The chunks last stored for each path. -/
abbrev Record := List (String × List Chunk)

namespace Record

def chunks (m : Record) : List Chunk := m.flatMap (·.2)

/-- The chunks of a path; a path that is absent has none. -/
def lookup (m : Record) (path : String) : List Chunk := (Assoc.find? path m).getD []

def without (m : Record) (paths : List String) : Record := m.filter fun e => !paths.contains e.1

end Record

/-- The rows of a store that was made and migrated just now. -/
def Lexicon.fresh : Lexicon := (({} : Database).migrate Database.migrations).2.rows

theorem Lexicon.fresh_eq : fresh = {} := by
  rfl

/-- A store and its record. -/
structure History where
  kept : Record := []
  rows : Lexicon := .fresh

namespace History

/-- Only a call that is answered changes the record. -/
def step (h : History) : Call → History
  | .persist path content language cs mtime =>
    match h.rows.persist path content language cs mtime with
    | (.ok _, x) => ⟨Assoc.insert path cs h.kept, x⟩
    | (.error _, x) => ⟨h.kept, x⟩
  | .delete paths => ⟨h.kept.without paths, h.rows.delete paths⟩

def run (calls : List Call) : History := calls.foldl step {}

end History

namespace Holdings

/-- The record of a store that holds these chunks. -/
def record (s : Holdings) : Record := s.files.map fun f => (f.path, s.heldBy f.id)

variable {s : Holdings}

theorem keys_record (s : Holdings) : Assoc.keys s.record = s.files.map (·.path) := by
  rw [Assoc.keys, record, List.map_map]
  rfl

theorem record_persist (hs : s.Sound) (r : FileRow) (cs : List Chunk) :
    (s.persist r cs).2.record = Assoc.insert r.path cs s.record := by
  have hfiles : (s.persist r cs).2.files = (s.putFile r).2.files := rfl
  simp only [record, hfiles, heldBy_persist]
  rw [putFile]
  cases hfind : s.files.find? (·.path == r.path) with
  | none =>
    have hnew : r.path ∉ Assoc.keys s.record := by
      rw [keys_record]
      intro hmem
      obtain ⟨f, hf, hpath⟩ := List.mem_map.mp hmem
      exact path_ne_of_find?_eq_none hfind f hf hpath
    have hold : ∀ f ∈ s.files, (f.path, if f.id = s.nextFile then cs else s.heldBy f.id) =
        (f.path, s.heldBy f.id) := by
      intro f hf
      rw [if_neg (Int.ne_of_lt (hs.fileId_lt f hf))]
    rw [← record, Assoc.insert_of_notMem cs hnew, List.map_append, List.map_congr_left hold,
      List.map_singleton, if_pos rfl, record]
  | some old =>
    obtain ⟨hmem, hpath⟩ := mem_and_path_of_find? hfind
    have hkey : r.path ∈ Assoc.keys s.record := by
      rw [keys_record, ← hpath]
      exact List.mem_map_of_mem hmem
    rw [← record, Assoc.insert_eq_map cs (by rw [keys_record]; exact hs.paths_nodup) hkey, record,
      List.map_map, List.map_map]
    apply List.map_congr_left
    intro f hf
    by_cases hf' : f.path = r.path
    · simp [hf']
    · have hid : f.id ≠ old.id := by
        intro hid
        have := List.inj_on_of_nodup_map hs.fileIds_nodup hf hmem hid
        exact hf' (this ▸ hpath)
      simp [hf', hid]

theorem record_delete (hs : s.Sound) (paths : List String) :
    (s.delete paths).record = s.record.without paths := by
  have hgone : ∀ f ∈ s.files,
      ((s.files.filter fun f => paths.contains f.path).map (·.id)).contains f.id =
        paths.contains f.path := by
    intro f hf
    rw [Bool.eq_iff_iff, List.contains_iff_mem]
    constructor
    · intro hmem
      obtain ⟨g, hg, hid⟩ := List.mem_map.mp hmem
      obtain ⟨hg, hpath⟩ := List.mem_filter.mp hg
      rwa [List.inj_on_of_nodup_map hs.fileIds_nodup hg hf hid] at hpath
    · intro hpath
      exact List.mem_map_of_mem (List.mem_filter.mpr ⟨hf, hpath⟩)
  have hfiles : (s.delete paths).files = s.files.filter fun f => !paths.contains f.path :=
    List.filter_congr fun f hf => by rw [hgone f hf]
  rw [record, hfiles, record, Record.without, List.filter_map]
  apply List.map_congr_left
  intro f hf
  obtain ⟨hf, hkept⟩ := List.mem_filter.mp hf
  have hdrop := s.heldBy_drop ((s.files.filter fun f => paths.contains f.path).map (·.id)) f.id
  have hstays : f.id ∉ (s.files.filter fun f => paths.contains f.path).map (·.id) := by
    rw [← List.contains_iff_mem, hgone f hf]
    simpa using hkept
  rw [if_neg hstays] at hdrop
  exact Prod.ext rfl hdrop

end Holdings

namespace History

/-- The tables and the record follow from the same chunks. -/
def Holds (h : History) (s : Holdings) : Prop :=
  s.Sound ∧ h.rows = s.lexicon ∧ h.kept = s.record

theorem holds_start : Holds {} {} := by
  refine ⟨Holdings.sound_empty, ?_, rfl⟩
  simp [Lexicon.fresh_eq, Holdings.lexicon]

theorem Holds.step {h : History} {s : Holdings} (hs : h.Holds s) (c : Call) :
    ∃ t, (h.step c).Holds t := by
  obtain ⟨hsound, hrows, hkept⟩ := hs
  cases c with
  | persist path content language cs mtime =>
    rw [History.step, hrows, Holdings.persist_lexicon hsound]
    cases Lexicon.refusal? cs mtime with
    | some e => exact ⟨s, hsound, rfl, hkept⟩
    | none =>
      refine ⟨_, hsound.persist rfl, rfl, ?_⟩
      rw [hkept, Holdings.record_persist hsound]
      rfl
  | delete paths =>
    refine ⟨s.delete paths, hsound.delete paths, ?_, ?_⟩
    · rw [History.step, hrows, Holdings.delete_lexicon hsound]
    · rw [History.step, hkept, Holdings.record_delete hsound]

theorem exists_holds (calls : List Call) : ∃ s, (run calls).Holds s := by
  have hfold : ∀ (h : History) (s : Holdings), h.Holds s → ∃ t, (calls.foldl step h).Holds t := by
    induction calls with
    | nil => exact fun h s hs => ⟨s, hs⟩
    | cons c calls ih =>
      intro h s hs
      obtain ⟨t, ht⟩ := hs.step c
      exact ih _ t ht
  exact hfold {} {} holds_start

end History

end CodeChunks
