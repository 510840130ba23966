import CodeChunks.Language.Registry
import CodeChunks.Proofs.Assoc
import CodeChunks.Proofs.Steps
import CodeChunks.Proofs.Text.Lowering
import Mathlib.Data.List.Forall2
import Mathlib.Data.Option.Basic

/-! # What the tables of languages hold

The tables are read off the document that they were made of. A name is one of a language when the
document has a description under it, in whatever case; of several the last one counts. An extension
or an alias belongs to the first description that lists it, and an extension that none lists to the
first of the further ones. Looking a path up asks for these in a fixed order. -/
namespace CodeChunks

/-- The descriptions of languages in a document, by their names, and its further extensions. -/
structure Declarations where
  languages : Json.Fields
  extra : Json.Fields

namespace Declarations

def ofJson (doc : Json) : Except Language.Fault Declarations := do
  return ⟨← Languages.objectFields doc "languages", ← Languages.objectFields doc "extra_extensions"⟩

variable (d : Declarations)

/-- The names of the languages, in lower case. -/
def ids : List String := d.languages.map fun f => lowerName f.1

/-- The languages that the further extensions lead to. -/
def targets : List String := d.extra.map fun f => lowerName f.2.name

/-- Whether a description lists a name under a key, in whatever case. -/
def lists (key name : String) (raw : Json) : Bool :=
  match Language.listField raw key with
  | .ok ms => ms.any fun m => lowerName m.name == name
  | .error _ => false

/-- The first language that lists a name under a key. -/
def first? (key name : String) : Option String :=
  (d.languages.find? fun f => lists key name f.2).map fun f => lowerName f.1

/-- What the first further extension of a name leads to. -/
def target? (name : String) : Option String :=
  (d.extra.find? fun f => lowerName f.1 = name).map fun f => lowerName f.2.name

/-- The owner of an extension: a language that declares it comes before any further extension. -/
def owner? (extension : String) : Option String :=
  (d.first? "extensions" extension).or (d.target? extension)

/-- The owner of an alias. -/
def named? (name : String) : Option String := d.first? "aliases" name

/-- The last description under a name. -/
def last? (id : String) : Option Json :=
  (d.languages.findRev? fun f => lowerName f.1 = id).map (·.2)

/-- What the last component of a path leads to. A name without a dot is looked for as a whole among
the extensions; of others what follows the last dot is an extension before it is a language, and a
language before it is an alias. -/
inductive NameLeads : Text → Option String → Prop
  | whole {name : Text} (hdot : '.' ∉ name) : NameLeads name (d.owner? (String.ofList name))
  | extension {stem e : Text} {l : String} (hdot : '.' ∉ e)
      (howner : d.owner? (String.ofList e) = some l) : NameLeads (stem ++ '.' :: e) (some l)
  | id {stem e : Text} (hdot : '.' ∉ e) (howner : d.owner? (String.ofList e) = none)
      (hid : String.ofList e ∈ d.ids) : NameLeads (stem ++ '.' :: e) (some (String.ofList e))
  | named {stem e : Text} (hdot : '.' ∉ e) (howner : d.owner? (String.ofList e) = none)
      (hid : String.ofList e ∉ d.ids) : NameLeads (stem ++ '.' :: e) (d.named? (String.ofList e))

/-- What a path leads to: the whole of it may be a language, else an alias, and only else does its
last component count. -/
inductive Leads (path : String) : Option String → Prop
  | blank (hblank : stripName path = "") : Leads path none
  | id (hblank : stripName path ≠ "") (hid : nameKey path ∈ d.ids) :
      Leads path (some (nameKey path))
  | named {l : String} (hblank : stripName path ≠ "") (hid : nameKey path ∉ d.ids)
      (hnamed : d.named? (nameKey path) = some l) : Leads path (some l)
  | fileName {r : Option String} (hblank : stripName path ≠ "") (hid : nameKey path ∉ d.ids)
      (hnamed : d.named? (nameKey path) = none)
      (hname : d.NameLeads (lowerName (Path.fileName (stripName path))).toList r) : Leads path r

variable {d}

theorem mem_ids_of_first? {key name l : String} (h : d.first? key name = some l) : l ∈ d.ids := by
  obtain ⟨f, hf, rfl⟩ := Option.map_eq_some_iff.mp h
  exact List.mem_map_of_mem (List.mem_of_find?_eq_some hf)

theorem mem_of_owner? {extension l : String} (h : d.owner? extension = some l) :
    l ∈ d.ids ∨ l ∈ d.targets := by
  rw [owner?, Option.or_eq_some_iff] at h
  rcases h with h | ⟨-, h⟩
  · exact .inl (mem_ids_of_first? h)
  · obtain ⟨f, hf, rfl⟩ := Option.map_eq_some_iff.mp h
    exact .inr (List.mem_map_of_mem (List.mem_of_find?_eq_some hf))

theorem NameLeads.mem {name : Text} {r : Option String} (h : d.NameLeads name r) :
    ∀ l ∈ r, l ∈ d.ids ∨ l ∈ d.targets := by
  cases h with
  | whole => exact fun l => mem_of_owner?
  | extension _ howner =>
    intro l hl
    exact Option.some.inj hl ▸ mem_of_owner? howner
  | id _ _ hid =>
    intro l hl
    exact .inl (Option.some.inj hl ▸ hid)
  | named => exact fun l hl => .inl (mem_ids_of_first? hl)

/-- A path leads to a language of the document or to one that a further extension leads to. -/
theorem Leads.mem {path : String} {r : Option String} (h : d.Leads path r) :
    ∀ l ∈ r, l ∈ d.ids ∨ l ∈ d.targets := by
  cases h with
  | blank => simp
  | id _ hid =>
    intro l hl
    exact .inl (Option.some.inj hl ▸ hid)
  | named _ _ hnamed =>
    intro l hl
    exact .inl (Option.some.inj hl ▸ mem_ids_of_first? hnamed)
  | fileName _ _ _ hname => exact hname.mem

theorem last?_eq_none_iff {id : String} : d.last? id = none ↔ id ∉ d.ids := by
  simp [last?, ids]

end Declarations

/-- What stands behind the last dot of a text. -/
theorem Path.afterLastDot?_append {stem e : Text} (he : '.' ∉ e) :
    afterLastDot? (stem ++ '.' :: e) = some e := by
  have hall : ∀ c ∈ e.reverse, (c != '.') = true := by
    intro c hc
    rw [bne_iff_ne]
    rintro rfl
    exact he (List.mem_reverse.mp hc)
  have hlast : (stem ++ '.' :: e).reverse.takeWhile (· != '.') = e.reverse := by
    rw [List.reverse_append, List.reverse_cons, List.append_assoc,
      List.takeWhile_append_of_pos hall]
    simp
  rw [afterLastDot?, if_pos (by simp), hlast, List.reverse_reverse]

theorem exists_lastDot {t : Text} (ht : '.' ∈ t) : ∃ stem e, t = stem ++ '.' :: e ∧ '.' ∉ e := by
  obtain ⟨e, stem, heq, he⟩ := List.eq_append_cons_of_mem (List.mem_reverse.mpr ht)
  refine ⟨stem.reverse, e.reverse, ?_, by simpa using he⟩
  rw [← List.reverse_reverse t, heq]
  simp

namespace Declarations

variable {d : Declarations}

theorem exists_nameLeads (name : Text) : ∃ r, d.NameLeads name r := by
  by_cases hdot : '.' ∈ name
  · obtain ⟨stem, e, rfl, he⟩ := exists_lastDot hdot
    cases howner : d.owner? (String.ofList e) with
    | some l => exact ⟨_, .extension he howner⟩
    | none =>
      by_cases hid : String.ofList e ∈ d.ids
      · exact ⟨_, .id he howner hid⟩
      · exact ⟨_, .named he howner hid⟩
  · exact ⟨_, .whole hdot⟩

theorem exists_leads (path : String) : ∃ r, d.Leads path r := by
  by_cases hblank : stripName path = ""
  · exact ⟨_, .blank hblank⟩
  by_cases hid : nameKey path ∈ d.ids
  · exact ⟨_, .id hblank hid⟩
  cases hnamed : d.named? (nameKey path) with
  | some l => exact ⟨_, .named hblank hid hnamed⟩
  | none =>
    obtain ⟨r, hr⟩ := d.exists_nameLeads (lowerName (Path.fileName (stripName path))).toList
    exact ⟨r, .fileName hblank hid hnamed hr⟩

end Declarations

/-- The tables of languages say what the declarations of a document say. -/
structure Languages.Reflects (ls : Languages) (d : Declarations) : Prop where
  extensions : ∀ e, Assoc.find? e ls.extensions = d.owner? e
  aliases : ∀ a, Assoc.find? a ls.aliases = d.named? a
  table : ∀ id, Option.Rel (fun raw l => Language.ofJson id raw = .ok l) (d.last? id)
    (Assoc.find? id ls.table)

namespace Languages.Reflects

variable {ls : Languages} {d : Declarations} (h : ls.Reflects d)

include h

theorem has_iff (id : String) : Assoc.has id ls.table ↔ id ∈ d.ids := by
  have hrel := h.table id
  rw [Assoc.has, ← not_iff_not, ← Declarations.last?_eq_none_iff]
  generalize d.last? id = raw, Assoc.find? id ls.table = l at hrel ⊢
  cases hrel <;> simp

theorem ofFileName_eq {name : String} {r : Option String} (hr : d.NameLeads name.toList r) :
    ls.ofFileName name = r := by
  rw [ofFileName]
  generalize hname : name.toList = t at hr
  cases hr with
  | whole hdot =>
    rw [Path.afterLastDot?, if_neg (by simpa using hdot)]
    dsimp only
    rw [h.extensions, ← hname, String.ofList_toList]
  | extension hdot howner =>
    rw [Path.afterLastDot?_append hdot]
    dsimp only
    rw [h.extensions, howner]
  | id hdot howner hid =>
    rw [Path.afterLastDot?_append hdot]
    dsimp only
    rw [h.extensions, howner]
    dsimp only
    rw [if_pos ((h.has_iff _).mpr hid)]
  | named hdot howner hid =>
    rw [Path.afterLastDot?_append hdot]
    dsimp only
    rw [h.extensions, howner]
    dsimp only
    rw [if_neg (mt (h.has_iff _).mp hid), h.aliases]

theorem detect_eq {path : String} {r : Option String} (hr : d.Leads path r) :
    ls.detect path = r := by
  have hkey : lowerName (stripName path) = nameKey path := rfl
  rw [detect, hkey]
  cases hr with
  | blank hblank => rw [if_pos hblank]
  | id hblank hid => rw [if_neg hblank, if_pos ((h.has_iff _).mpr hid)]
  | named hblank hid hnamed =>
    rw [if_neg hblank, if_neg (mt (h.has_iff _).mp hid), h.aliases, hnamed]
  | fileName hblank hid hnamed hname =>
    rw [if_neg hblank, if_neg (mt (h.has_iff _).mp hid), h.aliases, hnamed]
    exact h.ofFileName_eq hname

theorem detect_eq_iff (path : String) (r : Option String) :
    ls.detect path = r ↔ d.Leads path r := by
  constructor
  · rintro rfl
    obtain ⟨r, hr⟩ := d.exists_leads path
    rwa [h.detect_eq hr]
  · exact h.detect_eq

end Languages.Reflects

theorem forall₂_of_mapM_eq_ok {ε α β : Type} {f : α → Except ε β} {xs : List α} {ys : List β}
    (h : xs.mapM f = .ok ys) : List.Forall₂ (fun x y => f x = .ok y) xs ys := by
  induction xs generalizing ys with
  | nil =>
    cases h
    exact .nil
  | cons x xs ih =>
    rw [List.mapM_cons] at h
    obtain ⟨y, hy, h⟩ := exists_of_bind_eq_ok h
    obtain ⟨zs, hzs, h⟩ := exists_of_bind_eq_ok h
    cases h
    exact .cons hy (ih hzs)

/-- Of lists whose entries correspond, what is found first in both corresponds. -/
theorem rel_find? {α β : Type} {R : α → β → Prop} {p : α → Bool} {q : β → Bool} {xs : List α}
    {ys : List β} (h : List.Forall₂ R xs ys) (hpq : ∀ x y, R x y → p x = q y) :
    Option.Rel R (xs.find? p) (ys.find? q) := by
  induction h with
  | nil => exact .none
  | @cons x y _ _ hxy _ ih =>
    rw [List.find?_cons, List.find?_cons, hpq x y hxy]
    cases q y with
    | true => exact .some hxy
    | false => exact ih

namespace Language

/-- A description that can be read is one of a language with the name given for it, and lists its
extensions and aliases. -/
theorem of_ofJson_eq_ok {name : String} {raw : Json} {l : Language}
    (h : Language.ofJson name raw = .ok l) :
    l.name = name ∧ names raw "extensions" = .ok l.extensions ∧
      names raw "aliases" = .ok l.aliases := by
  cases raw with
  | obj fs =>
    rw [Language.ofJson] at h
    obtain ⟨_, -, h⟩ := exists_of_bind_eq_ok h
    obtain ⟨_, -, h⟩ := exists_of_bind_eq_ok h
    obtain ⟨extensions, hextensions, h⟩ := exists_of_bind_eq_ok h
    obtain ⟨aliases, haliases, h⟩ := exists_of_bind_eq_ok h
    obtain ⟨_, -, h⟩ := exists_of_bind_eq_ok h
    obtain ⟨_, -, h⟩ := exists_of_bind_eq_ok h
    obtain ⟨_, -, h⟩ := exists_of_bind_eq_ok h
    obtain ⟨_, -, h⟩ := exists_of_bind_eq_ok h
    obtain ⟨_, -, h⟩ := exists_of_bind_eq_ok h
    obtain ⟨_, -, h⟩ := exists_of_bind_eq_ok h
    cases h
    exact ⟨rfl, hextensions, haliases⟩
  | _ => cases h

theorem mem_names_iff {raw : Json} {key : String} {es : List String}
    (h : names raw key = .ok es) (name : String) :
    name ∈ es ↔ Declarations.lists key name raw := by
  obtain ⟨ms, hms, h⟩ := exists_of_bind_eq_ok h
  cases h
  simp [Declarations.lists, hms]

end Language

namespace Languages

variable (ds : List Language) (extra : List (String × String))

theorem find?_extensions_ofList (e : String) :
    Assoc.find? e (ofList ds extra).extensions =
      ((ds.find? fun l => e ∈ l.extensions).map (·.name)).or
        ((extra.find? fun f => f.1 = e).map (·.2)) := by
  have hadd : (ds.foldl add {}).extensions = ds.foldl (fun m l =>
      l.extensions.foldl (fun m e => Assoc.insertNew e l.name m) m) [] :=
    (List.foldl_hom extensions (H := fun _ _ => rfl)).symm
  have hextra : (ofList ds extra).extensions = extra.foldl (fun m f =>
      [f.1].foldl (fun m e => Assoc.insertNew e f.2 m) m) (ds.foldl add {}).extensions :=
    (List.foldl_hom extensions (H := fun _ _ => rfl)).symm
  have hone : ∀ f : String × String, e ∈ [f.1] ↔ f.1 = e := by
    intro f
    rw [List.mem_singleton, eq_comm]
  rw [hextra, Assoc.find?_foldl_first, hadd, Assoc.find?_foldl_first]
  simp only [hone]
  rfl

theorem find?_aliases_ofList (a : String) :
    Assoc.find? a (ofList ds extra).aliases =
      (ds.find? fun l => a ∈ l.aliases).map (·.name) := by
  have hextra : (ofList ds extra).aliases = (ds.foldl add {}).aliases :=
    (List.foldl_hom aliases (H := fun _ _ => rfl)).symm.trans (List.foldl_fixed extra)
  have hadd : (ds.foldl add {}).aliases = ds.foldl (fun m l =>
      l.aliases.foldl (fun m a => Assoc.insertNew a l.name m) m) [] :=
    (List.foldl_hom aliases (H := fun _ _ => rfl)).symm
  rw [hextra, hadd, Assoc.find?_foldl_first]
  rfl

theorem find?_table_ofList (id : String) :
    Assoc.find? id (ofList ds extra).table = ds.findRev? fun l => l.name = id := by
  have hextra : (ofList ds extra).table = (ds.foldl add {}).table :=
    (List.foldl_hom table (H := fun _ _ => rfl)).symm.trans (List.foldl_fixed extra)
  have hadd : (ds.foldl add {}).table = ds.foldl (fun m l => Assoc.insert l.name l m) [] :=
    (List.foldl_hom table (H := fun _ _ => rfl)).symm
  rw [hextra, hadd, Assoc.find?_foldl_last]
  simp [Assoc.find?]

/-- The languages that the descriptions are read to, each under its name in lower case. -/
def Read (d : Declarations) (ds : List Language) : Prop :=
  List.Forall₂ (fun f l => Language.ofJson (lowerName f.1) f.2 = .ok l) d.languages ds

variable {doc : Json} {d : Declarations} {ls : Languages} {ds : List Language}

/-- The first language that has a name in a list is the first description that lists it there. -/
theorem Read.first?_eq (h : Read d ds) {key : String} {list : Language → List String}
    (hlist : ∀ name raw l, Language.ofJson name raw = .ok l →
      Language.names raw key = .ok (list l)) (name : String) :
    (ds.find? fun l => name ∈ list l).map (·.name) = d.first? key name := by
  have hrel := rel_find? (p := fun f => Declarations.lists key name f.2)
    (q := fun l => decide (name ∈ list l)) h fun f l hfl => by
      rw [Bool.eq_iff_iff, decide_eq_true_iff, Language.mem_names_iff (hlist _ _ _ hfl)]
  rw [Declarations.first?]
  generalize d.languages.find? _ = f, ds.find? _ = l at hrel ⊢
  cases hrel with
  | none => rfl
  | some hfl => exact congrArg some (Language.of_ofJson_eq_ok hfl).1

/-- The last language of a name is what the last description under it is read to. -/
theorem Read.rel_last? (h : Read d ds) (id : String) :
    Option.Rel (fun raw l => Language.ofJson id raw = .ok l) (d.last? id)
      (ds.findRev? fun l => l.name = id) := by
  have hrel := rel_find? (p := fun f => decide (lowerName f.1 = id))
    (q := fun l => decide (l.name = id)) (List.rel_reverse h) fun f l hfl => by
      rw [(Language.of_ofJson_eq_ok hfl).1]
  rw [Declarations.last?, List.findRev?_eq_find?_reverse, List.findRev?_eq_find?_reverse]
  cases hf : d.languages.reverse.find? fun f => lowerName f.1 = id with
  | none =>
    rw [hf] at hrel
    generalize ds.reverse.find? _ = l at hrel ⊢
    cases hrel
    exact .none
  | some f =>
    have hid : lowerName f.1 = id := by simpa using List.find?_some hf
    rw [hf] at hrel
    generalize ds.reverse.find? _ = l at hrel ⊢
    cases hrel with
    | some hfl => exact .some (hid ▸ hfl)

/-- What is loaded from a document reflects its declarations. -/
theorem reflects_of_ofJson (hdoc : Declarations.ofJson doc = .ok d)
    (hload : Languages.ofJson doc = .ok ls) : ls.Reflects d := by
  obtain ⟨fields, hfields, hdoc⟩ := exists_of_bind_eq_ok hdoc
  obtain ⟨extra, hextra, hdoc⟩ := exists_of_bind_eq_ok hdoc
  obtain rfl := Except.ok.inj hdoc
  obtain ⟨fields', hfields', hload⟩ := exists_of_bind_eq_ok hload
  obtain rfl := Except.ok.inj (hfields.symm.trans hfields')
  obtain ⟨ds, hds, hload⟩ := exists_of_bind_eq_ok hload
  obtain ⟨extra', hextra', hload⟩ := exists_of_bind_eq_ok hload
  obtain rfl := Except.ok.inj (hextra.symm.trans hextra')
  obtain rfl := Except.ok.inj hload
  have hread : Read ⟨fields, extra⟩ ds := (forall₂_of_mapM_eq_ok hds).imp fun _ _ h => h
  constructor
  case extensions =>
    intro e
    rw [find?_extensions_ofList,
      hread.first?_eq fun _ _ _ h => (Language.of_ofJson_eq_ok h).2.1, List.find?_map,
      Option.map_map]
    rfl
  case aliases =>
    intro a
    rw [find?_aliases_ofList, hread.first?_eq fun _ _ _ h => (Language.of_ofJson_eq_ok h).2.2]
    rfl
  case table =>
    intro id
    rw [find?_table_ofList]
    exact hread.rel_last? id

theorem lowerName_eq_empty_iff {s : String} : lowerName s = "" ↔ s = "" := by
  rw [← String.toList_eq_nil_iff, ← String.toList_eq_nil_iff, lowerName, String.toList_ofList]
  exact ⟨Text.lowerAfter_eq_nil, fun h => by rw [h]; rfl⟩

/-- A name without blanks around it has a key that is looked up as it is. -/
theorem Reflects.find?_of_mem_ids (h : ls.Reflects d)
    (hnames : ∀ f ∈ d.languages, f.1 ≠ "" ∧ stripName f.1 = f.1) {id : String}
    (hid : id ∈ d.ids) :
    ∃ raw l, d.last? id = some raw ∧ Language.ofJson id raw = .ok l ∧ ls.find? id = some l := by
  have hkey : nameKey id = id ∧ id ≠ "" := by
    obtain ⟨f, hf, rfl⟩ := List.mem_map.mp hid
    obtain ⟨hne, hstrip⟩ := hnames f hf
    have htrimmed : Text.Trimmed f.1.toList := by
      rw [← hstrip, stripName, String.toList_ofList]
      exact Text.trimmed_strip _
    refine ⟨?_, mt lowerName_eq_empty_iff.mp hne⟩
    simp only [nameKey, stripName, lowerName, String.toList_ofList]
    rw [htrimmed.lower.strip_eq, Text.lower_lower]
  have hrel := h.table id
  have hlast : d.last? id ≠ none := fun hnone => Declarations.last?_eq_none_iff.mp hnone hid
  rw [find?, if_neg hkey.2, hkey.1]
  generalize d.last? id = raw, Assoc.find? id ls.table = l at hrel hlast ⊢
  cases hrel with
  | none => exact absurd rfl hlast
  | some hl => exact ⟨_, _, rfl, hl, rfl⟩

/-- The tables loaded from a document: an extension belongs to the first description that lists it,
and only when none does to the first further extension of that name; an alias belongs to the first
description that lists it. Looking a path up asks its sources in order, and gives a language of the
document or one that a further extension leads to. Each language of the document is found under its
name, as its last description has it. -/
theorem ofJson_tables (hdoc : Declarations.ofJson doc = .ok d)
    (hload : Languages.ofJson doc = .ok ls)
    (hnames : ∀ f ∈ d.languages, f.1 ≠ "" ∧ stripName f.1 = f.1) :
    (∀ e, Assoc.find? e ls.extensions = (d.first? "extensions" e).or (d.target? e)) ∧
    (∀ a, Assoc.find? a ls.aliases = d.first? "aliases" a) ∧
    (∀ path r, ls.detect path = r ↔ d.Leads path r) ∧
    (∀ path l, ls.detect path = some l → l ∈ d.ids ∨ l ∈ d.targets) ∧
    ∀ id ∈ d.ids, ∃ raw l,
      d.last? id = some raw ∧ Language.ofJson id raw = .ok l ∧ ls.find? id = some l := by
  have h : ls.Reflects d := reflects_of_ofJson hdoc hload
  refine ⟨h.extensions, h.aliases, h.detect_eq_iff, fun path l hl => ?_, fun id hid => ?_⟩
  · exact ((h.detect_eq_iff path _).mp hl).mem l rfl
  · exact h.find?_of_mem_ids hnames hid

/-- Two descriptions of one language, the first of which owns an extension that another language and
a further extension want as well. -/
def contended : Declarations where
  languages := [
    ("Py", .obj [("extensions", .arr [.str "PY", .str "Q"])]),
    ("py", .obj [("aliases", .arr [.str "Snake"]), ("parser", .str "python")]),
    ("Q", .obj [("extensions", .arr [.str "py"])])]
  extra := [("py", .str "none"), ("R", .str "Ruby"), ("r", .str "none")]

def contendedDocument : Json :=
  .obj [("languages", .obj contended.languages), ("extra_extensions", .obj contended.extra)]

theorem ofJson_tables_contended : ∃ ls, Languages.ofJson contendedDocument = .ok ls ∧
    Assoc.find? "py" ls.extensions = some "py" ∧ Assoc.find? "r" ls.extensions = some "ruby" ∧
    Assoc.find? "snake" ls.aliases = some "py" ∧ ls.detect "lib/a.PY" = some "py" ∧
    ls.detect "q" = some "q" ∧ ∃ l, ls.find? "py" = some l ∧ l.grammar = "python" := by
  obtain ⟨ls, hload⟩ : ∃ ls, Languages.ofJson contendedDocument = .ok ls := by
    have hok : (Languages.ofJson contendedDocument).isOk := by decide +kernel
    cases hls : Languages.ofJson contendedDocument with
    | ok ls => exact ⟨ls, rfl⟩
    | error e =>
      rw [hls] at hok
      cases hok
  have hnames : ∀ f ∈ contended.languages, f.1 ≠ "" ∧ stripName f.1 = f.1 := by
    simp only [contended, List.forall_mem_cons]
    exact ⟨by decide, by decide, by decide, List.forall_mem_nil _⟩
  have hdoc : Declarations.ofJson contendedDocument = .ok contended := rfl
  obtain ⟨hextensions, haliases, hdetect, -, hfind⟩ := ofJson_tables hdoc hload hnames
  have hname : (lowerName (Path.fileName (stripName "lib/a.PY"))).toList =
      ['a'] ++ '.' :: ['p', 'y'] := by decide +kernel
  have hpath : contended.Leads "lib/a.PY" (some "py") := by
    refine .fileName (by decide +kernel) (by decide +kernel) (by decide +kernel) ?_
    rw [hname]
    exact .extension (by decide) (by decide +kernel)
  have hkey : nameKey "q" = "q" := by decide +kernel
  have hq : contended.Leads "q" (some (nameKey "q")) :=
    .id (by decide +kernel) (by decide +kernel)
  rw [hkey] at hq
  obtain ⟨raw, l, hraw, hl, hpy⟩ := hfind "py" (by decide +kernel)
  refine ⟨ls, hload, (hextensions "py").trans (by decide +kernel),
    (hextensions "r").trans (by decide +kernel), (haliases "snake").trans (by decide +kernel),
    (hdetect _ _).mpr hpath, (hdetect _ _).mpr hq, l, hpy, ?_⟩
  have hgrammar : (contended.last? "py").bind (fun raw =>
      (Language.ofJson "py" raw).toOption.map (·.grammar)) = some "python" := by decide +kernel
  rw [hraw, Option.bind_some, hl] at hgrammar
  exact Option.some.inj hgrammar

end Languages

end CodeChunks
