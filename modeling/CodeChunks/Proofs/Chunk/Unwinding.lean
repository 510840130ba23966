import CodeChunks.Proofs.Chunk.Pipeline
import CodeChunks.Proofs.Parser.Outlines
import CodeChunks.Proofs.Parser.Parses
import Mathlib

/-! # Embedded code is unwound once

A run parses its code, and then the payload of each chunk that hosts code in a language with a
parser. What comes of a payload is not parsed again, whatever embeds what. -/
namespace CodeChunks

/-- The key and the default of a rule are strings where they are given. -/
structure EmbeddingRule.Named (r : EmbeddingRule) : Prop where
  key : r.languageKey = .null ∨ ∃ k, r.languageKey = .str k
  default : r.default = .null ∨ ∃ name, r.default = .str name

def Language.Named (l : Option Language) : Prop := ∀ d ∈ l, ∀ r ∈ d.embeddings, r.Named

def Languages.Named (ls : Languages) : Prop := ∀ d ∈ ls.table, ∀ r ∈ d.2.embeddings, r.Named

theorem Languages.Named.find? {ls : Languages} (h : ls.Named) (name : String) :
    Language.Named (ls.find? name) := by
  intro d hd
  rw [Languages.find?] at hd
  split at hd
  · cases hd
  · exact h _ (Assoc.mem_of_find? hd)

/-- The language that the attributes name under the key of the rule, in lower case, or else the
default. -/
def EmbeddingRule.language? (r : EmbeddingRule) (attributes : Json.Fields) : Option String :=
  ((if r.languageKey.truthy then r.named? attributes else none).map lowerName).or
    r.default.string?

/-- The language that the first rule for the type of a chunk detects, if that rule is recursive and
the language is neither empty nor plain text. -/
def Chunk.guest? (l : Option Language) (c : Chunk) : Option String :=
  (((Language.embedding? l c.type).filter (·.recursive)).bind (·.language? c.metadata)).filter
    fun name => name ≠ "" ∧ name ∉ plainTextNames

/-- Nothing stands in the way of telling the language of embedded code when names are strings. -/
theorem EmbeddingRule.Named.detect_eq {r : EmbeddingRule} (h : r.Named)
    (attributes : Json.Fields) :
    r.detect attributes = .ok ((r.language? attributes).elim .null .str) := by
  have hdefault : r.default = r.default.string?.elim .null .str := by
    rcases h.default with hd | ⟨name, hd⟩ <;> rw [hd] <;> rfl
  have hhashable : r.languageKey.isHashable := by
    rcases h.key with hk | ⟨k, hk⟩ <;> rw [hk] <;> rfl
  rw [detect, language?, if_pos hhashable]
  by_cases hskip : attributes.isEmpty || !r.languageKey.truthy
  · rw [if_pos hskip]
    have hnone : (if r.languageKey.truthy then r.named? attributes else none) = none := by
      rcases Bool.or_eq_true_iff.mp hskip with hempty | hkey
      · rw [List.isEmpty_iff.mp hempty]
        cases hkey : r.languageKey.string? <;> simp [named?, hkey, Assoc.find?]
      · rw [Bool.not_eq_true'] at hkey
        rw [hkey]
        rfl
    rw [hnone, Option.map_none, Option.none_or]
    exact congrArg _ hdefault
  · rw [if_neg hskip]
    rw [Bool.or_eq_true, not_or, Bool.not_eq_true', Bool.not_eq_false] at hskip
    rw [if_pos hskip.2]
    cases r.named? attributes with
    | none => exact congrArg _ hdefault
    | some name => rfl

theorem Chunk.hosted?_eq {l : Option Language} (h : Language.Named l) (c : Chunk) :
    c.hosted? l = .ok ((c.guest? l).map .str) := by
  rw [hosted?, guest?]
  cases hr : (Language.embedding? l c.type).filter (·.recursive) with
  | none => rfl
  | some r =>
    have hnamed : r.Named := by
      obtain ⟨d, hd, hfind⟩ := Option.bind_eq_some_iff.mp (Option.filter_eq_some_iff.mp hr).1
      exact h d hd r (List.mem_of_find?_eq_some hfind)
    dsimp only
    rw [hnamed.detect_eq, Option.bind_some]
    cases r.language? c.metadata with
    | none => rfl
    | some name =>
      by_cases hempty : name = "" <;> by_cases hplain : name ∈ plainTextNames <;>
        simp [bind, Except.bind, pure, Except.pure, Json.truthy, Json.isHashable, Json.string?,
          Option.filter_some, hempty, hplain]

theorem Chunk.refuses_eq_false {l : Option Language} (h : Language.Named l) (c : Chunk) :
    c.refuses l = false := by
  rw [refuses, hosted?_eq h]
  cases c.guest? l <;> rfl

namespace Toolbox

section

variable (b : Toolbox) (s : Session)

/-- The parse of a code, if its language is known and has a parser. -/
def parseOf? (code : Text) (path : String) : Option (String × Text) :=
  (b.languages.detect path).bind fun name => (b.handle? s name).map fun h => (h.log, code)

/-- The parse that a host calls for: of its payload, unless that is blank. -/
def nestedParse? (l : Option Language) (host : Chunk) : Option (String × Text) :=
  (host.guest? l).bind fun name =>
    if (Fence.payload host.content).allBlank then none
    else b.parseOf? s (Fence.payload host.content) name

/-- The parses that the chunks of a code call for, if it has a tree. -/
def nestedParses (code : Text) (path : String) (o : Options) : List (String × Text) :=
  match b.tree? s code path with
  | none => []
  | some (l, t) => (t.extract l o).filterMap (b.nestedParse? s l)

end

variable {b : Toolbox} {s s' : Session} {o : Options}

theorem Follows.parseOf?_eq (h : b.Follows s s') : b.parseOf? s' = b.parseOf? s := by
  funext code path
  simp only [parseOf?, h.handle?_eq]

theorem Follows.nestedParse?_eq (h : b.Follows s s') : b.nestedParse? s' = b.nestedParse? s := by
  funext l host
  simp only [nestedParse?, h.parseOf?_eq]

theorem fallback_parses (s : Session) (code : Text) (size : Budget) :
    (fallback code size).Parses s [] := by
  rw [fallback]
  split
  · exact Run.parses_pure _
  · exact Run.parses_throw _ _

/-- Chunking parses the code and then what `expand` does. -/
theorem chunkWith_parses {expand : Option Language → List Chunk → Expansion}
    (ps : Option Language → List Chunk → List (String × Text))
    (hexpand : ∀ name cs s', b.Follows s s' → Run.Parses
      (expand (b.languages.find? name) cs).run s' (ps (b.languages.find? name) cs))
    (code : Text) (path : String) :
    (b.chunkWith expand code path o).Parses s
      (if code.allBlank then []
      else (b.parseOf? s code path).toList ++
        (b.tree? s code path).elim [] fun p => ps p.1 (p.2.extract p.1 o)) := by
  unfold chunkWith tree? options
  split
  · exact Run.parses_pure _
  dsimp only
  -- every way out but the last one ends in cutting by size, which parses nothing
  have hfallback : ∀ {ps} (s' : Session), s'.parsed = s.parsed ++ ps →
      (fallback code o.maxSize).Ends s' (fun _ => True) fun _ s'' =>
        s''.parsed = s.parsed ++ ps := by
    intro ps s' hs'
    simpa [Run.Parses, hs'] using fallback_parses s' code o.maxSize
  have hcode : b.parseOf? s code path = (b.languages.detect path).bind fun name =>
      (b.handle? s name).map fun h => (h.log, code) := rfl
  cases hname : b.languages.detect path with
  | none =>
    rw [hname, Option.bind_none] at hcode
    simpa [hcode] using fallback_parses s code o.maxSize
  | some name =>
    rw [hname, Option.bind_some] at hcode
    dsimp only
    rw [Run.Parses, Run.ends_bind]
    refine ((b.parse_ends s code name _).and (b.parse_parses s code name _)).imp
      (fun _ _ => trivial) ?_
    rintro r s' ⟨⟨hr, hs⟩, hlog⟩
    rw [← hcode] at hlog
    rw [← hr]
    cases r with
    | none => simpa using hfallback s' hlog
    | some r =>
      cases r with
      | malformed => simpa using hfallback s' hlog
      | tree t =>
        dsimp only
        rw [Run.ends_bind]
        apply Run.Ends.mono (hexpand name _ s' hs)
        intro r s'' hlog'
        rw [hlog, List.append_assoc] at hlog'
        cases r with
        | error e => exact hfallback s'' hlog'
        | ok cs =>
          rw [Run.ends_pure]
          exact hlog'

theorem chunkFlat_parses (s : Session) (code : Text) (path : String) (o : Options) :
    (b.chunkFlat code path o).Parses s
      (if code.allBlank then [] else (b.parseOf? s code path).toList) := by
  have hnone : ((b.tree? s code path).elim [] fun _ => ([] : List (String × Text))) = [] := by
    cases b.tree? s code path <;> rfl
  have h := @chunkWith_parses b s o (fun _ cs => return cs) (fun _ _ => [])
    (fun _ cs _ _ => Run.parses_pure (Except.ok cs)) code path
  rwa [hnone, List.append_nil] at h

section

variable {l : Option Language} (hl : Language.Named l)

include hl

theorem expandHost_parses (s : Session) (o : Options) (host : Chunk) :
    Run.Parses (b.expandHost l o host).run s (b.nestedParse? s l host).toList := by
  unfold expandHost nestedParse?
  dsimp only
  rw [Run.Parses, ends_run_bind, ends_run_ofExcept, Chunk.hosted?_eq hl]
  cases host.guest? l with
  | none => simp
  | some name =>
    dsimp only [Option.map_some]
    rw [ends_run_bind, ends_run_lift]
    apply Run.Ends.mono (b.chunkFlat_parses s (Fence.payload host.content) name o.flat)
    intro cs s' hlog
    have hlog' : s'.parsed = s.parsed ++ (if (Fence.payload host.content).allBlank then none
        else b.parseOf? s (Fence.payload host.content) name).toList := by
      rw [hlog]
      split <;> rfl
    cases cs with
    | nil => simpa using hlog'
    | cons c cs => simpa using hlog'

theorem expandHosts_parses (s : Session) (o : Options) (cs : List Chunk) :
    Run.Parses (b.expandHosts l o cs).run s (cs.filterMap (b.nestedParse? s l)) := by
  induction cs generalizing s with
  | nil => exact Run.parses_pure _
  | cons c cs ih =>
    have hcons : (c :: cs).filterMap (b.nestedParse? s l) =
        (b.nestedParse? s l c).toList ++ cs.filterMap (b.nestedParse? s l) := by
      cases h : b.nestedParse? s l c <;> simp [h]
    rw [expandHosts, Run.Parses, ends_run_bind]
    refine ((b.expandHost_ends s l o c).and (b.expandHost_parses hl s o c)).imp
      (fun _ _ => trivial) ?_
    rintro r s' ⟨⟨hr, hs⟩, hlog⟩
    rw [Chunk.refuses_eq_false hl, if_neg (by simp)] at hr
    cases r with
    | error e => cases hr
    | ok ds =>
      dsimp only
      rw [ends_run_bind]
      apply Run.Ends.mono (ih s')
      intro r s'' hlog'
      rw [hlog, hs.nestedParse?_eq, List.append_assoc, ← hcons] at hlog'
      cases r <;> simpa using hlog'

end

theorem chunk_logs (hnamed : b.languages.Named) (s : Session) (code : Text) (path : String)
    (o : Options) :
    (b.chunk code path o).Parses s
      (if code.allBlank then []
      else (b.parseOf? s code path).toList ++
        if o.parseEmbedded then b.nestedParses s code path o else []) := by
  cases hembed : o.parseEmbedded with
  | false =>
    rw [chunk]
    simpa [hembed, chunkFlat] using b.chunkFlat_parses s code path o
  | true =>
    have hnested : b.nestedParses s code path o = (b.tree? s code path).elim [] fun p =>
        (p.2.extract p.1 o).filterMap (b.nestedParse? s p.1) := by
      rw [nestedParses]
      cases b.tree? s code path <;> rfl
    rw [chunk, hnested]
    refine chunkWith_parses (fun l cs => cs.filterMap (b.nestedParse? s l)) ?_ code path
    intro name cs s' hs
    rw [← hs.nestedParse?_eq, if_pos hembed]
    exact expandHosts_parses (hnamed.find? name) s' o cs

/-- A run that returns has parsed the code, if its language has a parser, and then the payload of
each chunk that hosts code in a language with a parser, in the order of the chunks; nothing that
came of a payload is parsed. Without embedding there is at most the parse of the code. A run does
return when the loads come to an end and the budget is in range. -/
theorem chunk_parses {code : Text} {path : String} (hnamed : b.languages.Named)
    (hcode : ¬ code.allBlank) :
    (∀ cs s', (b.chunk code path o).run.run s = (.ok cs, s') →
      (o.parseEmbedded → s'.parsed =
        s.parsed ++ ((b.parseOf? s code path).toList ++ b.nestedParses s code path o)) ∧
      (¬ o.parseEmbedded → s'.parsed = s.parsed ++ (b.parseOf? s code path).toList)) ∧
    (b.Answers s → o.maxSize.hasHalf →
      ∃ cs s', (b.chunk code path o).run.run s = (.ok cs, s')) := by
  refine ⟨fun cs s' hrun => ?_, fun hanswers hsize => ?_⟩
  · have hlog := Run.Ends.of_run_eq (chunk_logs hnamed s code path o) hrun
    rw [if_neg hcode] at hlog
    refine ⟨fun hembed => ?_, fun hembed => ?_⟩
    · rwa [if_pos hembed] at hlog
    · rwa [if_neg hembed, List.append_nil] at hlog
  · exact ⟨_, chunk_returns hanswers hsize code path⟩

/-- A document with two fences, in languages of which the first has a parser that fails: what it
finds ends after the code. -/
def twoGuests : Toolbox := ofOutlines [
  ({ name := "doc", grammar := "doc", boundaries := ["fence"]
     embeddings := [{ nodeType := "fence", languageKey := .str "lang" }] }, [
    ⟨"root", some (0, 5), none, []⟩,
    ⟨"fence", some (0, 2), some 0, [("lang", .str "x")]⟩,
    ⟨"fence", some (3, 5), some 0, [("lang", .str "y")]⟩]),
  ({ name := "x", grammar := "x", boundaries := ["unit"] }, [⟨"root", some (0, 5), none, []⟩]),
  ({ name := "y", grammar := "y", boundaries := ["unit"] }, [
    ⟨"root", some (0, 2), none, []⟩, ⟨"unit", some (0, 2), some 0, []⟩])]

theorem named_twoGuests : twoGuests.languages.Named := by
  simp only [Languages.Named, twoGuests, ofOutlines, List.map_cons, List.map_nil,
    List.forall_mem_cons, List.not_mem_nil, false_implies, implies_true, and_true]
  exact ⟨.inr ⟨"lang", rfl⟩, .inl rfl⟩

/-- Both fences are parsed after the document, although the parse of the first one fails. -/
theorem chunk_parses_twoGuests : ¬ Text.allBlank "aa\nbb".toList ∧
    ∃ cs s', (twoGuests.chunk "aa\nbb".toList "doc" {}).run.run {} = (.ok cs, s') ∧
      s'.parsed = [("doc", "aa\nbb".toList), ("x", "aa".toList), ("y", "bb".toList)] := by
  have hcode : ¬ Text.allBlank "aa\nbb".toList := by decide
  have hspec : (twoGuests.parseOf? {} "aa\nbb".toList "doc").toList ++
      twoGuests.nestedParses {} "aa\nbb".toList "doc" {} =
        [("doc", "aa\nbb".toList), ("x", "aa".toList), ("y", "bb".toList)] := by cbv
  obtain ⟨hlog, hreturns⟩ := @chunk_parses twoGuests {} {} _ "doc"
    named_twoGuests hcode
  obtain ⟨cs, s', hrun⟩ := hreturns (answers_ofOutlines _) (by decide +kernel)
  refine ⟨hcode, cs, s', hrun, ?_⟩
  rw [(hlog cs s' hrun).1 rfl, hspec]
  rfl

/-- A budget of which half is out of range. -/
def oversized : Options := { maxSize := 1 <<< 1024, maxSize_pos := by decide +kernel }

/-- Under such a budget the code of the first fence cannot be cut by size, which it has to be as its
parse fails. The run then ends early, and the second fence is not parsed. -/
theorem parses_oversized : twoGuests.languages.Named ∧ twoGuests.Answers {} ∧
    ¬ Text.allBlank "aa\nbb".toList ∧ oversized.parseEmbedded ∧
    ((twoGuests.chunk "aa\nbb".toList "doc" oversized).run.run {}).1 = .error .tooLarge ∧
    ((twoGuests.chunk "aa\nbb".toList "doc" oversized).run.run {}).2.parsed =
      [("doc", "aa\nbb".toList), ("x", "aa".toList)] ∧
    (twoGuests.parseOf? {} "aa\nbb".toList "doc").toList ++
      twoGuests.nestedParses {} "aa\nbb".toList "doc" oversized =
        [("doc", "aa\nbb".toList), ("x", "aa".toList), ("y", "bb".toList)] :=
  ⟨named_twoGuests, answers_ofOutlines _, by decide, rfl, by cbv, by cbv, by cbv⟩

end Toolbox

end CodeChunks
