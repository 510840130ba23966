import CodeChunks.Chunk.Split
import CodeChunks.Proofs.Assoc
import Mathlib.Data.List.Forall2

/-! # Merging cuts a list into groups

Each group of neighbouring chunks gives one chunk. What has been merged before need not be known
one by one: merging its result with what follows is merging everything at once. -/
namespace CodeChunks

/-- What holds of all chunks, and of two small ones joined when it holds of both, holds of all that
comes out of merging. -/
theorem mergeFrom_induction {P : Chunk → Prop} {least : Nat}
    (hjoin : ∀ c d, c.isSmall least → d.isSmall least → P c → P d → P (c.join d))
    (held : Option Chunk) (cs : List Chunk) (hheld : ∀ b ∈ held, P b) (hcs : ∀ c ∈ cs, P c) :
    ∀ c ∈ mergeFrom least held cs, P c := by
  induction held, cs using mergeFrom.induct least with
  | case1 => simp [mergeFrom]
  | case2 b => simpa [mergeFrom] using hheld
  | case3 c cs hc ih =>
    rw [mergeFrom, if_pos hc]
    exact ih (by simpa using hcs c) fun d hd => hcs d (.tail _ hd)
  | case4 c cs hc ih =>
    rw [mergeFrom, if_neg hc]
    simp only [List.forall_mem_cons] at hcs ⊢
    exact ⟨hcs.1, ih hheld hcs.2⟩
  | case5 b c cs hc hb ih =>
    rw [mergeFrom, if_pos hc, if_pos hb]
    simp only [List.forall_mem_cons] at hcs
    refine ih ?_ hcs.2
    rintro _ ⟨rfl⟩
    exact hjoin b c hb hc (hheld b rfl) hcs.1
  | case6 b c cs hc hb ih =>
    rw [mergeFrom, if_pos hc, if_neg hb]
    simp only [List.forall_mem_cons] at hcs ⊢
    exact ⟨hheld b rfl, ih (by simpa using hcs.1) hcs.2⟩
  | case7 b c cs hc ih =>
    rw [mergeFrom, if_neg hc]
    simp only [List.forall_mem_cons] at hcs ⊢
    exact ⟨hheld b rfl, hcs.1, ih (by simp) hcs.2⟩

theorem mergeSmall_induction {P : Chunk → Prop} {least : Nat}
    (hjoin : ∀ c d, c.isSmall least → d.isSmall least → P c → P d → P (c.join d))
    {cs : List Chunk} (hcs : ∀ c ∈ cs, P c) : ∀ c ∈ mergeSmall least cs, P c :=
  mergeFrom_induction hjoin none cs (by simp) hcs

theorem mergeFrom_eq_nil_iff (least : Nat) (held : Option Chunk) (cs : List Chunk) :
    mergeFrom least held cs = [] ↔ held = none ∧ cs = [] := by
  induction held, cs using mergeFrom.induct least <;> simp_all [mergeFrom]

@[simp] theorem mergeSmall_eq_nil_iff (least : Nat) (cs : List Chunk) :
    mergeSmall least cs = [] ↔ cs = [] := by
  simp [mergeSmall, mergeFrom_eq_nil_iff]

/-- Two small pieces, with the empty line between them, have at most twice the size below which they
are small. -/
theorem length_join_le {least : Nat} {c d : Chunk} (hc : c.isSmall least) (hd : d.isSmall least) :
    (c.join d).content.length ≤ 2 * least := by
  simp only [Chunk.isSmall, Bool.and_eq_true, decide_eq_true_eq] at hc hd
  simp only [Chunk.join, List.length_append, List.length_cons]
  omega

namespace Chunk

theorem isSmall_iff {least : Nat} {c : Chunk} :
    c.isSmall least ↔ c.flag "split" ∧ c.content.length < least := by
  simp [isSmall, isSemantic]

/-- The contents of chunks with an empty line between neighbours. -/
def joinedContent (g : List Chunk) : Text := ['\n', '\n'].intercalate (g.map (·.content))

theorem joinedContent_singleton (c : Chunk) : joinedContent [c] = c.content := by
  simp [joinedContent]

theorem joinedContent_append_singleton {g : List Chunk} (hg : g ≠ []) (c : Chunk) :
    joinedContent (g ++ [c]) = joinedContent g ++ '\n' :: '\n' :: c.content := by
  induction g with
  | nil => exact absurd rfl hg
  | cons d g ih =>
    cases g with
    | nil => simp [joinedContent]
    | cons e g =>
      have hstep := ih (by simp)
      simp only [joinedContent, List.map_append, List.map_cons, List.cons_append,
        List.map_nil, List.intercalate_cons_cons] at hstep ⊢
      rw [hstep]
      simp only [List.append_assoc]

/-- One chunk made of a group of small ones; without the last of them it would still be small. -/
structure Joins (least : Nat) (g : List Chunk) (c : Chunk) : Prop where
  two_le : 2 ≤ g.length
  small : ∀ d ∈ g, d.isSmall least
  content_eq : c.content = joinedContent g
  type_eq : c.type = "+".intercalate (g.map (·.type))
  startLine_eq : g.head?.map (·.startLine) = some c.startLine
  endLine_eq : g.getLast?.map (·.endLine) = some c.endLine
  metadata_eq :
    g.head?.map (fun d => Assoc.insert "merged" (.bool true) d.metadata) = some c.metadata
  length_lt : (joinedContent g.dropLast).length < least

/-- What a group becomes: a lone chunk stays as it is, and any others are joined. -/
def Becomes (least : Nat) (g : List Chunk) (c : Chunk) : Prop := g = [c] ∨ Joins least g c

namespace Joins

variable {least : Nat} {g : List Chunk} {b c : Chunk}

theorem ne_nil (h : Joins least g b) : g ≠ [] := by
  rintro rfl
  exact absurd h.two_le (by simp)

theorem pair (hb : b.isSmall least) (hc : c.isSmall least) : Joins least [b, c] (b.join c) where
  two_le := Nat.le_refl 2
  small := by simp [hb, hc]
  content_eq := by simp [join, joinedContent]
  type_eq := by simp [join, String.append_assoc]
  startLine_eq := rfl
  endLine_eq := rfl
  metadata_eq := rfl
  length_lt := by
    have hlength := (isSmall_iff.mp hb).2
    simpa [joinedContent_singleton] using hlength

/-- A joined chunk that is still small takes one more. -/
theorem concat (h : Joins least g b) (hb : b.isSmall least) (hc : c.isSmall least) :
    Joins least (g ++ [c]) (b.join c) where
  two_le := by
    have := h.two_le
    simp only [List.length_append, List.length_singleton]
    omega
  small := by
    intro d hd
    rcases List.mem_append.mp hd with hd | hd
    · exact h.small d hd
    · exact List.mem_singleton.mp hd ▸ hc
  content_eq := by
    rw [joinedContent_append_singleton h.ne_nil, ← h.content_eq]
    rfl
  type_eq := by
    have hmap : g.map (·.type) ≠ [] := by simpa using h.ne_nil
    rw [List.map_append, String.intercalate_append_of_ne_nil hmap (by simp), ← h.type_eq]
    simp [join]
  startLine_eq := by
    rw [List.head?_append_of_ne_nil _ h.ne_nil, h.startLine_eq]
    rfl
  endLine_eq := by simp [join]
  metadata_eq := by
    obtain ⟨d, hd, hmetadata⟩ := Option.map_eq_some_iff.mp h.metadata_eq
    rw [List.head?_append_of_ne_nil _ h.ne_nil, hd]
    simp only [Option.map_some, join, ← hmetadata, Assoc.insert_insert]
  length_lt := by
    have hlength := (isSmall_iff.mp hb).2
    rwa [List.dropLast_concat, ← h.content_eq]

theorem length_le (h : Joins least g c) : c.content.length ≤ 2 * least := by
  have hne : g.dropLast ≠ [] := by
    intro hnil
    have htwo := h.two_le
    have hlen := congrArg List.length hnil
    simp only [List.length_dropLast, List.length_nil] at hlen
    omega
  have hlast := (isSmall_iff.mp (h.small _ (List.getLast_mem h.ne_nil))).2
  have hfirst := h.length_lt
  have hsplit := joinedContent_append_singleton hne (g.getLast h.ne_nil)
  rw [List.dropLast_concat_getLast h.ne_nil, ← h.content_eq] at hsplit
  simp only [hsplit, List.length_append, List.length_cons]
  omega

end Joins

theorem Becomes.concat {least : Nat} {g : List Chunk} {b c : Chunk} (h : Becomes least g b)
    (hb : b.isSmall least) (hc : c.isSmall least) : Joins least (g ++ [c]) (b.join c) := by
  rcases h with rfl | h
  · exact .pair hb hc
  · exact h.concat hb hc

end Chunk

open Chunk

/-- What is held back is what a group has become; nothing is held back of an empty group. -/
def Held (least : Nat) (g : List Chunk) : Option Chunk → Prop
  | none => g = []
  | some b => Becomes least g b

/-- With a piece held back that a group has become, merging continues with that group. -/
theorem mergeFrom_becomes (least : Nat) (held : Option Chunk) (cs g : List Chunk)
    (h : Held least g held) :
    ∃ gs, gs.flatten = g ++ cs ∧ List.Forall₂ (Becomes least) gs (mergeFrom least held cs) := by
  induction held, cs using mergeFrom.induct least generalizing g with
  | case1 =>
    obtain rfl : g = [] := h
    exact ⟨[], rfl, .nil⟩
  | case2 b => exact ⟨[g], by simp, .cons h .nil⟩
  | case3 c cs hc ih =>
    obtain rfl : g = [] := h
    obtain ⟨gs, hflat, hgs⟩ := ih [c] (Or.inl rfl)
    rw [mergeFrom, if_pos hc]
    exact ⟨gs, hflat, hgs⟩
  | case4 c cs hc ih =>
    obtain rfl : g = [] := h
    obtain ⟨gs, hflat, hgs⟩ := ih [] rfl
    rw [mergeFrom, if_neg hc]
    exact ⟨[c] :: gs, by simpa using hflat, .cons (.inl rfl) hgs⟩
  | case5 b c cs hc hb ih =>
    have hjoin : Joins least (g ++ [c]) (b.join c) := Becomes.concat h hb hc
    obtain ⟨gs, hflat, hgs⟩ := ih (g ++ [c]) (Or.inr hjoin)
    rw [mergeFrom, if_pos hc, if_pos hb]
    exact ⟨gs, by simpa using hflat, hgs⟩
  | case6 b c cs hc hb ih =>
    obtain ⟨gs, hflat, hgs⟩ := ih [c] (Or.inl rfl)
    rw [mergeFrom, if_pos hc, if_neg hb]
    exact ⟨g :: gs, by simpa using hflat, .cons h hgs⟩
  | case7 b c cs hc ih =>
    obtain ⟨gs, hflat, hgs⟩ := ih [] rfl
    rw [mergeFrom, if_neg hc]
    exact ⟨g :: [c] :: gs, by simpa using hflat, .cons h (.cons (.inl rfl) hgs)⟩

/-- Of two neighbours that come out of merging one at least is not small. -/
theorem isChain_mergeFrom (least : Nat) (held : Option Chunk) (cs : List Chunk) :
    (mergeFrom least held cs).IsChain fun c d => ¬ (c.isSmall least ∧ d.isSmall least) := by
  have hcons : ∀ (c : Chunk) (ds : List Chunk), ¬ c.isSmall least →
      ds.IsChain (fun c d => ¬ (c.isSmall least ∧ d.isSmall least)) →
      (c :: ds).IsChain fun c d => ¬ (c.isSmall least ∧ d.isSmall least) := by
    intro c ds hc hds
    cases ds with
    | nil => exact .singleton c
    | cons d ds => exact .cons_cons (fun h => hc h.1) hds
  induction held, cs using mergeFrom.induct least with
  | case1 => exact .nil
  | case2 b => exact .singleton b
  | case3 c cs hc ih =>
    rw [mergeFrom, if_pos hc]
    exact ih
  | case4 c cs hc ih =>
    rw [mergeFrom, if_neg hc]
    exact hcons c _ hc ih
  | case5 b c cs hc hb ih =>
    rw [mergeFrom, if_pos hc, if_pos hb]
    exact ih
  | case6 b c cs hc hb ih =>
    rw [mergeFrom, if_pos hc, if_neg hb]
    exact hcons b _ hb ih
  | case7 b c cs hc ih =>
    rw [mergeFrom, if_neg hc]
    exact .cons_cons (fun h => hc h.2) (hcons c _ hc ih)

/-- A held piece that is not small goes out before anything else. -/
theorem mergeFrom_of_not_isSmall {least : Nat} {b : Chunk} (hb : ¬ b.isSmall least)
    (cs : List Chunk) : mergeFrom least (some b) cs = b :: mergeFrom least none cs := by
  cases cs with
  | nil => rfl
  | cons c cs => by_cases hc : c.isSmall least <;> simp [mergeFrom, hb, hc]

/-- What comes out of merging, and then more chunks, merge as the chunks did that went in. -/
theorem mergeFrom_none_append (least : Nat) (held : Option Chunk) (cs ds : List Chunk) :
    mergeFrom least none (mergeFrom least held cs ++ ds) = mergeFrom least held (cs ++ ds) := by
  induction held, cs using mergeFrom.induct least with
  | case1 => rfl
  | case2 b =>
    rw [mergeFrom, List.singleton_append, List.nil_append, mergeFrom]
    by_cases hb : b.isSmall least
    · rw [if_pos hb]
    · rw [if_neg hb, mergeFrom_of_not_isSmall hb]
  | case3 c cs hc ih => simpa [mergeFrom, hc] using ih
  | case4 c cs hc ih => simpa [mergeFrom, hc] using ih
  | case5 b c cs hc hb ih => simpa [mergeFrom, hc, hb] using ih
  | case6 b c cs hc hb ih => simpa [mergeFrom, hc, hb] using ih
  | case7 b c cs hc ih => by_cases hb : b.isSmall least <;> simpa [mergeFrom, hc, hb] using ih

/-- Merging makes one chunk of each of some consecutive groups and leaves no two small neighbours.
Merging in between changes nothing, and merging twice is merging once. -/
theorem mergeSmall_regroups (least : Nat) (cs : List Chunk) :
    (∃ gs : List (List Chunk), gs.flatten = cs ∧
      List.Forall₂ (fun g c => g = [c] ∨ Joins least g c ∧ c.content.length ≤ 2 * least) gs
        (mergeSmall least cs)) ∧
    (mergeSmall least cs).IsChain (fun c d => ¬ (c.isSmall least ∧ d.isSmall least)) ∧
    (∀ ds, mergeSmall least (mergeSmall least cs ++ ds) = mergeSmall least (cs ++ ds)) ∧
    mergeSmall least (mergeSmall least cs) = mergeSmall least cs := by
  refine ⟨?_, isChain_mergeFrom least none cs, mergeFrom_none_append least none cs, ?_⟩
  · obtain ⟨gs, hflat, hgs⟩ := mergeFrom_becomes least none cs [] rfl
    exact ⟨gs, hflat, hgs.imp fun _ _ h => h.imp_right fun hj => ⟨hj, hj.length_le⟩⟩
  · have htwice := mergeFrom_none_append least none cs []
    rwa [List.append_nil, List.append_nil] at htwice

end CodeChunks
