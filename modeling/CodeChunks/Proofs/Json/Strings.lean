import CodeChunks.Json.Token
import Mathlib.Tactic.SplitIfs

/-! # Strings between quotes

What a character is escaped as is read back as its number, or as the two halves of its number, and
halves in order make the character again. -/
namespace CodeChunks

namespace Text

theorem hexValue?_hexDigit : ∀ n, n < 16 → hexValue? (hexDigit n) = some n := by decide

theorem hex_four (n : Nat) : hex 4 n =
    [hexDigit (n / 16 / 16 / 16 % 16), hexDigit (n / 16 / 16 % 16), hexDigit (n / 16 % 16),
      hexDigit (n % 16)] := rfl

end Text

namespace Json.Token

/-- Four digits are read as the number that they were written for. -/
theorem hex4?_hex {n : Nat} (hn : n < 0x10000) :
    hex4? (Text.hexDigit (n / 16 / 16 / 16 % 16)) (Text.hexDigit (n / 16 / 16 % 16))
      (Text.hexDigit (n / 16 % 16)) (Text.hexDigit (n % 16)) = some n := by
  have hdigit : ∀ m, Text.hexValue? (Text.hexDigit (m % 16)) = some (m % 16) :=
    fun m => Text.hexValue?_hexDigit _ (Nat.mod_lt _ (by decide))
  have hvalue : ((n / 16 / 16 / 16 % 16 * 16 + n / 16 / 16 % 16) * 16 + n / 16 % 16) * 16 + n % 16 =
      n := by omega
  simp [hex4?, hdigit, hvalue]

theorem stringUnits_hex {n : Nat} (hn : n < 0x10000) (t : Text) :
    stringUnits ('\\' :: 'u' :: Text.hex 4 n ++ t) =
      (stringUnits t).map fun r => (n :: r.1, r.2) := by
  rw [Text.hex_four]
  simp only [List.cons_append, List.nil_append, stringUnits, hex4?_hex hn]
  cases stringUnits t <;> rfl

theorem stringUnits_escape {c d : Char} (hc : c ≠ 'u') (h : escapedChar? c = some d) (t : Text) :
    stringUnits ('\\' :: c :: t) = (stringUnits t).map fun r => (d.toNat :: r.1, r.2) := by
  rw [stringUnits, h]
  · cases stringUnits t <;> rfl
  · exact fun _ _ _ _ _ h _ => hc h

theorem stringUnits_plain {c : Char} (hquote : c ≠ '"') (hslash : c ≠ '\\') (hc : 32 ≤ c.toNat)
    (t : Text) : stringUnits (c :: t) = (stringUnits t).map fun r => (c.toNat :: r.1, r.2) := by
  rw [stringUnits, if_neg (by omega)]
  · exact fun h => hquote h
  · exact fun _ _ _ _ _ h _ => hslash h
  · exact fun _ _ h _ => hslash h

theorem units_lt {c : Char} {n : Nat} (h : n ∈ units c) : n < 0x10000 := by
  have hvalid : c.toNat < 0xD800 ∨ 0xDFFF < c.toNat ∧ c.toNat < 0x110000 := c.valid
  rw [units] at h
  split at h
  · rw [List.mem_singleton] at h
    omega
  · simp only [List.mem_cons, List.not_mem_nil, or_false] at h
    omega

theorem stringUnits_hexes (ns : List Nat) (hns : ∀ n ∈ ns, n < 0x10000) (t : Text) :
    stringUnits ((ns.flatMap fun n => '\\' :: 'u' :: Text.hex 4 n) ++ t) =
      (stringUnits t).map fun r => (ns ++ r.1, r.2) := by
  induction ns with
  | nil => cases h : stringUnits t <;> simp [h]
  | cons n ns ih =>
    obtain ⟨hn, hns⟩ := List.forall_mem_cons.mp hns
    rw [List.flatMap_cons, List.append_assoc, stringUnits_hex hn, ih hns, Option.map_map]
    rfl

/-- Reading takes an escaped character back to the numbers that stand for it. -/
theorem stringUnits_escaped (c : Char) (t : Text) :
    stringUnits (escaped c ++ t) = (stringUnits t).map fun r => (units c ++ r.1, r.2) := by
  rw [escaped]
  split_ifs with hsame hnewline hreturn htab hfeed hback hplain
  · rcases hsame with rfl | rfl <;> exact stringUnits_escape (by decide) rfl t
  · exact hnewline ▸ stringUnits_escape (by decide) rfl t
  · exact hreturn ▸ stringUnits_escape (by decide) rfl t
  · exact htab ▸ stringUnits_escape (by decide) rfl t
  · exact hfeed ▸ stringUnits_escape (by decide) rfl t
  · exact hback ▸ stringUnits_escape (by decide) rfl t
  · rw [not_or] at hsame
    have hunits : units c = [c.toNat] := if_pos (by omega)
    rw [hunits]
    exact stringUnits_plain hsame.1 hsame.2 hplain.1 t
  · exact stringUnits_hexes (units c) (fun n hn => units_lt hn) t

/-! ## Halves -/

theorem unitChar_toNat (c : Char) : unitChar c.toNat = c := by
  have hvalid : c.toNat < 0xD800 ∨ 0xDFFF < c.toNat ∧ c.toNat < 0x110000 := c.valid
  rw [unitChar, if_neg (by omega), Char.ofNat_toNat]

/-- The numbers that stand for a character make the character. -/
theorem joinUnits_units (c : Char) (us : List Nat) :
    joinUnits (units c ++ us) = c :: joinUnits us := by
  have hvalid : c.toNat < 0xD800 ∨ 0xDFFF < c.toNat ∧ c.toNat < 0x110000 := c.valid
  rw [units]
  by_cases hsmall : c.toNat < 0x10000
  · rw [if_pos hsmall]
    have hhigh : isHigh c.toNat = false := by
      simp only [isHigh, Bool.and_eq_false_iff, decide_eq_false_iff_not]
      omega
    cases us with
    | nil => simp [joinUnits, unitChar_toNat]
    | cons v us => simp [joinUnits, unitChar_toNat, hhigh]
  · rw [if_neg hsmall]
    have hhigh : isHigh (0xD800 + (c.toNat - 0x10000) / 0x400) = true := by
      simp only [isHigh, Bool.and_eq_true, decide_eq_true_eq]
      omega
    have hlow : isLow (0xDC00 + (c.toNat - 0x10000) % 0x400) = true := by
      simp only [isLow, Bool.and_eq_true, decide_eq_true_eq]
      omega
    have hvalue : 0x10000 + (0xD800 + (c.toNat - 0x10000) / 0x400 - 0xD800) * 0x400 +
        (0xDC00 + (c.toNat - 0x10000) % 0x400 - 0xDC00) = c.toNat := by omega
    rw [List.cons_append, List.cons_append, List.nil_append, joinUnits, hhigh, hlow, hvalue,
      Char.ofNat_toNat]
    rfl

theorem joinUnits_flatMap_units (t : Text) : joinUnits (t.flatMap units) = t := by
  induction t with
  | nil => rfl
  | cons c t ih => rw [List.flatMap_cons, joinUnits_units, ih]

/-- A quoted text is read back up to its closing quote. -/
theorem stringUnits_flatMap_escaped (t r : Text) :
    stringUnits (t.flatMap escaped ++ '"' :: r) = some (t.flatMap units, r) := by
  induction t with
  | nil => rfl
  | cons c t ih =>
    rw [List.flatMap_cons, List.append_assoc, stringUnits_escaped, ih]
    rfl

end Json.Token

end CodeChunks
