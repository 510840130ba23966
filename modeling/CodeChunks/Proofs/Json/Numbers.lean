import CodeChunks.Json.Token
import CodeChunks.Proofs.Text.Parts
import Mathlib.Data.List.TakeWhile

/-! # Numbers in front of a separator

A number is read up to the first character that cannot belong to it, so what is read of a text stays
the same when a comma or a closing bracket follows. -/
namespace CodeChunks

namespace Json

/-- The text is empty or begins with what stands after a value. -/
def Stops (r : Text) : Prop := ∀ c ∈ r.head?, c = ',' ∨ c = ']' ∨ c = '\x7d'

theorem stops_nil : Stops [] := nofun

theorem stops_comma (r : Text) : Stops (',' :: r) := by
  rintro c ⟨⟩
  exact .inl rfl

theorem stops_bracket (r : Text) : Stops (']' :: r) := by
  rintro c ⟨⟩
  exact .inr (.inl rfl)

theorem stops_brace (r : Text) : Stops ('\x7d' :: r) := by
  rintro c ⟨⟩
  exact .inr (.inr rfl)

/-- A separator is none of the characters of numbers. -/
theorem Stops.ne {c d : Char} {r : Text} (h : Stops (c :: r)) (hcomma : d ≠ ',')
    (hbracket : d ≠ ']') (hbrace : d ≠ '\x7d') : c ≠ d := by
  rintro rfl
  rcases h c rfl with h | h | h
  · exact hcomma h
  · exact hbracket h
  · exact hbrace h

theorem Stops.not_isDigit {c : Char} {r : Text} (h : Stops (c :: r)) : c.isDigit = false := by
  rcases h c rfl with rfl | rfl | rfl <;> rfl

namespace Number

theorem read_eq (t : Text) : read t = (readLiteral t).or
    (if t.head? = some '-' then readUnsigned true t.tail else readUnsigned false t) := by
  unfold read
  cases readLiteral t with
  | some p => rfl
  | none =>
    cases t with
    | nil => rfl
    | cons c t =>
      by_cases hminus : c = '-'
      · simp [hminus]
      · simp [hminus]

section

variable {r : Text} (hr : Stops r)

include hr

theorem spanDigits_append (t : Text) :
    spanDigits (t ++ r) = ((spanDigits t).1, (spanDigits t).2 ++ r) := by
  induction t with
  | nil =>
    cases r with
    | nil => rfl
    | cons c r => simp [spanDigits, hr.not_isDigit]
  | cons c t ih =>
    simp only [spanDigits, Prod.mk.injEq] at ih
    cases hc : c.isDigit
    · simp [spanDigits, hc]
    · simp [spanDigits, hc, ih]

theorem whole_append (t : Text) :
    whole (t ++ r) = (whole t).map fun p => (p.1, p.2 ++ r) := by
  cases t with
  | nil =>
    cases r with
    | nil => rfl
    | cons c r =>
      have hzero := hr.ne (d := '0') (by decide) (by decide) (by decide)
      rw [List.nil_append, whole, hr.not_isDigit]
      · rfl
      · exact fun h => hzero h
  | cons c t =>
    by_cases hzero : c = '0'
    · subst hzero
      rfl
    · rw [List.cons_append, whole, whole]
      · rw [← List.cons_append, spanDigits_append hr]
        split <;> rfl
      · exact fun h => hzero h
      · exact fun h => hzero h

theorem places_append (t : Text) :
    places (t ++ r) = ((places t).1, (places t).2 ++ r) := by
  cases t with
  | nil =>
    cases r with
    | nil => rfl
    | cons c r =>
      have hpoint := hr.ne (d := '.') (by decide) (by decide) (by decide)
      simp [places, hpoint]
  | cons c t =>
    by_cases hpoint : c = '.'
    · subst hpoint
      simp only [List.cons_append, places, spanDigits_append hr]
      split <;> rfl
    · simp [places, hpoint]

theorem exponentSign_append (t : Text) :
    exponentSign (t ++ r) = ((exponentSign t).1, (exponentSign t).2 ++ r) := by
  cases t with
  | nil =>
    cases r with
    | nil => rfl
    | cons c r =>
      have hminus := hr.ne (d := '-') (by decide) (by decide) (by decide)
      have hplus := hr.ne (d := '+') (by decide) (by decide) (by decide)
      simp [exponentSign, hminus, hplus]
  | cons c t =>
    by_cases hminus : c = '-'
    · subst hminus
      rfl
    · by_cases hplus : c = '+'
      · subst hplus
        rfl
      · simp [exponentSign, hminus, hplus]

theorem exponent_append (t : Text) :
    exponent (t ++ r) = ((exponent t).1, (exponent t).2 ++ r) := by
  cases t with
  | nil =>
    cases r with
    | nil => rfl
    | cons c r =>
      have hsmall := hr.ne (d := 'e') (by decide) (by decide) (by decide)
      have hlarge := hr.ne (d := 'E') (by decide) (by decide) (by decide)
      simp [exponent, hsmall, hlarge]
  | cons c t =>
    simp only [List.cons_append, exponent, exponentSign_append hr, spanDigits_append hr]
    split
    · split <;> rfl
    · rfl

theorem readUnsigned_append (negative : Bool) (t : Text) :
    readUnsigned negative (t ++ r) = (readUnsigned negative t).map fun p => (p.1, p.2 ++ r) := by
  rw [readUnsigned, readUnsigned, whole_append hr]
  cases whole t with
  | none => rfl
  | some p =>
    simp only [Option.map_some, places_append hr, exponent_append hr]
    split <;> rfl

/-- A word without separators stands at the head of a text whatever separator follows. -/
theorem startsWith_append {w : Text} (hw : w.all fun d => d != ',' && d != ']' && d != '\x7d')
    (t : Text) : (t ++ r).startsWith w = t.startsWith w := by
  induction w generalizing t with
  | nil => cases t <;> cases r <;> rfl
  | cons d w ih =>
    simp only [List.all_cons, Bool.and_eq_true, bne_iff_ne] at hw
    obtain ⟨⟨⟨hcomma, hbracket⟩, hbrace⟩, hw⟩ := hw
    cases t with
    | nil =>
      cases r with
      | nil => rfl
      | cons c r =>
        have hne := hr.ne hcomma hbracket hbrace
        simp [Text.startsWith, hne]
    | cons c t => rw [List.cons_append, Text.startsWith, Text.startsWith, ih hw]

theorem readLiteral_append (t : Text) :
    readLiteral (t ++ r) = (readLiteral t).map fun p => (p.1, p.2 ++ r) := by
  have hdrop : ∀ {w : Text}, t.startsWith w = true →
      (t ++ r).drop w.length = t.drop w.length ++ r := by
    intro w h
    exact List.drop_append_of_le_length (Text.startsWith_iff.mp h).length_le
  simp only [readLiteral]
  rw [startsWith_append hr rfl, startsWith_append hr rfl, startsWith_append hr rfl]
  by_cases hnan : t.startsWith ['N', 'a', 'N']
  · rw [if_pos hnan, if_pos hnan]
    exact congrArg (fun u => some (Number.float Binary64.nan, u)) (hdrop hnan)
  rw [if_neg hnan, if_neg hnan]
  by_cases hinf : t.startsWith "Infinity".toList
  · rw [if_pos hinf, if_pos hinf]
    exact congrArg (fun u => some (Number.float Binary64.infinity, u)) (hdrop hinf)
  rw [if_neg hinf, if_neg hinf]
  by_cases hneg : t.startsWith ('-' :: "Infinity".toList)
  · rw [if_pos hneg, if_pos hneg]
    exact congrArg (fun u => some (Number.float (-Binary64.infinity), u)) (hdrop hneg)
  · rw [if_neg hneg, if_neg hneg]
    rfl

/-- What is read at the head of a text is read whatever separator follows the text. -/
theorem read_append (t : Text) : read (t ++ r) = (read t).map fun p => (p.1, p.2 ++ r) := by
  rw [read_eq, read_eq, readLiteral_append hr]
  cases readLiteral t with
  | some p => rfl
  | none =>
    rw [Option.map_none, Option.none_or, Option.none_or, readUnsigned_append hr false t]
    cases t with
    | nil =>
      have hminus : r.head? ≠ some '-' := by
        intro h
        obtain ⟨u, rfl⟩ := List.head?_eq_some_iff.mp h
        exact hr.ne (d := '-') (by decide) (by decide) (by decide) rfl
      rw [List.nil_append, if_neg hminus, List.head?_nil, if_neg nofun]
    | cons c t =>
      rw [List.cons_append, List.head?_cons, List.head?_cons]
      split
      · exact readUnsigned_append hr true t
      · rfl

end

/-! ## Integers -/

theorem digitsValue_digits (n : Nat) : digitsValue (Binary64.digits n) = n := by
  have h := Nat.ofDigitChars_ten_toDigits (n := n)
  rwa [Nat.ofDigitChars_eq_foldl] at h

theorem isDigit_of_mem_digits {n : Nat} {c : Char} (h : c ∈ Binary64.digits n) :
    c.isDigit = true :=
  Nat.isDigit_of_mem_toDigits (by decide) (by decide) h

/-- Only zero is written with a zero in front. -/
theorem head_digits {n : Nat} (hn : 0 < n) (u : Text) : Binary64.digits n ≠ '0' :: u := by
  induction n using Nat.strongRecOn generalizing u with
  | ind n ih =>
    rcases Nat.lt_or_ge n 10 with hlt | hge
    · rw [Binary64.digits, Nat.toDigits_of_lt_base hlt]
      intro h
      have hchar : n.digitChar = '0' := (List.cons.inj h).1
      have hvalue := Nat.toNat_digitChar_sub_48_of_lt_ten hlt
      rw [hchar] at hvalue
      change 0 = n at hvalue
      omega
    · rw [Binary64.digits, Nat.toDigits_of_base_le (by decide) hge]
      intro h
      have hrest := ih (n / 10) (by omega) (by omega)
      rw [Binary64.digits] at hrest
      cases hdigits : Nat.toDigits 10 (n / 10) with
      | nil => exact Nat.toDigits_ne_nil hdigits
      | cons c v =>
        rw [hdigits] at h hrest
        rw [List.cons_append] at h
        exact hrest v (congrArg (· :: v) (List.cons.inj h).1)

theorem readUnsigned_digits (negative : Bool) (n : Nat) :
    readUnsigned negative (Binary64.digits n) =
      some (.int (if negative then -(n : Int) else n), []) := by
  have hwhole : whole (Binary64.digits n) = some (Binary64.digits n, []) := by
    rcases Nat.eq_zero_or_pos n with rfl | hpos
    · rfl
    · cases hdigits : Binary64.digits n with
      | nil => exact absurd hdigits Nat.toDigits_ne_nil
      | cons c t =>
        have hall : ∀ d ∈ c :: t, d.isDigit = true :=
          fun d hd => isDigit_of_mem_digits (hdigits ▸ hd)
        have hzero : c ≠ '0' := fun h => head_digits hpos t (h ▸ hdigits)
        rw [whole, if_pos (hall c List.mem_cons_self)]
        · simp only [spanDigits, List.takeWhile_eq_self_iff.mpr hall,
            List.dropWhile_eq_nil_iff.mpr hall]
        · exact fun h => hzero h
  rw [readUnsigned, hwhole]
  simp [places, exponent, digitsValue_digits]

/-- No literal begins with a digit, signed or not. -/
theorem readLiteral_of_isDigit {c : Char} (hc : c.isDigit = true) (t : Text) :
    readLiteral (c :: t) = none ∧ readLiteral ('-' :: c :: t) = none := by
  have hne : ∀ d : Char, d.isDigit = false → c ≠ d := by
    rintro d hd rfl
    exact Bool.noConfusion (hc.symm.trans hd)
  have hn := hne 'N' rfl
  have hi := hne 'I' rfl
  have hminus := hne '-' rfl
  simp [readLiteral, Text.startsWith, hn, hi, hminus]

/-- An integer is read off its text. -/
theorem read_integerText (n : Int) : read (Token.integerText n) = some (.int n, []) := by
  cases hdigits : Binary64.digits n.natAbs with
  | nil => exact absurd hdigits Nat.toDigits_ne_nil
  | cons c t =>
    have hc : c.isDigit = true := isDigit_of_mem_digits (hdigits ▸ List.mem_cons_self)
    have hnone := readLiteral_of_isDigit hc t
    by_cases hn : n < 0
    · have htext : Token.integerText n = '-' :: Binary64.digits n.natAbs := by
        rw [Token.integerText, if_pos hn]
        rfl
      have hvalue : -(n.natAbs : Int) = n := by omega
      rw [htext, read_eq, hdigits, hnone.2, Option.none_or, List.head?_cons, if_pos rfl,
        List.tail_cons, ← hdigits, readUnsigned_digits, if_pos rfl, hvalue]
    · have htext : Token.integerText n = Binary64.digits n.natAbs := by
        rw [Token.integerText, if_neg hn]
        rfl
      have hvalue : (n.natAbs : Int) = n := by omega
      have hminus : (c :: t).head? ≠ some '-' := by
        rintro ⟨⟩
        exact Bool.noConfusion hc
      rw [htext, read_eq, hdigits, hnone.1, Option.none_or, if_neg hminus, ← hdigits,
        readUnsigned_digits, if_neg (by decide), hvalue]

/-- A number begins with a digit, a minus sign or the first character of a literal. -/
theorem head_of_read {c : Char} {t : Text} {p : Number × Text} (h : read (c :: t) = some p) :
    c.isDigit = true ∨ c = '-' ∨ c = 'N' ∨ c = 'I' := by
  by_cases hc : c.isDigit = true ∨ c = '-' ∨ c = 'N' ∨ c = 'I'
  · exact hc
  · exfalso
    simp only [not_or] at hc
    obtain ⟨hdigit, hminus, hn, hi⟩ := hc
    have hzero : c ≠ '0' := by
      rintro rfl
      exact hdigit rfl
    have hliteral : readLiteral (c :: t) = none := by
      simp [readLiteral, Text.startsWith, hminus, hn, hi]
    have hwhole : whole (c :: t) = none := by
      rw [whole, if_neg hdigit]
      exact fun h => hzero h
    rw [read_eq, hliteral, Option.none_or, if_neg (by simpa using hminus), readUnsigned,
      hwhole] at h
    cases h

end Number

end Json

end CodeChunks
