import CodeChunks.Text.Utf8

/-! # Decoding what was encoded

The encoding of a character is a leading byte and the continuations that it announces, so a text
that is encoded and decoded stays what it is, and a beginning of it that ends inside a character
decodes to the characters before and one replacement character. -/
namespace CodeChunks.Utf8

/-- Bytes that complete a character: so many of them, the first one between the bounds, that take
the bits read so far to the number of the character. -/
inductive Completes : Nat → Nat → Nat → Nat → Bytes → Nat → Prop
  | done (low high acc : Nat) : Completes 0 low high acc [] acc
  | more {more low high acc n : Nat} {b : UInt8} {bs : Bytes} (hb : low ≤ b.toNat ∧ b.toNat ≤ high)
      (h : Completes more 0x80 0xBF (acc * 64 + b.toNat % 64) bs n) :
      Completes (more + 1) low high acc (b :: bs) n

namespace Completes

variable {more low high acc n : Nat} {bs : Bytes}

theorem continuation_append (h : Completes more low high acc bs n) (rest : Bytes) :
    continuation more low high acc (bs ++ rest) = .char (Char.ofNat n) rest := by
  induction h with
  | done low high acc => rw [List.nil_append, continuation]
  | more hb h ih => rw [List.cons_append, continuation, if_pos hb, ih]

theorem continuation_take (h : Completes more low high acc bs n) {k : Nat} (hk : k < bs.length) :
    continuation more low high acc (bs.take k) = .cut := by
  induction h generalizing k with
  | done low high acc => exact absurd hk (Nat.not_lt_zero k)
  | more hb h ih =>
    cases k with
    | zero => rw [List.take_zero, continuation]
    | succ k => rw [List.take_succ_cons, continuation, if_pos hb, ih (by simpa using hk)]

end Completes

theorem toNat_ofNat {n : Nat} (h : n < 256) : (UInt8.ofNat n).toNat = n :=
  UInt8.toNat_ofNat_of_lt h

/-- A continuation byte adds its last six bits. -/
theorem Completes.tail {more acc n : Nat} {bs : Bytes} {low high : Nat} (v : Nat)
    (hlow : low ≤ v % 64 + 0x80) (hhigh : v % 64 + 0x80 ≤ high)
    (h : Completes more 0x80 0xBF (acc * 64 + v % 64) bs n) :
    Completes (more + 1) low high acc (UInt8.ofNat (v % 64 + 0x80) :: bs) n := by
  have hbyte : (UInt8.ofNat (v % 64 + 0x80)).toNat = v % 64 + 0x80 := toNat_ofNat (by omega)
  have hbits : (v % 64 + 0x80) % 64 = v % 64 := by omega
  exact .more (by omega) (by rwa [hbyte, hbits])

section

variable {v : Nat}

theorem lead?_one (h : v < 0x80) : lead? (UInt8.ofNat v) = some ⟨v, 0, 0x80, 0xBF⟩ := by
  rw [lead?, toNat_ofNat (by omega)]
  simp [h]

theorem lead?_two (hlow : 0x80 ≤ v) (hhigh : v < 0x800) :
    lead? (UInt8.ofNat (v / 64 % 32 + 0xC0)) = some ⟨v / 64, 1, 0x80, 0xBF⟩ := by
  have hbits : v / 64 % 32 = v / 64 := by omega
  rw [lead?, toNat_ofNat (by omega), hbits]
  rw [if_neg (by omega), if_neg (by omega), if_pos (by omega)]
  simp

/-- Where the first continuation has narrower bounds, the overlong and the surrogate numbers are
what these leave out. -/
theorem lead?_three (hlow : 0x800 ≤ v) (hhigh : v < 0x10000) (hvalid : v < 0xD800 ∨ 0xDFFF < v) :
    ∃ low high, lead? (UInt8.ofNat (v / 4096 % 16 + 0xE0)) = some ⟨v / 4096, 2, low, high⟩ ∧
      low ≤ v / 64 % 64 + 0x80 ∧ v / 64 % 64 + 0x80 ≤ high := by
  have hbits : v / 4096 % 16 = v / 4096 := by omega
  rw [lead?, toNat_ofNat (by omega), hbits]
  rw [if_neg (by omega), if_neg (by omega), if_neg (by omega)]
  by_cases hfirst : v / 4096 = 0
  · exact ⟨0xA0, 0xBF, by simp [hfirst], by omega, by omega⟩
  · rw [if_neg (by omega)]
    by_cases hsurrogate : v / 4096 = 0xD
    · exact ⟨0x80, 0x9F, by simp [hsurrogate], by omega, by omega⟩
    · rw [if_neg (by omega), if_pos (by omega)]
      exact ⟨0x80, 0xBF, by simp, by omega, by omega⟩

theorem lead?_four (hlow : 0x10000 ≤ v) (hhigh : v < 0x110000) :
    ∃ low high, lead? (UInt8.ofNat (v / 262144 % 8 + 0xF0)) = some ⟨v / 262144, 3, low, high⟩ ∧
      low ≤ v / 4096 % 64 + 0x80 ∧ v / 4096 % 64 + 0x80 ≤ high := by
  have hbits : v / 262144 % 8 = v / 262144 := by omega
  rw [lead?, toNat_ofNat (by omega), hbits]
  rw [if_neg (by omega), if_neg (by omega), if_neg (by omega), if_neg (by omega),
    if_neg (by omega), if_neg (by omega)]
  by_cases hfirst : v / 262144 = 0
  · exact ⟨0x90, 0xBF, by simp [hfirst], by omega, by omega⟩
  · rw [if_neg (by omega)]
    by_cases hlast : v / 262144 = 4
    · exact ⟨0x80, 0x8F, by simp [hlast], by omega, by omega⟩
    · rw [if_pos (by omega)]
      exact ⟨0x80, 0xBF, by simp, by omega, by omega⟩

end

theorem Completes.finish {low high acc n : Nat} (h : acc = n) :
    Completes 0 low high acc [] n := by
  rw [h]
  exact .done ..

/-- The encoding of a character is a leading byte and bytes that complete the character. -/
theorem exists_lead (c : Char) : ∃ b bs l, String.utf8EncodeChar c = b :: bs ∧
    lead? b = some l ∧ Completes l.more l.low l.high l.bits bs c.toNat := by
  have hvalid : c.toNat < 0xD800 ∨ 0xDFFF < c.toNat ∧ c.toNat < 0x110000 := c.valid
  have hval : c.val.toNat = c.toNat := rfl
  simp only [String.utf8EncodeChar, hval]
  generalize c.toNat = v at hvalid ⊢
  split
  · exact ⟨_, _, _, rfl, lead?_one (by omega), .finish rfl⟩
  · split
    · refine ⟨_, _, _, rfl, lead?_two (by omega) (by omega), ?_⟩
      dsimp only
      apply Completes.tail v (by omega) (by omega)
      exact .finish (by omega)
    · split
      · obtain ⟨low, high, hlead, hlow, hhigh⟩ :=
          lead?_three (v := v) (by omega) (by omega) (by omega)
        refine ⟨_, _, _, rfl, hlead, ?_⟩
        dsimp only
        apply Completes.tail (v / 64) hlow hhigh
        apply Completes.tail v (by omega) (by omega)
        exact .finish (by omega)
      · obtain ⟨low, high, hlead, hlow, hhigh⟩ := lead?_four (v := v) (by omega) (by omega)
        refine ⟨_, _, _, rfl, hlead, ?_⟩
        dsimp only
        apply Completes.tail (v / 4096) hlow hhigh
        apply Completes.tail (v / 64) (by omega) (by omega)
        apply Completes.tail v (by omega) (by omega)
        exact .finish (by omega)

theorem decode_of_char {b : UInt8} {bs rest : Bytes} {c : Char} (h : piece b bs = .char c rest) :
    decode (b :: bs) = c :: decode rest := by
  rw [decode]
  split <;> simp_all

theorem decode_of_cut {b : UInt8} {bs : Bytes} (h : piece b bs = .cut) :
    decode (b :: bs) = ['\uFFFD'] := by
  rw [decode]
  split <;> simp_all

/-- The bytes of a character are taken as that character, and a part of them as one cut off. -/
theorem exists_piece (c : Char) : ∃ b bs, String.utf8EncodeChar c = b :: bs ∧
    (∀ rest, piece b (bs ++ rest) = .char c rest) ∧
    ∀ k, k < bs.length → piece b (bs.take k) = .cut := by
  obtain ⟨b, bs, l, hbytes, hlead, hbs⟩ := exists_lead c
  refine ⟨b, bs, hbytes, fun rest => ?_, fun k hk => ?_⟩
  · rw [piece, hlead]
    exact (hbs.continuation_append rest).trans (by rw [Char.ofNat_toNat])
  · rw [piece, hlead]
    exact hbs.continuation_take hk

theorem decode_encodeChar_append (c : Char) (bs : Bytes) :
    decode (String.utf8EncodeChar c ++ bs) = c :: decode bs := by
  obtain ⟨b, tail, hbytes, hwhole, -⟩ := exists_piece c
  rw [hbytes, List.cons_append, decode_of_char (hwhole bs)]

/-- A character that is cut off decodes to one replacement character. -/
theorem decode_take_encodeChar (c : Char) {k : Nat} (hpos : 0 < k)
    (hlt : k < (String.utf8EncodeChar c).length) :
    decode ((String.utf8EncodeChar c).take k) = ['\uFFFD'] := by
  obtain ⟨b, tail, hbytes, -, hcut⟩ := exists_piece c
  rw [hbytes] at hlt ⊢
  obtain ⟨k, rfl⟩ := Nat.exists_eq_succ_of_ne_zero (Nat.ne_of_gt hpos)
  rw [List.take_succ_cons, decode_of_cut (hcut k (by simpa using hlt))]

/-- A byte of ASCII stands only for the character of that number. -/
theorem toNat_eq_of_mem_encodeChar {c : Char} {b : UInt8} (h : b ∈ String.utf8EncodeChar c)
    (hb : b.toNat < 0x80) : c.toNat = b.toNat := by
  have hbyte : ∀ {n : Nat}, n < 256 → b = UInt8.ofNat n → n = b.toNat := by
    rintro n hn rfl
    exact (toNat_ofNat hn).symm
  have hval : c.val.toNat = c.toNat := rfl
  simp only [String.utf8EncodeChar, hval] at h
  generalize c.toNat = v at h ⊢
  split at h
  · exact hbyte (by omega) (List.mem_singleton.mp h)
  · -- The other encodings have leads and continuations only, all of them beyond ASCII.
    exfalso
    split at h
    · simp only [List.mem_cons, List.not_mem_nil, or_false] at h
      rcases h with h | h <;> have := hbyte (by omega) h <;> omega
    · split at h
      · simp only [List.mem_cons, List.not_mem_nil, or_false] at h
        rcases h with h | h | h <;> have := hbyte (by omega) h <;> omega
      · simp only [List.mem_cons, List.not_mem_nil, or_false] at h
        rcases h with h | h | h | h <;> have := hbyte (by omega) h <;> omega

@[simp] theorem encode_nil : encode [] = [] := rfl

@[simp] theorem encode_cons (c : Char) (t : Text) :
    encode (c :: t) = String.utf8EncodeChar c ++ encode t := rfl

theorem encode_append (t u : Text) : encode (t ++ u) = encode t ++ encode u :=
  List.flatMap_append

theorem decode_encode_append (t : Text) (bs : Bytes) :
    decode (encode t ++ bs) = t ++ decode bs := by
  induction t with
  | nil => rfl
  | cons c t ih => rw [encode_cons, List.append_assoc, decode_encodeChar_append, ih]; rfl

/-- A text that is encoded and decoded stays what it is. -/
theorem decode_encode (t : Text) : decode (encode t) = t := by
  have h := decode_encode_append t []
  have hnil : decode [] = [] := by rw [decode]
  rwa [hnil, List.append_nil, List.append_nil] at h

/-! ## Byte offsets and character offsets -/

/-- The number of bytes before a character. -/
def bytesBefore (t : Text) (k : Nat) : Nat := (encode (t.take k)).length

/-- The number of characters that begin before a byte. -/
def charsBefore : Text → Nat → Nat
  | [], _ => 0
  | c :: t, b => if b = 0 then 0 else charsBefore t (b - c.utf8Size) + 1

@[simp] theorem bytesBefore_zero (t : Text) : bytesBefore t 0 = 0 := by simp [bytesBefore]

@[simp] theorem bytesBefore_succ_cons (c : Char) (t : Text) (k : Nat) :
    bytesBefore (c :: t) (k + 1) = c.utf8Size + bytesBefore t k := by
  simp [bytesBefore]

@[simp] theorem charsBefore_zero (t : Text) : charsBefore t 0 = 0 := by
  cases t <;> simp [charsBefore]

/-- A character begins where the bytes of those before it end. -/
theorem charsBefore_eq_countP (t : Text) (b : Nat) :
    charsBefore t b = (List.range t.length).countP fun k => bytesBefore t k < b := by
  induction t generalizing b with
  | nil => rfl
  | cons c t ih =>
    rw [charsBefore, List.length_cons, List.range_succ_eq_map, List.countP_cons, List.countP_map]
    by_cases hb : b = 0
    · simp [hb]
    · have hrest : ((fun k => decide (bytesBefore (c :: t) k < b)) ∘ Nat.succ) =
          fun k => decide (bytesBefore t k < b - c.utf8Size) := by
        funext k
        rw [Function.comp_apply, Nat.succ_eq_add_one, bytesBefore_succ_cons, decide_eq_decide]
        omega
      rw [hrest, ih]
      simp [hb, Nat.pos_of_ne_zero hb]

theorem charsBefore_le_length (t : Text) (b : Nat) : charsBefore t b ≤ t.length := by
  induction t generalizing b with
  | nil => simp [charsBefore]
  | cons c t ih =>
    rw [charsBefore]
    split
    · exact Nat.zero_le _
    · exact Nat.succ_le_succ (ih _)

theorem charsBefore_mono (t : Text) {a b : Nat} (h : a ≤ b) :
    charsBefore t a ≤ charsBefore t b := by
  induction t generalizing a b with
  | nil => simp [charsBefore]
  | cons c t ih =>
    rw [charsBefore, charsBefore]
    split
    · exact Nat.zero_le _
    · rw [if_neg (by omega)]
      exact Nat.succ_le_succ (ih (by omega))

/-- The characters that begin before a byte are those before an earlier boundary and those between
the two. -/
theorem charsBefore_eq_add {t : Text} {k b : Nat} (hk : k ≤ t.length) (hb : bytesBefore t k ≤ b) :
    charsBefore t b = k + charsBefore (t.drop k) (b - bytesBefore t k) := by
  induction t generalizing k b with
  | nil =>
    obtain rfl : k = 0 := by simpa using hk
    simp
  | cons c t ih =>
    cases k with
    | zero => simp
    | succ k =>
      have hsize := c.utf8Size_pos
      rw [bytesBefore_succ_cons] at hb ⊢
      rw [charsBefore, if_neg (by omega), ih (by simpa using hk) (by omega), List.drop_succ_cons,
        Nat.sub_sub]
      omega

theorem charsBefore_bytesBefore {t : Text} {k : Nat} (hk : k ≤ t.length) :
    charsBefore t (bytesBefore t k) = k := by
  rw [charsBefore_eq_add hk (Nat.le_refl _), Nat.sub_self, charsBefore_zero, Nat.add_zero]

theorem drop_bytesBefore_encode (t : Text) (k : Nat) :
    (encode t).drop (bytesBefore t k) = encode (t.drop k) := by
  have hsplit : encode t = encode (t.take k) ++ encode (t.drop k) := by
    rw [← encode_append, List.take_append_drop]
  rw [hsplit, bytesBefore, List.drop_left]

theorem take_bytesBefore_encode (t : Text) (k : Nat) :
    (encode t).take (bytesBefore t k) = encode (t.take k) := by
  have hsplit : encode t = encode (t.take k) ++ encode (t.drop k) := by
    rw [← encode_append, List.take_append_drop]
  rw [hsplit, bytesBefore, List.take_left]

theorem bytesBefore_le_length (t : Text) (k : Nat) : bytesBefore t k ≤ (encode t).length := by
  have hsplit := congrArg List.length (take_bytesBefore_encode t k)
  rw [List.length_take, ← bytesBefore] at hsplit
  omega

/-- A beginning of an encoded text decodes to as many characters as begin in it. -/
theorem length_decode_take_encode (t : Text) (b : Nat) :
    (decode ((encode t).take b)).length = charsBefore t b := by
  have hnil : decode [] = [] := by rw [decode]
  induction t generalizing b with
  | nil => simp [hnil, charsBefore]
  | cons c t ih =>
    have hsize : (String.utf8EncodeChar c).length = c.utf8Size := String.length_utf8EncodeChar c
    rw [encode_cons, charsBefore]
    by_cases hb : b = 0
    · simp [hb, hnil]
    · rw [if_neg hb]
      rcases Nat.lt_or_ge b c.utf8Size with hlt | hge
      · have hcut : b - c.utf8Size = 0 := by omega
        rw [List.take_append_of_le_length (by omega),
          decode_take_encodeChar c (by omega) (by omega), hcut, charsBefore_zero]
        rfl
      · rw [List.take_append, List.take_of_length_le (by omega), decode_encodeChar_append, hsize,
          List.length_cons, ih]

/-- A text with as many bytes as characters has one byte for each. -/
theorem charsBefore_eq_self {t : Text} (h : (encode t).length = t.length) {b : Nat}
    (hb : b ≤ t.length) : charsBefore t b = b := by
  have hle : ∀ u : Text, u.length ≤ (encode u).length := by
    intro u
    induction u with
    | nil => simp
    | cons c u ih =>
      have hsize := c.utf8Size_pos
      simp only [encode_cons, List.length_append, String.length_utf8EncodeChar, List.length_cons]
      omega
  have hsplit : (encode t).length = (encode (t.take b)).length + (encode (t.drop b)).length := by
    rw [← List.length_append, ← encode_append, List.take_append_drop]
  have htake := hle (t.take b)
  have hdrop := hle (t.drop b)
  rw [List.length_take] at htake
  rw [List.length_drop] at hdrop
  have hbytes : bytesBefore t b = b := by
    rw [bytesBefore]
    omega
  rw [← hbytes, charsBefore_bytesBefore hb, hbytes]

end CodeChunks.Utf8
