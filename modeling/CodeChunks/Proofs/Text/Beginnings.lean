import CodeChunks.Proofs.Text.Utf8

/-! # Which bytes begin a text

Bytes that are taken as a character are the encoding of that character, and bytes that are taken as
one cut off can be completed. So what stops decoding tells apart the bytes that some encoded text
begins with from those that none does: only the former lack nothing but what the end cuts off. -/
namespace CodeChunks.Utf8

/-- The bytes are an encoded text as far as it was not cut off. -/
def Begins (bs : Bytes) : Prop := ∃ t n, bs = (encode t).take n

theorem Completes.of_zero {low high acc n : Nat} {bs : Bytes} (h : Completes 0 low high acc bs n) :
    bs = [] ∧ n = acc := by
  cases h
  exact ⟨rfl, rfl⟩

theorem Completes.of_succ {more low high acc n : Nat} {bs : Bytes}
    (h : Completes (more + 1) low high acc bs n) : ∃ b tail, bs = b :: tail ∧
      (low ≤ b.toNat ∧ b.toNat ≤ high) ∧
      Completes more 0x80 0xBF (acc * 64 + b.toNat % 64) tail n := by
  cases h with
  | more hb h => exact ⟨_, _, rfl, hb, h⟩

theorem exists_completes_of_char {more low high acc : Nat} {bs rest : Bytes} {c : Char}
    (h : continuation more low high acc bs = .char c rest) :
    ∃ tail n, bs = tail ++ rest ∧ Completes more low high acc tail n ∧ c = Char.ofNat n := by
  fun_induction continuation more low high acc bs with
  | case1 low high acc bs =>
    cases h
    exact ⟨[], acc, rfl, .done .., rfl⟩
  | case2 => cases h
  | case3 low high acc more b bs hb ih =>
    obtain ⟨tail, n, rfl, htail, hc⟩ := ih h
    exact ⟨b :: tail, n, rfl, .more hb htail, hc⟩
  | case4 => cases h

theorem exists_completes (more : Nat) {low high : Nat} (acc : Nat) (hlow : low ≤ high)
    (hhigh : high < 256) : ∃ bs n, Completes more low high acc bs n := by
  induction more generalizing low high acc with
  | zero => exact ⟨[], acc, .done ..⟩
  | succ more ih =>
    have hbyte : (UInt8.ofNat low).toNat = low := toNat_ofNat (by omega)
    have hrest : ∃ bs n,
        Completes more 0x80 0xBF (acc * 64 + (UInt8.ofNat low).toNat % 64) bs n :=
      ih _ (by decide) (by decide)
    obtain ⟨bs, n, hbs⟩ := hrest
    exact ⟨_, n, .more (by omega) hbs⟩

/-- Bytes that are cut off can be completed. -/
theorem exists_completes_of_cut {more low high acc : Nat} {bs : Bytes} (hlow : low ≤ high)
    (hhigh : high < 256) (h : continuation more low high acc bs = .cut) :
    ∃ tail n, Completes more low high acc (bs ++ tail) n := by
  fun_induction continuation more low high acc bs with
  | case1 => cases h
  | case2 low high acc more => exact exists_completes (more + 1) acc hlow hhigh
  | case3 low high acc more b bs hb ih =>
    obtain ⟨tail, n, htail⟩ := ih (by decide) (by decide) h
    exact ⟨tail, n, .more hb htail⟩
  | case4 => cases h

/-- What a leading byte may announce. The bounds keep the number of the character off what fewer
bytes encode, off the surrogates and below the last code point. -/
inductive Announces (b : UInt8) : Lead → Prop
  | one (hbits : b.toNat < 0x80) : Announces b ⟨b.toNat, 0, 0x80, 0xBF⟩
  | two {bits : Nat} (hb : b.toNat = bits + 0xC0) (hbits : 2 ≤ bits ∧ bits < 32) :
      Announces b ⟨bits, 1, 0x80, 0xBF⟩
  | three {bits low high : Nat} (hb : b.toNat = bits + 0xE0) (hbits : bits < 16)
      (hbounds : 0x80 ≤ low ∧ low ≤ high ∧ high ≤ 0xBF) (hfirst : bits = 0 → 0xA0 ≤ low)
      (hsurrogate : bits = 0xD → high ≤ 0x9F) : Announces b ⟨bits, 2, low, high⟩
  | four {bits low high : Nat} (hb : b.toNat = bits + 0xF0) (hbits : bits ≤ 4)
      (hbounds : 0x80 ≤ low ∧ low ≤ high ∧ high ≤ 0xBF) (hfirst : bits = 0 → 0x90 ≤ low)
      (hlast : bits = 4 → high ≤ 0x8F) : Announces b ⟨bits, 3, low, high⟩

theorem announces_of_lead? {b : UInt8} {l : Lead} (h : lead? b = some l) : Announces b l := by
  rw [lead?] at h
  -- one case for each row of the table
  split at h
  · obtain rfl := Option.some.inj h
    exact .one (by assumption)
  split at h
  · cases h
  split at h
  · obtain rfl := Option.some.inj h
    exact .two (by omega) (by omega)
  split at h
  · obtain rfl := Option.some.inj h
    exact .three (by omega) (by omega) (by omega) (by omega) (by omega)
  split at h
  · obtain rfl := Option.some.inj h
    exact .three (by omega) (by omega) (by omega) (by omega) (by omega)
  split at h
  · obtain rfl := Option.some.inj h
    exact .three (by omega) (by omega) (by omega) (by omega) (by omega)
  split at h
  · obtain rfl := Option.some.inj h
    exact .four (by omega) (by omega) (by omega) (by omega) (by omega)
  split at h
  · obtain rfl := Option.some.inj h
    exact .four (by omega) (by omega) (by omega) (by omega) (by omega)
  split at h
  · obtain rfl := Option.some.inj h
    exact .four (by omega) (by omega) (by omega) (by omega) (by omega)
  · cases h

theorem Announces.bounds {b : UInt8} {l : Lead} (h : Announces b l) :
    l.low ≤ l.high ∧ l.high < 256 := by
  cases h <;> dsimp only <;> omega

theorem encodeChar_ofNat {n : Nat} (h : n.isValidChar) :
    String.utf8EncodeChar (Char.ofNat n) =
      if n ≤ 0x7F then [UInt8.ofNat n]
      else if n ≤ 0x7FF then [UInt8.ofNat (n / 64 % 32 + 0xC0), UInt8.ofNat (n % 64 + 0x80)]
      else if n ≤ 0xFFFF then [UInt8.ofNat (n / 4096 % 16 + 0xE0),
        UInt8.ofNat (n / 64 % 64 + 0x80), UInt8.ofNat (n % 64 + 0x80)]
      else [UInt8.ofNat (n / 262144 % 8 + 0xF0), UInt8.ofNat (n / 4096 % 64 + 0x80),
        UInt8.ofNat (n / 64 % 64 + 0x80), UInt8.ofNat (n % 64 + 0x80)] := by
  have hval : (Char.ofNat n).val.toNat = n := by
    rw [Char.ofNat, dif_pos h]
    rfl
  simp only [String.utf8EncodeChar, hval]

theorem ofNat_eq {n : Nat} {b : UInt8} (h : n = b.toNat) : UInt8.ofNat n = b := by
  rw [h, UInt8.ofNat_toNat]

/-- A leading byte with bytes that complete a character is the encoding of that character. -/
theorem Announces.encodeChar {b : UInt8} {bs : Bytes} {l : Lead} {n : Nat} (hlead : Announces b l)
    (h : Completes l.more l.low l.high l.bits bs n) :
    String.utf8EncodeChar (Char.ofNat n) = b :: bs := by
  cases hlead with
  | one hbits =>
    dsimp only at h
    obtain ⟨rfl, rfl⟩ := h.of_zero
    rw [encodeChar_ofNat (.inl (by omega)), if_pos (by omega), ofNat_eq rfl]
  | two hb hbits =>
    dsimp only at h
    obtain ⟨b₁, _, rfl, h₁, h⟩ := h.of_succ
    obtain ⟨rfl, rfl⟩ := h.of_zero
    rw [encodeChar_ofNat (.inl (by omega)), if_neg (by omega), if_pos (by omega)]
    rw [ofNat_eq (b := b) (by omega), ofNat_eq (b := b₁) (by omega)]
  | three hb hbits hbounds hfirst hsurrogate =>
    dsimp only at h
    obtain ⟨b₁, _, rfl, h₁, h⟩ := h.of_succ
    obtain ⟨b₂, _, rfl, h₂, h⟩ := h.of_succ
    obtain ⟨rfl, rfl⟩ := h.of_zero
    rw [encodeChar_ofNat (by unfold Nat.isValidChar; omega), if_neg (by omega), if_neg (by omega),
      if_pos (by omega)]
    rw [ofNat_eq (b := b) (by omega), ofNat_eq (b := b₁) (by omega), ofNat_eq (b := b₂) (by omega)]
  | four hb hbits hbounds hfirst hlast =>
    dsimp only at h
    obtain ⟨b₁, _, rfl, h₁, h⟩ := h.of_succ
    obtain ⟨b₂, _, rfl, h₂, h⟩ := h.of_succ
    obtain ⟨b₃, _, rfl, h₃, h⟩ := h.of_succ
    obtain ⟨rfl, rfl⟩ := h.of_zero
    rw [encodeChar_ofNat (by unfold Nat.isValidChar; omega), if_neg (by omega), if_neg (by omega),
      if_neg (by omega)]
    rw [ofNat_eq (b := b) (by omega), ofNat_eq (b := b₁) (by omega), ofNat_eq (b := b₂) (by omega),
      ofNat_eq (b := b₃) (by omega)]

/-- Bytes taken as a character are the bytes of that character. -/
theorem encodeChar_of_piece {b : UInt8} {bs rest : Bytes} {c : Char}
    (h : piece b bs = .char c rest) : b :: bs = String.utf8EncodeChar c ++ rest := by
  rw [piece] at h
  cases hlead : lead? b with
  | none =>
    rw [hlead] at h
    cases h
  | some l =>
    rw [hlead] at h
    obtain ⟨tail, n, rfl, htail, rfl⟩ := exists_completes_of_char h
    rw [(announces_of_lead? hlead).encodeChar htail, List.cons_append]

/-- Bytes taken as a character that is cut off are a part of the bytes of one. -/
theorem exists_char_of_cut {b : UInt8} {bs : Bytes} (h : piece b bs = .cut) :
    ∃ c k, b :: bs = (String.utf8EncodeChar c).take k := by
  rw [piece] at h
  cases hlead : lead? b with
  | none =>
    rw [hlead] at h
    cases h
  | some l =>
    rw [hlead] at h
    obtain ⟨hlow, hhigh⟩ := (announces_of_lead? hlead).bounds
    obtain ⟨tail, n, htail⟩ := exists_completes_of_cut hlow hhigh h
    refine ⟨Char.ofNat n, (b :: bs).length, ?_⟩
    rw [(announces_of_lead? hlead).encodeChar htail, ← List.cons_append, List.take_left]

/-! ## Faults -/

theorem fault?_of_char {b : UInt8} {bs rest : Bytes} {c : Char} (start : Nat)
    (h : piece b bs = .char c rest) :
    fault? start (b :: bs) = fault? (start + c.utf8Size) rest := by
  rw [fault?]
  split <;> simp_all

theorem fault?_of_cut {b : UInt8} {bs : Bytes} (start : Nat) (h : piece b bs = .cut) :
    fault? start (b :: bs) = some ⟨start, .endOfData⟩ := by
  rw [fault?]
  split <;> simp_all

@[simp] theorem fault?_nil (start : Nat) : fault? start [] = none := by rw [fault?]

theorem fault?_encodeChar_append (start : Nat) (c : Char) (bs : Bytes) :
    fault? start (String.utf8EncodeChar c ++ bs) = fault? (start + c.utf8Size) bs := by
  obtain ⟨b, tail, hbytes, hwhole, -⟩ := exists_piece c
  rw [hbytes, List.cons_append, fault?_of_char start (hwhole bs)]

theorem fault?_take_encodeChar (start : Nat) (c : Char) {k : Nat} (hpos : 0 < k)
    (hlt : k < c.utf8Size) :
    fault? start ((String.utf8EncodeChar c).take k) = some ⟨start, .endOfData⟩ := by
  obtain ⟨b, tail, hbytes, -, hcut⟩ := exists_piece c
  rw [← String.length_utf8EncodeChar, hbytes] at hlt
  obtain ⟨k, rfl⟩ := Nat.exists_eq_succ_of_ne_zero (Nat.ne_of_gt hpos)
  rw [hbytes, List.take_succ_cons, fault?_of_cut start (hcut k (by simpa using hlt))]

/-- The only fault of a text that is cut off is that bytes are missing, and the character that they
are missing from is begun in the last three bytes. -/
theorem fault?_take_encode (t : Text) (start n : Nat) :
    ∀ f ∈ fault? start ((encode t).take n),
      f.reason = .endOfData ∧ start + ((encode t).take n).length ≤ f.start + 3 := by
  induction t generalizing start n with
  | nil => simp
  | cons c t ih =>
    have hsize : (String.utf8EncodeChar c).length = c.utf8Size := String.length_utf8EncodeChar c
    rw [encode_cons]
    rcases Nat.lt_or_ge n c.utf8Size with hlt | hge
    · rw [List.take_append_of_le_length (by omega)]
      rcases Nat.eq_zero_or_pos n with rfl | hpos
      · simp
      · rw [fault?_take_encodeChar start c hpos hlt, List.length_take]
        have hfour := c.utf8Size_le_four
        rintro _ ⟨rfl⟩
        exact ⟨rfl, by dsimp only; omega⟩
    · rw [List.take_append, List.take_of_length_le (by omega), fault?_encodeChar_append, hsize,
        List.length_append, hsize]
      intro f hf
      obtain ⟨hreason, hstart⟩ := ih (start + c.utf8Size) (n - c.utf8Size) f hf
      exact ⟨hreason, by omega⟩

/-- Bytes that lack nothing but what the end cuts off begin a text. -/
theorem begins_of_fault? (start : Nat) (bs : Bytes)
    (h : ∀ f ∈ fault? start bs, f.reason = .endOfData) : Begins bs := by
  fun_induction fault? start bs with
  | case1 => exact ⟨[], 0, rfl⟩
  | case2 start b bs c rest hpiece ih =>
    obtain ⟨t, n, ht⟩ := ih h
    refine ⟨c :: t, (String.utf8EncodeChar c).length + n, ?_⟩
    rw [encodeChar_of_piece hpiece, ht, encode_cons, List.take_length_add_append]
  | case3 => cases h _ rfl
  | case4 start b bs hpiece =>
    obtain ⟨c, k, hc⟩ := exists_char_of_cut hpiece
    exact ⟨[c], k, by rw [hc, encode_cons, encode_nil, List.append_nil]⟩

end CodeChunks.Utf8
