import CodeChunks.Json.Value

/-! # Tokens of documents -/
namespace CodeChunks.Json

/-- A token of a document; a leaf is a value that is no array and no object. Junk stands for a rest
of the text that begins with no token. -/
inductive Token where
  | leaf (v : Json)
  | arrOpen
  | arrClose
  | objOpen
  | objClose
  | comma
  | colon
  | junk

namespace Token

/-- The two halves that a character beyond the first plane is escaped as, or its own number. -/
def units (c : Char) : List Nat :=
  let n := c.toNat
  if n < 0x10000 then [n] else [0xD800 + (n - 0x10000) / 0x400, 0xDC00 + (n - 0x10000) % 0x400]

def escaped (c : Char) : Text :=
  if c = '"' ∨ c = '\\' then ['\\', c]
  else if c = '\n' then ['\\', 'n']
  else if c = '\r' then ['\\', 'r']
  else if c = '\t' then ['\\', 't']
  else if c = '\x0c' then ['\\', 'f']
  else if c = '\x08' then ['\\', 'b']
  else if 32 ≤ c.toNat ∧ c.toNat < 127 then [c]
  else (units c).flatMap fun u => '\\' :: 'u' :: Text.hex 4 u

def quotedString (t : Text) : Text := '"' :: t.flatMap escaped ++ ['"']

def integerText (n : Int) : Text :=
  (if n < 0 then ['-'] else []) ++ Binary64.digits n.natAbs

def leafText : Json → Text
  | .null => "null".toList
  | .bool b => if b then "true".toList else "false".toList
  | .int n => integerText n
  | .float x => Binary64.toText x.value
  | .str s => quotedString s.toList
  | .arr _ => []
  | .obj _ => []

/-- Commas and colons are followed by a space. -/
def text : Token → Text
  | .leaf v => leafText v
  | .arrOpen => ['[']
  | .arrClose => [']']
  | .objOpen => ['\x7b']
  | .objClose => ['\x7d']
  | .comma => [',', ' ']
  | .colon => [':', ' ']
  | .junk => []

def isSpace (c : Char) : Bool := c == ' ' || c == '\t' || c == '\n' || c == '\r'

def hex4? (a b c d : Char) : Option Nat := do
  let a ← Text.hexValue? a
  let b ← Text.hexValue? b
  let c ← Text.hexValue? c
  let d ← Text.hexValue? d
  return ((a * 16 + b) * 16 + c) * 16 + d

def escapedChar? (c : Char) : Option Char :=
  if c = '"' ∨ c = '\\' ∨ c = '/' then some c
  else if c = 'n' then some '\n'
  else if c = 'r' then some '\r'
  else if c = 't' then some '\t'
  else if c = 'f' then some '\x0c'
  else if c = 'b' then some '\x08'
  else none

/-- What stands before the closing quote, as character numbers and halves, and what follows it. -/
def stringUnits : Text → Option (List Nat × Text)
  | [] => none
  | '"' :: t => some ([], t)
  | '\\' :: 'u' :: a :: b :: c :: d :: t => do
    let u ← hex4? a b c d
    let r ← stringUnits t
    return (u :: r.1, r.2)
  | '\\' :: c :: t => do
    let c ← escapedChar? c
    let r ← stringUnits t
    return (c.toNat :: r.1, r.2)
  | c :: t =>
    if c.toNat < 32 then none else (stringUnits t).map fun r => (c.toNat :: r.1, r.2)

/-- A half that stands alone is replaced. -/
def unitChar (u : Nat) : Char :=
  if 0xD800 ≤ u ∧ u < 0xE000 then '\uFFFD' else Char.ofNat u

def isHigh (u : Nat) : Bool := 0xD800 ≤ u && u < 0xDC00

def isLow (u : Nat) : Bool := 0xDC00 ≤ u && u < 0xE000

/-- The characters of a sequence of numbers in which two halves in order make one character. -/
def joinUnits : List Nat → Text
  | [] => []
  | [u] => [unitChar u]
  | u :: v :: us =>
    if isHigh u && isLow v then
      Char.ofNat (0x10000 + (u - 0xD800) * 0x400 + (v - 0xDC00)) :: joinUnits us
    else unitChar u :: joinUnits (v :: us)

def word (w : Text) (v : Json) (t : Text) : Option (Token × Text) :=
  if t.startsWith w then some (.leaf v, t.drop w.length) else none

/-- The token at the head of a text and the rest. -/
def scan (c : Char) (t : Text) : Option (Token × Text) :=
  if c = '[' then some (.arrOpen, t)
  else if c = ']' then some (.arrClose, t)
  else if c = '\x7b' then some (.objOpen, t)
  else if c = '\x7d' then some (.objClose, t)
  else if c = ',' then some (.comma, t)
  else if c = ':' then some (.colon, t)
  else if c = '"' then
    (stringUnits t).map fun r => (.leaf (.str (String.ofList (joinUnits r.1))), r.2)
  else if c = 'n' then word "ull".toList .null t
  else if c = 't' then word "rue".toList (.bool true) t
  else if c = 'f' then word "alse".toList (.bool false) t
  else (Number.read (c :: t)).map fun r => (.leaf (ofNumber r.1), r.2)

theorem stringUnits_length_le {t : Text} {r : List Nat × Text} (h : stringUnits t = some r) :
    r.2.length ≤ t.length := by
  fun_induction stringUnits t generalizing r with
  | case1 => simp at h
  | case2 => simp at h; subst h; simp
  | case3 a b c d t ih =>
    simp only [bind, Option.bind_eq_some_iff, pure, Option.some.injEq] at h
    obtain ⟨_, _, s, hs, rfl⟩ := h
    have := ih hs
    simp only [List.length_cons]; omega
  | case4 c t _ ih =>
    simp only [bind, Option.bind_eq_some_iff, pure, Option.some.injEq] at h
    obtain ⟨_, _, s, hs, rfl⟩ := h
    have := ih hs
    simp only [List.length_cons]; omega
  | case5 => simp at h
  | case6 c t _ _ _ _ ih =>
    simp only [Option.map_eq_some_iff] at h
    obtain ⟨s, hs, rfl⟩ := h
    have := ih hs
    simp only [List.length_cons]; omega

private theorem spanDigits_length_le (t : Text) : (Number.spanDigits t).2.length ≤ t.length :=
  (List.dropWhile_suffix _).length_le

private theorem whole_length_lt {t ds u : Text} (h : Number.whole t = some (ds, u)) :
    u.length < t.length := by
  revert h
  fun_cases Number.whole t with
  | case1 v =>
    intro h
    cases h
    simp
  | case2 c v _ hdigit =>
    intro h
    have hspan := congrArg Prod.snd (Option.some.inj h)
    simp only [Number.spanDigits, List.dropWhile_cons_of_pos hdigit] at hspan
    have := (List.dropWhile_suffix (l := v) Char.isDigit).length_le
    rw [hspan] at this
    simp only [List.length_cons]
    omega
  | case3 => nofun
  | case4 => nofun

private theorem places_length_le (t : Text) : (Number.places t).2.length ≤ t.length := by
  fun_cases Number.places t with
  | case1 => simp
  | case2 u =>
    have := spanDigits_length_le u
    simp only [List.length_cons]
    omega
  | case3 => simp

private theorem exponentSign_length_le (t : Text) :
    (Number.exponentSign t).2.length ≤ t.length := by
  unfold Number.exponentSign
  split <;> simp

private theorem exponent_length_le (t : Text) : (Number.exponent t).2.length ≤ t.length := by
  unfold Number.exponent
  cases t with
  | nil => simp
  | cons c u =>
    have h₁ := exponentSign_length_le u
    have h₂ := spanDigits_length_le (Number.exponentSign u).2
    simp only [List.length_cons]
    split
    · split
      · simp
      · simp only
        omega
    · simp

theorem readUnsigned_length_lt {negative : Bool} {t : Text} {r : Number × Text}
    (h : Number.readUnsigned negative t = some r) : r.2.length < t.length := by
  unfold Number.readUnsigned at h
  cases hwhole : Number.whole t with
  | none =>
    rw [hwhole] at h
    cases h
  | some p =>
    obtain ⟨ws, u⟩ := p
    have hu := whole_length_lt hwhole
    have h₁ := places_length_le u
    have h₂ := exponent_length_le (Number.places u).2
    rw [hwhole] at h
    simp only at h
    split at h <;> · simp only [Option.some.injEq] at h; subst h; simp only; omega

private theorem readLiteral_length_lt {t : Text} {r : Number × Text}
    (h : Number.readLiteral t = some r) (ht : t ≠ []) : r.2.length < t.length := by
  have hp : 0 < t.length := List.length_pos_iff.mpr ht
  have hword : "Infinity".toList.length = 8 := by decide
  unfold Number.readLiteral at h
  simp only at h
  split at h
  · cases h
    simp only [List.length_drop]
    omega
  · split at h
    · cases h
      simp only [List.length_drop]
      omega
    · split at h
      · cases h
        simp only [List.length_drop]
        omega
      · cases h

theorem number_length_lt {t : Text} {r : Number × Text} (h : Number.read t = some r)
    (ht : t ≠ []) : r.2.length < t.length := by
  unfold Number.read at h
  cases hliteral : Number.readLiteral t with
  | some s =>
    rw [hliteral] at h
    cases h
    exact readLiteral_length_lt hliteral ht
  | none =>
    rw [hliteral] at h
    dsimp only at h
    split at h
    · have := readUnsigned_length_lt h
      simp only [List.length_cons]
      omega
    · exact readUnsigned_length_lt h

theorem scan_length_le {c : Char} {t : Text} {r : Token × Text} (h : scan c t = some r) :
    r.2.length ≤ t.length := by
  have word_le : ∀ {w v}, word w v t = some r → r.2.length ≤ t.length := by
    intro w v hw
    unfold word at hw
    split at hw
    · simp only [Option.some.injEq] at hw; subst hw; simp
    · simp at hw
  unfold scan at h
  split at h
  · simp only [Option.some.injEq] at h; subst h; simp
  split at h
  · simp only [Option.some.injEq] at h; subst h; simp
  split at h
  · simp only [Option.some.injEq] at h; subst h; simp
  split at h
  · simp only [Option.some.injEq] at h; subst h; simp
  split at h
  · simp only [Option.some.injEq] at h; subst h; simp
  split at h
  · simp only [Option.some.injEq] at h; subst h; simp
  split at h
  · simp only [Option.map_eq_some_iff] at h
    obtain ⟨s, hs, rfl⟩ := h
    exact stringUnits_length_le hs
  split at h
  · exact word_le h
  split at h
  · exact word_le h
  split at h
  · exact word_le h
  · simp only [Option.map_eq_some_iff] at h
    obtain ⟨s, hs, rfl⟩ := h
    have := number_length_lt hs (by simp)
    simp only [List.length_cons] at this ⊢
    omega

/-- The tokens of a text, blanks between them left out. -/
def ofText : Text → List Token
  | [] => []
  | c :: t => if isSpace c then ofText t else
    match _h : scan c t with
    | none => [.junk]
    | some r => r.1 :: ofText r.2
termination_by t => t.length
decreasing_by
  · simp
  · have := scan_length_le _h
    simp only [List.length_cons]
    omega

end Token

end CodeChunks.Json
