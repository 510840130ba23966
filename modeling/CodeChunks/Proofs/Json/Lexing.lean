import CodeChunks.Json.Write
import CodeChunks.Proofs.Json.Numbers
import CodeChunks.Proofs.Json.Strings

/-! # The tokens of a written document

The text of each token is taken back to the token, up to the separator after a number. -/
namespace CodeChunks.Json

namespace Token

theorem ofText_of_scan {c : Char} {t r : Text} {x : Token} (hc : isSpace c = false)
    (h : scan c t = some (x, r)) : ofText (c :: t) = x :: ofText r := by
  rw [ofText, hc]
  simp only [Bool.false_eq_true, if_false]
  split <;> simp_all

theorem ofText_space (t : Text) : ofText (' ' :: t) = ofText t := by
  rw [ofText]
  rfl

/-- A token other than a leaf and junk. -/
def IsMark : Token → Prop
  | .leaf _ => False
  | .junk => False
  | _ => True

theorem ofText_mark {x : Token} (hx : IsMark x) (r : Text) :
    ofText (x.text ++ r) = x :: ofText r := by
  cases x with
  | leaf v => exact hx.elim
  | junk => exact hx.elim
  | arrOpen => exact ofText_of_scan rfl rfl
  | arrClose => exact ofText_of_scan rfl rfl
  | objOpen => exact ofText_of_scan rfl rfl
  | objClose => exact ofText_of_scan rfl rfl
  | comma => exact (ofText_of_scan rfl rfl).trans (congrArg _ (ofText_space r))
  | colon => exact (ofText_of_scan rfl rfl).trans (congrArg _ (ofText_space r))

theorem ofText_string (s : String) (r : Text) :
    ofText ((leaf (.str s)).text ++ r) = .leaf (.str s) :: ofText r := by
  have htext : (leaf (.str s)).text ++ r = '"' :: (s.toList.flatMap escaped ++ '"' :: r) := by
    simp [text, leafText, quotedString]
  have hscan : scan '"' (s.toList.flatMap escaped ++ '"' :: r) = some (.leaf (.str s), r) := by
    have h : scan '"' (s.toList.flatMap escaped ++ '"' :: r) =
        (stringUnits (s.toList.flatMap escaped ++ '"' :: r)).map fun r =>
          (.leaf (.str (String.ofList (joinUnits r.1))), r.2) := rfl
    rw [h, stringUnits_flatMap_escaped, Option.map_some, joinUnits_flatMap_units,
      String.ofList_toList]
  rw [htext, ofText_of_scan rfl hscan]

/-- What begins as a number is scanned as one. -/
theorem ofText_number {t r : Text} {n : Number} (h : Number.read t = some (n, [])) (hr : Stops r) :
    ofText (t ++ r) = .leaf (ofNumber n) :: ofText r := by
  cases t with
  | nil => cases h
  | cons c t =>
    have hread : Number.read (c :: (t ++ r)) = some (n, r) := by
      have happend := Number.read_append hr (c :: t)
      rwa [h] at happend
    have hne : ∀ d : Char, d.isDigit = false ∧ d ≠ '-' ∧ d ≠ 'N' ∧ d ≠ 'I' → c ≠ d := by
      rintro d ⟨hdigit, hminus, hn, hi⟩ rfl
      rcases Number.head_of_read h with hc | hc | hc | hc
      · exact Bool.noConfusion (hc.symm.trans hdigit)
      · exact hminus hc
      · exact hn hc
      · exact hi hc
    have hspace : isSpace c = false := by
      simp [isSpace, hne ' ' (by decide), hne '\t' (by decide), hne '\n' (by decide),
        hne '\r' (by decide)]
    have hscan : scan c (t ++ r) = some (.leaf (ofNumber n), r) := by
      rw [scan, if_neg (hne '[' (by decide)), if_neg (hne ']' (by decide)),
        if_neg (hne '\x7b' (by decide)), if_neg (hne '\x7d' (by decide)),
        if_neg (hne ',' (by decide)), if_neg (hne ':' (by decide)), if_neg (hne '"' (by decide)),
        if_neg (hne 'n' (by decide)), if_neg (hne 't' (by decide)), if_neg (hne 'f' (by decide)),
        hread]
      rfl
    exact ofText_of_scan hspace hscan

theorem ofNumber_value (x : Real64) : ofNumber (.float x.value) = .float x := by
  rw [ofNumber, ofFloat, dif_pos x.reads]

end Token

/-- A value that is neither an array nor an object. -/
def IsLeaf : Json → Prop
  | .arr _ => False
  | .obj _ => False
  | _ => True

theorem ofText_leaf {v : Json} (hv : IsLeaf v) {r : Text} (hr : Stops r) :
    Token.ofText ((Token.leaf v).text ++ r) = .leaf v :: Token.ofText r := by
  have hword : ∀ (w : Text) (v : Json), Token.word w v (w ++ r) = some (.leaf v, r) := by
    intro w v
    rw [Token.word, if_pos (Text.startsWith_iff.mpr (List.prefix_append w r)), List.drop_left]
  cases v with
  | null => exact Token.ofText_of_scan rfl (hword "ull".toList .null)
  | bool b =>
    cases b with
    | false => exact Token.ofText_of_scan rfl (hword "alse".toList (.bool false))
    | true => exact Token.ofText_of_scan rfl (hword "rue".toList (.bool true))
  | int n => exact Token.ofText_number (Number.read_integerText n) hr
  | float x =>
    have h := Token.ofText_number x.reads hr
    rwa [Token.ofNumber_value] at h
  | str s => exact Token.ofText_string s r
  | arr xs => exact hv.elim
  | obj fs => exact hv.elim

theorem ofText_tokens_leaf (v : Json) (hv : IsLeaf v) (htokens : tokens v = [.leaf v]) {r : Text}
    (hr : Stops r) :
    Token.ofText ((tokens v).flatMap Token.text ++ r) = tokens v ++ Token.ofText r := by
  rw [htokens, List.flatMap_singleton]
  exact ofText_leaf hv hr

mutual

/-- A document is taken back to its tokens. -/
theorem ofText_tokens (v : Json) {r : Text} (hr : Stops r) :
    Token.ofText ((tokens v).flatMap Token.text ++ r) = tokens v ++ Token.ofText r := by
  match v with
  | .null => exact ofText_tokens_leaf .null trivial rfl hr
  | .bool b => exact ofText_tokens_leaf (.bool b) trivial rfl hr
  | .int n => exact ofText_tokens_leaf (.int n) trivial rfl hr
  | .float x => exact ofText_tokens_leaf (.float x) trivial rfl hr
  | .str s => exact ofText_tokens_leaf (.str s) trivial rfl hr
  | .arr xs =>
    rw [tokens, List.flatMap_cons, List.append_assoc, Token.ofText_mark (x := .arrOpen) trivial,
      ofText_itemTokens xs r]
    rfl
  | .obj fs =>
    rw [tokens, List.flatMap_cons, List.append_assoc, Token.ofText_mark (x := .objOpen) trivial,
      ofText_fieldTokens fs r]
    rfl

theorem ofText_itemTokens (xs : List Json) (r : Text) :
    Token.ofText ((itemTokens xs).flatMap Token.text ++ r) = itemTokens xs ++ Token.ofText r := by
  match xs with
  | [] => exact Token.ofText_mark (x := .arrClose) trivial r
  | [x] =>
    rw [itemTokens, List.flatMap_append, List.append_assoc, List.append_assoc,
      List.flatMap_singleton, ofText_tokens x (r := Token.arrClose.text ++ r) (stops_bracket r),
      Token.ofText_mark (x := .arrClose) trivial]
    rfl
  | x :: y :: xs =>
    rw [itemTokens, List.flatMap_append, List.append_assoc, List.append_assoc, List.flatMap_cons,
      List.append_assoc, ofText_tokens x (r := Token.comma.text ++ _) (stops_comma _),
      Token.ofText_mark (x := .comma) trivial, ofText_itemTokens (y :: xs) r]
    rfl

theorem ofText_fieldTokens (fs : Fields) (r : Text) :
    Token.ofText ((fieldTokens fs).flatMap Token.text ++ r) = fieldTokens fs ++ Token.ofText r := by
  match fs with
  | [] => exact Token.ofText_mark (x := .objClose) trivial r
  | [(k, v)] =>
    rw [fieldTokens, List.cons_append, List.flatMap_cons, List.append_assoc, Token.ofText_string,
      List.cons_append, List.flatMap_cons, List.append_assoc,
      Token.ofText_mark (x := .colon) trivial, List.flatMap_append, List.append_assoc,
      List.flatMap_singleton, ofText_tokens v (r := Token.objClose.text ++ r) (stops_brace r),
      Token.ofText_mark (x := .objClose) trivial]
    simp
  | (k, v) :: f :: fs =>
    rw [fieldTokens, List.cons_append, List.flatMap_cons, List.append_assoc, Token.ofText_string,
      List.cons_append, List.flatMap_cons, List.append_assoc,
      Token.ofText_mark (x := .colon) trivial, List.flatMap_append, List.append_assoc,
      List.flatMap_cons, List.append_assoc,
      ofText_tokens v (r := Token.comma.text ++ _) (stops_comma _),
      Token.ofText_mark (x := .comma) trivial, ofText_fieldTokens (f :: fs) r]
    simp

end

/-- A written document has the tokens that it was written with. -/
theorem ofText_write (v : Json) : Token.ofText (write v) = tokens (sorted v) := by
  have h := ofText_tokens (sorted v) stops_nil
  have hnil : Token.ofText [] = [] := by rw [Token.ofText]
  rwa [List.append_nil, hnil, List.append_nil] at h

end CodeChunks.Json
