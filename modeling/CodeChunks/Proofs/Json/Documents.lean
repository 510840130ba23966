import CodeChunks.Json.Read
import CodeChunks.Proofs.Assoc
import CodeChunks.Proofs.Json.Lexing

/-! # Documents that are written are read back

Reading what was written gives the document with its keys in order, which is the same value. -/
namespace CodeChunks

theorem Assoc.ofList_eq_self {κ β : Type} [DecidableEq κ] {m : List (κ × β)}
    (hm : (keys m).Nodup) : ofList m = m := by
  have hfold : ∀ done : List (κ × β), (keys (done ++ m)).Nodup →
      m.foldl (fun m p => insert p.1 p.2 m) done = done ++ m := by
    induction m with
    | nil => exact fun done _ => (List.append_nil done).symm
    | cons p m ih =>
      intro done hdone
      have hnew : p.1 ∉ keys done := by
        rw [keys, List.map_append, List.nodup_append] at hdone
        intro hmem
        exact hdone.2.2 p.1 hmem p.1 List.mem_cons_self rfl
      have hassoc : done ++ p :: m = (done ++ [p]) ++ m := by simp
      rw [List.foldl_cons, insert_of_notMem p.2 hnew, hassoc]
      rw [hassoc] at hdone
      exact ih (List.nodup_cons.mp hm).2 _ hdone
  exact hfold [] hm

namespace Json

theorem not_any_le {d? : Option Nat} {depth : Nat} (h : ∀ d ∈ d?, depth < d) :
    ¬ d?.any (· ≤ depth) := by
  rw [Option.any_eq_true]
  rintro ⟨d, hd, hle⟩
  exact Nat.not_le.mpr (h d hd) (of_decide_eq_true hle)

/-- Inside so many arrays and objects a document stays within the limits; the keys of its objects
differ, and every number in it is a number. -/
inductive Readable (l : Limits) : Nat → Json → Prop
  | null (depth : Nat) : Readable l depth .null
  | bool (depth : Nat) (b : Bool) : Readable l depth (.bool b)
  | int (depth : Nat) (n : Int)
      (h : l.digits → n.natAbs < Nat.pow 10 Numeral.maxDigits) : Readable l depth (.int n)
  | float (depth : Nat) (x : Real64) (h : x.value == x.value) : Readable l depth (.float x)
  | str (depth : Nat) (s : String) : Readable l depth (.str s)
  | arr (depth : Nat) (xs : List Json) (hdepth : ∀ d ∈ l.depth, depth < d)
      (h : ∀ x ∈ xs, Readable l (depth + 1) x) : Readable l depth (.arr xs)
  | obj (depth : Nat) (fs : Fields) (hdepth : ∀ d ∈ l.depth, depth < d)
      (hkeys : (Assoc.keys fs).Nodup) (h : ∀ f ∈ fs, Readable l (depth + 1) f.2) :
      Readable l depth (.obj fs)

namespace Reader

variable {l : Limits}

theorem run_cons (r : Reader) (t : Token) (ts : List Token) :
    r.run l (t :: ts) = (r.step l t).bind fun r => r.run l ts := by
  rw [run, List.foldlM_cons]
  rfl

/-- Inside so many frames, the tokens of a value bring the reader behind the value. -/
def Reads (l : Limits) (depth : Nat) (v : Json) : Prop :=
  ∀ stack ts, stack.length = depth →
    run l ⟨stack, .value⟩ (tokens v ++ ts) = run l ⟨stack, .after v⟩ ts

theorem head_itemTokens {xs : List Json} (hne : xs ≠ []) :
    ∃ t ts, itemTokens xs = t :: ts ∧ t ≠ .arrClose := by
  have hhead : ∀ v : Json, ∃ t ts, tokens v = t :: ts ∧ t ≠ .arrClose := by
    intro v
    cases v <;> exact ⟨_, _, rfl, nofun⟩
  match xs with
  | [] => exact absurd rfl hne
  | [x] =>
    obtain ⟨t, ts, hx, ht⟩ := hhead x
    exact ⟨t, _, by rw [itemTokens, hx, List.cons_append], ht⟩
  | x :: y :: xs =>
    obtain ⟨t, ts, hx, ht⟩ := hhead x
    exact ⟨t, _, by rw [itemTokens, hx, List.cons_append], ht⟩

/-- Where an array may close, its items may begin as well. -/
theorem run_itemOrClose {xs : List Json} (hne : xs ≠ []) (stack : List Frame) (ts : List Token) :
    run l ⟨stack, .itemOrClose⟩ (itemTokens xs ++ ts) =
      run l ⟨stack, .value⟩ (itemTokens xs ++ ts) := by
  obtain ⟨t, us, hxs, ht⟩ := head_itemTokens hne
  have hstep : step l ⟨stack, .itemOrClose⟩ t = step l ⟨stack, .value⟩ t := by
    cases t with
    | arrClose => exact absurd rfl ht
    | _ => rcases stack with _ | ⟨_ | _, _⟩ <;> rfl
  rw [hxs, List.cons_append, run_cons, run_cons, hstep]

/-- In an array of which some items have been read, the others are read up to its bracket. -/
theorem run_items {depth : Nat} (xs : List Json) (hne : xs ≠ [])
    (h : ∀ x ∈ xs, Reads l (depth + 1) x) (done : List Json) {stack : List Frame}
    (hstack : stack.length = depth) (ts : List Token) :
    run l ⟨.arr done :: stack, .value⟩ (itemTokens xs ++ ts) =
      run l ⟨stack, .after (.arr (done.reverse ++ xs))⟩ ts := by
  induction xs generalizing done with
  | nil => exact absurd rfl hne
  | cons x xs ih =>
    have hlength : (Frame.arr done :: stack).length = depth + 1 := by simp [hstack]
    cases xs with
    | nil =>
      rw [itemTokens, List.append_assoc, h x List.mem_cons_self _ _ hlength, List.singleton_append,
        run_cons]
      simp [step, leave, Except.bind]
    | cons y ys =>
      rw [itemTokens, List.append_assoc, h x List.mem_cons_self _ _ hlength, List.cons_append,
        run_cons]
      have hrest := ih (List.cons_ne_nil _ _) (fun z hz => h z (List.mem_cons_of_mem x hz))
        (x :: done)
      simp only [step, leave, Except.bind]
      rw [hrest]
      simp

theorem run_fields {depth : Nat} (fs : Fields) (hne : fs ≠ [])
    (h : ∀ f ∈ fs, Reads l (depth + 1) f.2) (done : Fields) {stack : List Frame}
    (hstack : stack.length = depth) (ts : List Token) :
    run l ⟨stack, .field done⟩ (fieldTokens fs ++ ts) =
      run l ⟨stack, .after (closeObject (fs.reverse ++ done))⟩ ts := by
  induction fs generalizing done with
  | nil => exact absurd rfl hne
  | cons f fs ih =>
    obtain ⟨k, v⟩ := f
    have hlength : (Frame.obj done k :: stack).length = depth + 1 := by simp [hstack]
    cases fs with
    | nil =>
      simp only [fieldTokens, List.cons_append, List.append_assoc, List.nil_append, run_cons]
      simp only [step, takeField, Except.bind]
      rw [h (k, v) List.mem_cons_self _ _ hlength, run_cons]
      simp [step, leave, Except.bind]
    | cons g gs =>
      rw [fieldTokens]
      simp only [List.cons_append, List.append_assoc, run_cons]
      simp only [step, takeField, Except.bind]
      rw [h (k, v) List.mem_cons_self _ _ hlength, run_cons]
      have hrest := ih (List.cons_ne_nil _ _) (fun z hz => h z (List.mem_cons_of_mem _ hz))
        ((k, v) :: done)
      simp only [step, leave, Except.bind]
      rw [hrest]
      simp

theorem run_fieldOrClose {fs : Fields} (hne : fs ≠ []) (stack : List Frame) (ts : List Token) :
    run l ⟨stack, .fieldOrClose⟩ (fieldTokens fs ++ ts) =
      run l ⟨stack, .field []⟩ (fieldTokens fs ++ ts) := by
  match fs with
  | [] => exact absurd rfl hne
  | [(k, v)] => rfl
  | (k, v) :: g :: gs => rfl

theorem enter_eq_ok {depth : Nat} (hdepth : ∀ d ∈ l.depth, depth < d) {stack : List Frame}
    (hstack : stack.length = depth) (kind : String) (r : Reader) :
    enter l stack kind r = .ok r := by
  rw [enter, if_neg (hstack ▸ not_any_le hdepth)]

theorem takeLeaf_int {n : Int} (h : l.digits → n.natAbs < Nat.pow 10 Numeral.maxDigits)
    (stack : List Frame) : takeLeaf l stack (.int n) = .ok ⟨stack, .after (.int n)⟩ := by
  rw [takeLeaf, if_neg]
  intro hlong
  obtain ⟨hdigits, hle⟩ := Bool.and_eq_true_iff.mp hlong
  exact Nat.not_lt.mpr (of_decide_eq_true hle) (h hdigits)

end Reader

namespace Readable

variable {l : Limits} {depth : Nat} {v : Json}

/-- Every readable document is read, whatever is read after it. -/
theorem reads (h : Readable l depth v) : Reader.Reads l depth v := by
  induction h with
  | null depth => exact fun stack ts _ => Reader.run_cons ..
  | bool depth b => exact fun stack ts _ => Reader.run_cons ..
  | int depth n h =>
    have htokens : tokens (.int n) = [.leaf (.int n)] := rfl
    intro stack ts _
    rw [htokens, List.singleton_append, Reader.run_cons]
    exact congrArg (·.bind fun r => Reader.run l r ts) (Reader.takeLeaf_int h stack)
  | float depth x h => exact fun stack ts _ => Reader.run_cons ..
  | str depth s => exact fun stack ts _ => Reader.run_cons ..
  | arr depth xs hdepth h ih =>
    intro stack ts hstack
    have henter : Reader.step l ⟨stack, .value⟩ .arrOpen = _ := Reader.enter_eq_ok hdepth hstack ..
    rw [tokens, List.cons_append, Reader.run_cons, henter, Except.bind]
    -- What follows the bracket may still close the array, so the first item needs a word.
    cases xs with
    | nil => exact Reader.run_cons ..
    | cons x xs =>
      have hne := List.cons_ne_nil x xs
      exact (Reader.run_itemOrClose hne _ ts).trans (Reader.run_items _ hne ih [] hstack ts)
  | obj depth fs hdepth hkeys h ih =>
    intro stack ts hstack
    have henter : Reader.step l ⟨stack, .value⟩ .objOpen = _ := Reader.enter_eq_ok hdepth hstack ..
    rw [tokens, List.cons_append, Reader.run_cons, henter, Except.bind]
    cases fs with
    | nil => exact Reader.run_cons ..
    | cons f fs =>
      have hne := List.cons_ne_nil f fs
      have hclose : Reader.closeObject ((f :: fs).reverse ++ []) = .obj (f :: fs) := by
        rw [Reader.closeObject, List.append_nil, List.reverse_reverse, Assoc.ofList_eq_self hkeys]
      exact (Reader.run_fieldOrClose hne stack ts).trans
        ((Reader.run_fields _ hne ih [] hstack ts).trans (by rw [hclose]))

theorem sortedItems_eq_map (xs : List Json) : sortedItems xs = xs.map Json.sorted := by
  induction xs with
  | nil => rfl
  | cons x xs ih => rw [sortedItems, ih, List.map_cons]

theorem sortedFields_eq_map (fs : Fields) :
    sortedFields fs = fs.map fun f => (f.1, Json.sorted f.2) := by
  induction fs with
  | nil => rfl
  | cons f fs ih =>
    obtain ⟨k, v⟩ := f
    rw [sortedFields, ih, List.map_cons]

theorem perm_sortFields (fs : Fields) :
    (sortFields (sortedFields fs)).Perm (fs.map fun f => (f.1, Json.sorted f.2)) := by
  rw [← sortedFields_eq_map]
  exact List.mergeSort_perm _ _

theorem perm_keys_sortFields (fs : Fields) :
    (Assoc.keys (sortFields (sortedFields fs))).Perm (Assoc.keys fs) := by
  have hkeys : Assoc.keys (fs.map fun f => (f.1, Json.sorted f.2)) = Assoc.keys fs := by
    rw [Assoc.keys, List.map_map]
    rfl
  exact hkeys ▸ (perm_sortFields fs).map _

theorem sorted (h : Readable l depth v) : Readable l depth (Json.sorted v) := by
  induction h with
  | null depth => exact .null depth
  | bool depth b => exact .bool depth b
  | int depth n h => exact .int depth n h
  | float depth x h => exact .float depth x h
  | str depth s => exact .str depth s
  | arr depth xs hdepth h ih =>
    rw [Json.sorted, sortedItems_eq_map]
    apply Readable.arr depth _ hdepth
    intro y hy
    obtain ⟨x, hx, rfl⟩ := List.mem_map.mp hy
    exact ih x hx
  | obj depth fs hdepth hkeys h ih =>
    rw [Json.sorted]
    apply Readable.obj depth _ hdepth ((perm_keys_sortFields fs).nodup_iff.mpr hkeys)
    intro g hg
    obtain ⟨f, hf, rfl⟩ := List.mem_map.mp ((perm_sortFields fs).mem_iff.mp hg)
    exact ih f hf

/-- What is written is read as the same document with its keys in order. -/
theorem readWithin_write (h : Readable l 0 v) : readWithin l (write v) = .ok (Json.sorted v) := by
  have hrun := h.sorted.reads [] [] rfl
  rw [List.append_nil] at hrun
  rw [readWithin, ofText_write, Reader.start, hrun]
  rfl

theorem itemBeyond?_eq_none {xs : List Json} (h : ∀ x ∈ xs, beyond? l depth x = none) :
    itemBeyond? l depth xs = none := by
  induction xs with
  | nil => rfl
  | cons x xs ih =>
    obtain ⟨hx, hxs⟩ := List.forall_mem_cons.mp h
    rw [itemBeyond?, hx, ih hxs]

theorem fieldBeyond?_eq_none {fs : Fields} (h : ∀ f ∈ fs, beyond? l depth f.2 = none) :
    fieldBeyond? l depth fs = none := by
  induction fs with
  | nil => rfl
  | cons f fs ih =>
    obtain ⟨hf, hfs⟩ := List.forall_mem_cons.mp h
    rw [fieldBeyond?, hf, ih hfs]

theorem beyond?_eq_none (h : Readable l depth v) : beyond? l depth v = none := by
  induction h with
  | int depth n h =>
    rw [beyond?, if_neg]
    intro hlong
    obtain ⟨hdigits, hle⟩ := Bool.and_eq_true_iff.mp hlong
    exact Nat.not_lt.mpr (of_decide_eq_true hle) (h hdigits)
  | arr depth xs hdepth h ih => rw [beyond?, if_neg (not_any_le hdepth), itemBeyond?_eq_none ih]
  | obj depth fs hdepth hkeys h ih =>
    rw [beyond?, if_neg (not_any_le hdepth), fieldBeyond?_eq_none ih]
  | _ => rfl

/-- What could be read within the limits can be written within them. -/
theorem writingFault?_eq_none (h : Readable l 0 v) : writingFault? l v = none :=
  h.sorted.beyond?_eq_none

theorem sameItems_map {xs : List Json} (h : ∀ x ∈ xs, same (Json.sorted x) x) :
    sameItems (xs.map Json.sorted) xs := by
  induction xs with
  | nil => rfl
  | cons x xs ih =>
    rw [List.map_cons, sameItems, Bool.and_eq_true]
    exact ⟨h x List.mem_cons_self, ih fun y hy => h y (List.mem_cons_of_mem x hy)⟩

theorem sameFields_of_find? {fs gs : Fields}
    (h : ∀ f ∈ fs, ∃ w, Assoc.find? f.1 gs = some w ∧ same f.2 w) : sameFields fs gs := by
  induction fs with
  | nil => rfl
  | cons f fs ih =>
    obtain ⟨k, v⟩ := f
    obtain ⟨w, hfind, hsame⟩ := h (k, v) List.mem_cons_self
    rw [sameFields, hfind, Bool.and_eq_true]
    exact ⟨hsame, ih fun g hg => h g (List.mem_cons_of_mem _ hg)⟩

/-- The order of the keys makes no difference to a value. -/
theorem same_sorted (h : Readable l depth v) : same (Json.sorted v) v := by
  induction h with
  | null depth => rfl
  | bool depth b => simp [Json.sorted, same, number?, Number.same]
  | int depth n h => simp [Json.sorted, same, number?, Number.same]
  | float depth x h => simpa [Json.sorted, same, number?, Number.same] using h
  | str depth s => simp [Json.sorted, same]
  | arr depth xs hdepth h ih =>
    rw [Json.sorted, sortedItems_eq_map, same]
    exact sameItems_map ih
  | obj depth fs hdepth hkeys h ih =>
    have hlength : (sortFields (sortedFields fs)).length = fs.length := by
      rw [(perm_sortFields fs).length_eq, List.length_map]
    rw [Json.sorted, same, hlength, Bool.and_eq_true]
    refine ⟨beq_self_eq_true _, sameFields_of_find? ?_⟩
    intro g hg
    obtain ⟨f, hf, rfl⟩ := List.mem_map.mp ((perm_sortFields fs).mem_iff.mp hg)
    exact ⟨f.2, (Assoc.find?_eq_some_iff hkeys).mpr hf, ih f hf⟩

end Readable

end Json

end CodeChunks
