/-! # Tables, sums and slices of lists -/

/-! ## Insertion-ordered tables -/
namespace CodeChunks.Assoc

variable {κ β : Type} [DecidableEq κ]

def find? (k : κ) : List (κ × β) → Option β
  | [] => none
  | (k', v) :: m => if k' = k then some v else find? k m

def has (k : κ) (m : List (κ × β)) : Bool := (find? k m).isSome

def keys (m : List (κ × β)) : List κ := m.map Prod.fst

/-- A present key keeps its place and takes the new value; a new key goes to the end. -/
def insert (k : κ) (v : β) : List (κ × β) → List (κ × β)
  | [] => [(k, v)]
  | (k', v') :: m => if k' = k then (k, v) :: m else (k', v') :: insert k v m

/-- The first value given for a key stays. -/
def insertNew (k : κ) (v : β) (m : List (κ × β)) : List (κ × β) :=
  if has k m then m else m ++ [(k, v)]

def erase (k : κ) (m : List (κ × β)) : List (κ × β) := m.filter fun p => p.1 ≠ k

/-- The last value given for a key counts, at the place of its first. -/
def ofList (ps : List (κ × β)) : List (κ × β) := ps.foldl (fun m p => insert p.1 p.2 m) []

end CodeChunks.Assoc

/-! ## Sums of numbers -/
namespace CodeChunks

def total : List Nat → Nat
  | [] => 0
  | n :: ns => n + total ns

@[simp] theorem total_nil : total [] = 0 := rfl

@[simp] theorem total_cons (n : Nat) (ns : List Nat) : total (n :: ns) = n + total ns := rfl

@[simp] theorem total_append (ns ms : List Nat) : total (ns ++ ms) = total ns + total ms := by
  induction ns with
  | nil => simp
  | cons n ns ih => simp [ih, Nat.add_assoc]

/-! ## Slices -/

/-- The position meant by `i` in a sequence of length `n`: a negative `i` counts from the end, and
what lies outside is cut to the nearer end. -/
def clamp (n : Nat) (i : Int) : Nat := if i < 0 then (n + i).toNat else min n i.toNat

/-- The part between two positions, empty when they are out of order. -/
def slice {α : Type} (xs : List α) (start stop : Int) : List α :=
  (xs.take (clamp xs.length stop)).drop (clamp xs.length start)

/-- The index meant by `i`, a negative one counted from the end. -/
def index? (n : Nat) (i : Int) : Option Nat :=
  let j := if i < 0 then n + i else i
  if 0 ≤ j ∧ j < n then some j.toNat else none

end CodeChunks
