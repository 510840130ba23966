import CodeChunks.Number.Binary64
import CodeChunks.Vector.Store

/-! # Ranking, and searching by similarity -/

/-! ## Ranking by an order that may have gaps

Where `less` orders all elements, the ranking is the stable one. Where it does not, as with NaN
among numbers, the outcome hangs on which elements are compared, so that the comparisons are part of
the definition. -/
namespace CodeChunks.Ranking

variable {α : Type}

/-- Where `a` goes between the places `lo` and `hi` of a list, by halving: behind every element that
it is not less than. -/
def place (less : α → α → Bool) (a : α) (l : List α) (lo hi : Nat) : Nat :=
  if lo < hi then
    let mid := (lo + hi) / 2
    if l[mid]?.any (less a) then place less a l lo mid else place less a l (mid + 1) hi
  else lo
termination_by hi - lo

def insert (less : α → α → Bool) (l : List α) (a : α) : List α :=
  let k := place less a l 0 l.length
  l.take k ++ a :: l.drop k

/-- The longest run after `a` in which every element is to the one before as `next` says, and the
rest. -/
def run (next : α → α → Bool) (a : α) : List α → List α × List α
  | [] => ([], [])
  | b :: bs => if next b a then (b :: (run next b bs).1, (run next b bs).2) else ([], b :: bs)

/-- A run at the front that rises, or that falls and is turned round, and the rest. -/
def firstRun (less : α → α → Bool) : List α → List α × List α
  | [] => ([], [])
  | [a] => ([a], [])
  | a :: b :: bs =>
    let falls := less b a
    let r := run (fun y x => less y x == falls) a (b :: bs)
    (if falls then (a :: r.1).reverse else a :: r.1, r.2)

/-- The least first: the elements after the first run are inserted into it one by one. -/
def sort (less : α → α → Bool) (l : List α) : List α :=
  (firstRun less l).2.foldl (insert less) (firstRun less l).1

/-- The greatest first, of equal ones the earlier. -/
def rank (less : α → α → Bool) (l : List α) : List α := (sort less l.reverse).reverse

end CodeChunks.Ranking

/-! ## Searching by similarity -/
namespace CodeChunks

/-- The products of the entries, added from the first on. -/
def dot (v w : Embedding) : Float32 := (List.zipWith (· * ·) v w).foldl (· + ·) 0

/-- The length of a vector under a product of vectors. -/
def norm (product : Embedding → Embedding → Float32) (v : Embedding) : Float :=
  Binary32.widen (product v v).sqrt

/-- The cosine of two vectors under a product, zero when one of them has the length zero. -/
def cosine (product : Embedding → Embedding → Float32) (v w : Embedding) : Float :=
  let n := norm product v
  let m := norm product w
  if n == 0 || m == 0 then 0 else Binary32.widen (product v w / Binary32.narrow (n * m))

structure Match where
  document : Document
  similarity : Float

namespace VectorStore

/-- The documents that pass the filter and reach the least similarity, with their scores. -/
def candidates (s : VectorStore) (score : Embedding → Float) (least : Option Float)
    (passes : Document → Bool) : List Match :=
  s.vectors.filterMap fun (id, v) =>
    (s.get? id).bind fun d =>
      let x := score v
      if passes d && !(least.any (x < ·)) then some ⟨d, x⟩ else none

/-- The `count` documents that score highest with a query, best first. A store without documents
does not ask for the count. -/
def searchBy (s : VectorStore) (score : Embedding → Embedding → Float) (query : List Json.Number)
    (count : Json.Number) (least : Option Float) (passes : Document → Bool) :
    Except Fault (List Match) := do
  let q ← s.vector? query
  if s.documents.isEmpty then return []
  let ms := s.candidates (score q) least passes
  let n ← count.asInt.mapError .count
  return (Ranking.rank (fun a b => a.similarity < b.similarity) ms).take n.toNat

/-- The documents most similar to a query. -/
def search (s : VectorStore) : List Json.Number → Json.Number → Option Float → (Document → Bool) →
    Except Fault (List Match) :=
  s.searchBy (cosine dot)

end VectorStore

end CodeChunks
