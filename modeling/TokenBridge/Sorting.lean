/-!
Insertion sort by a strict order. Elements that neither precede nor follow each other keep their order.
-/
namespace TokenBridge.Sorting

def insert {α : Type} (precedes : α → α → Bool) (a : α) : List α → List α
  | [] => [a]
  | b :: rest => if precedes b a then b :: insert precedes a rest else a :: b :: rest

def sort {α : Type} (precedes : α → α → Bool) : List α → List α
  | [] => []
  | a :: rest => insert precedes a (sort precedes rest)

end TokenBridge.Sorting
