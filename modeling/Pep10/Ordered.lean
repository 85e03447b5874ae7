/-!
# Lists kept in order

Small ordered collections are lists that are kept ascending by a strict order.  `set` treats the
list as a collection with at most one member for each place in the order, `insert` as a sequence in
which equal members stay in the order of their arrival.
-/

namespace Pep10.Ordered

variable {α : Type}

/-- Puts `a` at its place and replaces a member that is equal to it in the order. -/
def set (lt : α → α → Bool) (a : α) : List α → List α
  | [] => [a]
  | b :: l =>
    if lt a b then a :: b :: l
    else if lt b a then b :: set lt a l
    else a :: l

/-- Puts `a` at its place, behind all members that are equal to it in the order. -/
def insert (lt : α → α → Bool) (a : α) : List α → List α
  | [] => [a]
  | b :: l => if lt a b then a :: b :: l else b :: insert lt a l

/-- Sorts a list; equal members keep their order. -/
def sort (lt : α → α → Bool) (l : List α) : List α :=
  l.foldl (fun sorted a => insert lt a sorted) []

end Pep10.Ordered
