/-!
# Grouping by a number

The elements of a list, grouped by a number that each of them has.  Groups come in ascending order
of their number, and the elements of a group in the order of the list.
-/

namespace Coverage

/-- Puts a number into an ascending list without repetitions. -/
def insertKey (key : Nat) : List Nat → List Nat
  | [] => [key]
  | k :: rest =>
    if key < k then key :: k :: rest
    else if key = k then k :: rest
    else k :: insertKey key rest

/-- The numbers of a list in ascending order, without repetitions. -/
def ascendingKeys (keys : List Nat) : List Nat :=
  keys.foldr insertKey []

/-- The elements of a list, grouped by a number. -/
def groupByKey {α : Type} (key : α → Nat) (items : List α) : List (Nat × List α) :=
  (ascendingKeys (items.map key)).map fun k => (k, items.filter (key · == k))

end Coverage
