/-!
Ranking of repeated items by the keys they emit. Keys are compared position by position; a position
where only one of two items has a key says nothing. Two items that give the key of one position
different directions cannot be ranked.
-/

namespace MarkupGraft

inductive SortOrder where
  | ascending
  | descending
  deriving DecidableEq, Repr

structure SortKey where
  order : SortOrder
  key : String
  deriving DecidableEq, Repr

/-- Two items disagree on the direction of the key at a position. -/
structure SortConflict where
  position : Nat
  deriving DecidableEq, Repr

/-- The keys of one item, in the order in which they were emitted. -/
structure SortKeys where
  keys : List SortKey := []
  deriving DecidableEq, Repr, Inhabited

namespace SortKeys

/-- Adds a key; an empty one does not count. -/
def push (k : SortKeys) (order : SortOrder) (key : String) : SortKeys :=
  if key = "" then k else ⟨k.keys ++ [⟨order, key⟩]⟩

def isEmpty (k : SortKeys) : Bool := k.keys.isEmpty

/-- Compares keys from `position` on. -/
def compareFrom (position : Nat) : List SortKey → List SortKey → Except SortConflict Ordering
  | a :: k, b :: l =>
    if a.order ≠ b.order then .error ⟨position⟩
    else
      match compareOfLessAndEq a.key b.key, a.order with
      | .eq, _ => compareFrom (position + 1) k l
      | ordering, .ascending => .ok ordering
      | ordering, .descending => .ok ordering.swap
  | _, _ => .ok .eq

protected def compare (k l : SortKeys) : Except SortConflict Ordering :=
  compareFrom 0 k.keys l.keys

/-- Compares the directions of some keys with those seen so far, and adds those of further
positions. -/
def checkOne (position : Nat) : (seen : List SortOrder) → List SortKey →
    Except SortConflict (List SortOrder)
  | seen, [] => .ok seen
  | [], keys => .ok (keys.map (·.order))
  | order :: seen, key :: keys =>
    if order ≠ key.order then .error ⟨position⟩
    else (checkOne (position + 1) seen keys).map (order :: ·)

/-- Fails where two of the items disagree on a direction. -/
def checkDirections (items : List SortKeys) : Except SortConflict Unit := do
  let _ ← items.foldlM (fun seen k => checkOne 0 seen k.keys) []

variable {α : Type}

/-- Moves an item from the end of a list toward its front, past all that come after it. The list is
given from its end. -/
def insertFromEnd (item : α × SortKeys) :
    List (α × SortKeys) → Except SortConflict (List (α × SortKeys))
  | [] => .ok [item]
  | last :: rest => do
    match ← last.2.compare item.2 with
    | .gt => pure (last :: (← insertFromEnd item rest))
    | _ => pure (item :: last :: rest)

/-- Puts items in the order of their keys; items that compare equal keep theirs. -/
def sort (items : List (α × SortKeys)) : Except SortConflict (List (α × SortKeys)) := do
  checkDirections (items.map (·.2))
  let sorted ← items.foldlM (fun done item => insertFromEnd item done) []
  pure sorted.reverse

/-! Sorting in place -/

variable {n : Nat}

/-- Moves the item at a position toward the front, past all those that rank behind it. With the result
come the items as they have been left. -/
def sink (items : Vector (α × SortKeys) n) : (position : Nat) → position < n →
    Except SortConflict Unit × Vector (α × SortKeys) n
  | 0, _ => (.ok (), items)
  | position + 1, h =>
    match items[position].2.compare items[position + 1].2 with
    | .ok .gt => sink (items.swap position (position + 1)) position (Nat.lt_of_succ_lt h)
    | .ok _ => (.ok (), items)
    | .error conflict => (.error conflict, items)

/-- Moves the items from a position on, one after the other, to their places among those in front. -/
def sinkFrom (position : Nat) (items : Vector (α × SortKeys) n) :
    Except SortConflict Unit × Vector (α × SortKeys) n :=
  if h : position < n then
    match sink items position h with
    | (.ok _, items) => sinkFrom (position + 1) items
    | failed => failed
  else (.ok (), items)
termination_by n - position

/-- Puts items in the order of their keys where they are. -/
def sortInPlace (items : Vector (α × SortKeys) n) :
    Except SortConflict Unit × Vector (α × SortKeys) n :=
  match checkDirections (items.toList.map (·.2)) with
  | .ok _ => sinkFrom 1 items
  | .error conflict => (.error conflict, items)

end SortKeys
end MarkupGraft
