import MarkupGraft.Proofs.Store.Extent
import MarkupGraft.Proofs.Store.Placement

/-!
A fragment placed by positions. For each outermost element the run is scanned for its end marker,
with a count of the elements that are open, and what belongs to the element is cut out. The scan
fails where the count would fall below zero and where the run ends too early, and a cut fails
outside the run. On runs of complete trees nothing fails, and the marker found is the element's own.
-/

namespace MarkupGraft

/-- What stands from `start` up to, not including, `stop`, if that is a range of the list. -/
def cut? {α : Type} (start stop : Nat) (l : List α) : Option (List α) :=
  if start ≤ stop ∧ stop ≤ l.length then some ((l.take stop).drop start) else none

theorem cut?_eq_some {α : Type} {start stop : Nat} {l : List α} (h : start ≤ stop)
    (hl : stop ≤ l.length) : cut? start stop l = some ((l.take stop).drop start) :=
  if_pos ⟨h, hl⟩

namespace Placement
open Outline (Closes placeAt lasts)

/-- The position of the end marker with which the count of open elements comes back to zero. -/
def finishFrom? (count position : Nat) : List Node → Option Nat
  | [] => none
  | node :: nodes =>
    match node, count with
    | .element _, _ => finishFrom? (count + 1) (position + 1) nodes
    | .finish, 0 => none
    | .finish, 1 => some position
    | .finish, count + 2 => finishFrom? (count + 1) (position + 1) nodes
    | _, _ => finishFrom? count (position + 1) nodes

/-- The declarations of an element, given the prefixes that it declares itself and its nodes. -/
def declarationsOf (scope target : Scope) (own : List String) (subtree : List Node) : List Node :=
  let used := scope.bindings.filter fun (mark, space) =>
    !own.contains mark && target.get? mark != some space && subtree.any (uses mark space)
  let declared : List Node := used.map fun (mark, space) => .attribute (Name.declaring mark) space
  let undo := subtree.any isUnqualified && (target.get? "").any (· ≠ "") && !own.contains "" &&
    !scope.contains ""
  if undo then declared ++ [.attribute (Name.declaring "") ""] else declared

variable (scope target : Scope)

/-- The declarations of the element at `start`. -/
def declarations? (nodes : List Node) (start : Nat) : Option (List Node) := do
  let following ← cut? (start + 1) nodes.length nodes
  let stop ← finishFrom? 0 start (nodes.drop start)
  let subtree ← cut? start (stop + 1) nodes
  pure (declarationsOf scope target (ownPrefixes following) subtree)

/-- Places the nodes from `position` on, the last ones of `nodes`, at the given depth. -/
def placeFrom? (nodes : List Node) (depth position : Nat) : List Node → Option (List Node)
  | [] => some []
  | node :: rest =>
    match node with
    | .element _ =>
      if depth = 0 then do
        let declared ← declarations? scope target nodes position
        let placed ← placeFrom? nodes 1 (position + 1) rest
        pure (node :: declared ++ placed)
      else (placeFrom? nodes (depth + 1) (position + 1) rest).map (node :: ·)
    | .finish => (placeFrom? nodes (depth - 1) (position + 1) rest).map (node :: ·)
    | _ => (placeFrom? nodes depth (position + 1) rest).map (node :: ·)

/-! The scan -/

/-- Reading forward with a count finds what reading backward leaves open. -/
theorem finishFrom?_eq_lasts {nodes : List Node} (h : .document ∉ nodes) (count position : Nat) :
    finishFrom? (count + 1) position nodes = (lasts position nodes)[count]? := by
  induction nodes generalizing count position with
  | nil => rfl
  | cons node nodes ih =>
    have ih := ih fun hm => h (List.mem_cons_of_mem _ hm)
    cases node with
    | document => exact absurd List.mem_cons_self h
    | element name =>
      rw [Outline.lasts_container rfl, List.getElem?_tail]
      exact ih (count + 1) (position + 1)
    | finish =>
      rw [Outline.lasts_finish]
      cases count with
      | zero => rfl
      | succ count => exact ih count (position + 1)
    | _ =>
      rw [Outline.lasts_leaf (by simp [Node.isContainer]) (by simp)]
      exact ih count (position + 1)

theorem le_of_finishFrom? {nodes : List Node} {count position stop : Nat}
    (h : finishFrom? count position nodes = some stop) : position ≤ stop := by
  fun_induction finishFrom? count position nodes with
  | case1 | case3 => cases h
  | case4 => exact Nat.le_of_eq (Option.some.inj h)
  | case2 _ _ _ _ ih | case5 _ _ _ ih | case6 _ _ _ _ _ _ _ _ ih => exact Nat.le_of_succ_le (ih h)

/-- The run through the end marker that the scan finds. -/
theorem throughFinish?_of_finishFrom? {nodes : List Node} {count position stop : Nat}
    (h : finishFrom? (count + 1) position nodes = some stop) :
    throughFinish? (count + 1) nodes = some (nodes.take (stop + 1 - position)) := by
  induction nodes generalizing count position with
  | nil => cases h
  | cons node nodes ih =>
    have step {n : Nat} (h : finishFrom? (n + 1) (position + 1) nodes = some stop) :
        (throughFinish? (n + 1) nodes).map (node :: ·) =
          some ((node :: nodes).take (stop + 1 - position)) := by
      have hle := le_of_finishFrom? h
      rw [ih h, show stop + 1 - position = stop + 1 - (position + 1) + 1 by omega,
        List.take_succ_cons]
      rfl
    cases node with
    | finish =>
      cases count with
      | zero =>
        obtain rfl : position = stop := Option.some.inj h
        rw [Nat.add_sub_cancel_left]
        rfl
      | succ count => exact step h
    | _ => exact step h

section
variable {nodes : List Node} (hc : Closes 0 nodes) {start : Nat} {name : Name}
  (h : nodes[start]? = some (.element name))
include h

theorem drop_of_element : nodes.drop start = .element name :: nodes.drop (start + 1) := by
  obtain ⟨hlt, hnode⟩ := List.getElem?_eq_some_iff.mp h
  rw [List.drop_eq_getElem_cons hlt, hnode]

include hc

/-- An element ends at an end marker behind it. -/
theorem last_of_element : start < (placeAt nodes start).last ∧
    nodes[(placeAt nodes start).last]? = some .finish := by
  obtain ⟨hlt, hnode⟩ := List.getElem?_eq_some_iff.mp h
  have hat : Outline.nodeAt nodes start = .element name := by
    rw [Outline.nodeAt, List.getD_eq_getElem _ _ hlt, hnode]
  obtain ⟨hle, hend, hfinish, -⟩ := Outline.placeAt_of_container hc hlt (by rw [hat]; rfl)
  simp only at hle hend hfinish
  rw [Outline.nodeAt, List.getD_eq_getElem _ _ hend] at hfinish
  exact ⟨hle, by rw [List.getElem?_eq_getElem hend, hfinish]⟩

variable (hd : .document ∉ nodes)
include hd

/-- From an element on the scan finds the end marker of the element. -/
theorem finishFrom?_start :
    finishFrom? 0 start (nodes.drop start) = some (placeAt nodes start).last := by
  have hlt := (List.getElem?_eq_some_iff.mp h).1
  have hdrop := drop_of_element h
  have hrest : .document ∉ nodes.drop (start + 1) := fun hm => hd (List.mem_of_mem_drop hm)
  have hscan : finishFrom? 0 start (nodes.drop start) =
      (lasts (start + 1) (nodes.drop (start + 1)))[0]? := by
    rw [hdrop]
    exact finishFrom?_eq_lasts hrest 0 (start + 1)
  have hlast : (placeAt nodes start).last =
      (lasts (start + 1) (nodes.drop (start + 1))).headD start := by
    rw [Outline.placeAt_eq hlt, hdrop]
    simp only [Outline.headContent, Outline.contentsFrom, lasts]
    cases (Outline.contentsFrom (start + 1) (nodes.drop (start + 1))).2 <;> rfl
  -- The marker lies behind the element, so one is left open.
  have hbehind := (last_of_element hc h).1
  rw [hscan, hlast]
  rw [hlast] at hbehind
  cases hl : lasts (start + 1) (nodes.drop (start + 1)) with
  | nil =>
    rw [hl, List.headD_nil] at hbehind
    omega
  | cons last rest => rfl

theorem declarations?_eq : declarations? scope target nodes start =
    some (declarations scope target name (nodes.drop (start + 1))) := by
  have hlt := (List.getElem?_eq_some_iff.mp h).1
  have hdrop := drop_of_element h
  obtain ⟨hbehind, hfinish⟩ := last_of_element hc h
  have hend := (List.getElem?_eq_some_iff.mp hfinish).1
  have hstop := finishFrom?_start hc h hd
  have hfollowing : cut? (start + 1) nodes.length nodes = some (nodes.drop (start + 1)) := by
    rw [cut?_eq_some hlt (Nat.le_refl _), List.take_length]
  have hinside : inside (nodes.drop (start + 1)) =
      (nodes.drop (start + 1)).take ((placeAt nodes start).last + 1 - (start + 1)) := by
    rw [hdrop] at hstop
    rw [inside, throughFinish?_of_finishFrom? hstop, Option.getD_some]
  have hsubtree : cut? start ((placeAt nodes start).last + 1) nodes =
      some (.element name :: inside (nodes.drop (start + 1))) := by
    rw [cut?_eq_some (by omega) hend, List.drop_take, hdrop, hinside,
      show (placeAt nodes start).last + 1 - start =
        (placeAt nodes start).last + 1 - (start + 1) + 1 by omega, List.take_succ_cons]
  rw [declarations?, hfollowing, hstop]
  simp only [Option.bind_eq_bind, Option.bind_some, hsubtree]
  rfl

end

theorem placeFrom?_eq {nodes : List Node} (hc : Closes 0 nodes) (hd : .document ∉ nodes)
    (depth position : Nat) (rest : List Node) (h : nodes.drop position = rest) :
    placeFrom? scope target nodes depth position rest = some (place scope target depth rest) := by
  induction rest generalizing depth position with
  | nil => rfl
  | cons node rest ih =>
    have hrest : nodes.drop (position + 1) = rest := by
      rw [← List.tail_drop, h, List.tail_cons]
    have ih (depth : Nat) := ih depth (position + 1) hrest
    cases node with
    | element name =>
      have hnode : nodes[position]? = some (.element name) := by
        rw [← List.head?_drop, h, List.head?_cons]
      rw [placeFrom?, place, declarations?_eq scope target hc hnode hd, hrest]
      split
      · simp [ih]
      · rw [ih, Option.map_some]
    | _ => simp only [placeFrom?, place, ih, Option.map_some]

end Placement

namespace Fragment
open Outline (Closes)

/-- Places a fragment where `target` is in scope. -/
def placedUnder? (f : Fragment) (target : Scope) : Option (List Node) :=
  Placement.placeFrom? f.scope target f.nodes 0 0 f.nodes

variable {f : Fragment} (h : f.Complete)
include h

theorem Complete.closes : Closes 0 f.nodes := by
  obtain ⟨ts, h⟩ := h
  rw [h, ← List.append_nil (Tree.listingAll ts), Outline.closes_listingAll]
  rfl

theorem Complete.document_not_mem : .document ∉ f.nodes := by
  obtain ⟨ts, h⟩ := h
  rw [h]
  exact Tree.document_not_mem_listingAll ts

/-- Placing a run of complete trees by positions does not fail. -/
theorem Complete.placedUnder?_eq (target : Scope) :
    f.placedUnder? target = some (f.placedUnder target) :=
  Placement.placeFrom?_eq f.scope target h.closes h.document_not_mem 0 0 f.nodes rfl

-- Neither an element without an end marker nor an end marker without an element is counted.
example : placedUnder? ⟨[.element ⟨"", "b"⟩], {}⟩ .base = none ∧
    Placement.finishFrom? 0 0 [.finish, .element ⟨"", "b"⟩, .finish] = none := by decide +kernel

end Fragment
end MarkupGraft
