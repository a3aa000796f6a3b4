import MarkupGraft.Store.Tree

/-! Trees listed as runs of nodes. Reading such a run gives the trees back. -/

namespace MarkupGraft.Tree

/-- Induction on a run of trees: on what is inside its first tree and on those behind it. -/
@[elab_as_elim]
theorem forest_induction {motive : List Tree → Prop} (nil : motive [])
    (element : ∀ name attributes children ts, motive children → motive ts →
      motive (.element name attributes children :: ts))
    (text : ∀ value ts, motive ts → motive (.text value :: ts))
    (comment : ∀ value ts, motive ts → motive (.comment value :: ts))
    (instruction : ∀ value ts, motive ts → motive (.instruction value :: ts))
    (doctype : ∀ value ts, motive ts → motive (.doctype value :: ts)) : ∀ ts, motive ts
  | [] => nil
  | .element name attributes children :: ts =>
    element name attributes children ts
      (forest_induction nil element text comment instruction doctype children)
      (forest_induction nil element text comment instruction doctype ts)
  | .text value :: ts =>
    text value ts (forest_induction nil element text comment instruction doctype ts)
  | .comment value :: ts =>
    comment value ts (forest_induction nil element text comment instruction doctype ts)
  | .instruction value :: ts =>
    instruction value ts (forest_induction nil element text comment instruction doctype ts)
  | .doctype value :: ts =>
    doctype value ts (forest_induction nil element text comment instruction doctype ts)

def attributeNodes (attributes : List (Name × String)) : List Node :=
  attributes.map fun a => .attribute a.1 a.2

mutual

/-- The nodes of a tree in document order, an element with its end marker. -/
def listing : Tree → List Node
  | .element name attributes children =>
    .element name :: (attributeNodes attributes ++ (listingAll children ++ [.finish]))
  | .text value => [.text value]
  | .comment value => [.comment value]
  | .instruction value => [.instruction value]
  | .doctype value => [.doctype value]

def listingAll : List Tree → List Node
  | [] => []
  | tree :: trees => listing tree ++ listingAll trees

end

@[simp] theorem listingAll_append (ts us : List Tree) :
    listingAll (ts ++ us) = listingAll ts ++ listingAll us := by
  induction ts with
  | nil => rfl
  | cons t ts ih => simp [listingAll, ih]

@[simp] theorem innermost_modifyInnermost (f : Inside → Inside) (opened : List Inside) :
    innermost (modifyInnermost f opened) = f (innermost opened) := rfl

@[simp] theorem tail_modifyInnermost (f : Inside → Inside) (opened : List Inside) :
    (modifyInnermost f opened).tail = opened.tail := rfl

@[simp] theorem attributeNodes_append (as bs : List (Name × String)) :
    attributeNodes (as ++ bs) = attributeNodes as ++ attributeNodes bs := List.map_append

/-- The attributes at the head of the inside of an element are the element's. -/
theorem takeWhile_isAttribute (attributes : List (Name × String)) (children : List Tree)
    (rest : List Node) :
    (attributeNodes attributes ++ (listingAll children ++ ([Node.finish] ++ rest))).takeWhile
      Node.isAttribute = attributeNodes attributes := by
  have hnone : (listingAll children ++ ([Node.finish] ++ rest)).takeWhile Node.isAttribute = [] := by
    cases children with
    | nil => rfl
    | cons t ts => cases t <;> rfl
  rw [List.takeWhile_append_of_pos, hnone, List.append_nil]
  intro n hn
  obtain ⟨a, -, rfl⟩ := List.mem_map.mp hn
  rfl

mutual

theorem document_not_mem_listing : ∀ t : Tree, .document ∉ listing t
  | .element name attributes children => by
    simp [listing, attributeNodes, document_not_mem_listingAll children]
  | .text _ | .comment _ | .instruction _ | .doctype _ => by simp [listing]

theorem document_not_mem_listingAll : ∀ ts : List Tree, .document ∉ listingAll ts
  | [] => by simp [listingAll]
  | t :: ts => by
    simp [listingAll, document_not_mem_listing t, document_not_mem_listingAll ts]

end

private theorem insides_attributeNodes (attributes : List (Name × String)) (opened : List Inside) :
    innermost ((attributeNodes attributes).foldr prepend opened) =
        { innermost opened with attributes := attributes ++ (innermost opened).attributes } ∧
      ((attributeNodes attributes).foldr prepend opened).tail = opened.tail := by
  induction attributes with
  | nil => exact ⟨rfl, rfl⟩
  | cons a attributes ih =>
    obtain ⟨hi, ht⟩ := ih
    simp only [attributeNodes, List.map_cons, List.foldr_cons, prepend] at hi ht ⊢
    rw [innermost_modifyInnermost, tail_modifyInnermost, hi, ht]
    exact ⟨rfl, rfl⟩

mutual

private theorem insides_listing (opened : List Inside) : ∀ tree : Tree,
    innermost ((listing tree).foldr prepend opened) = (innermost opened).addChild tree ∧
      ((listing tree).foldr prepend opened).tail = opened.tail
  | .element name attributes children => by
    obtain ⟨hi, ht⟩ := insides_listingAll ({} :: opened) children
    obtain ⟨hj, hu⟩ := insides_attributeNodes attributes
      ((listingAll children).foldr prepend ({} :: opened))
    simp only [listing, List.foldr_cons, List.foldr_append, List.foldr_nil, prepend]
    rw [innermost_modifyInnermost, tail_modifyInnermost, hj, hi, hu, ht]
    simp [innermost]
  | .text _ => ⟨rfl, rfl⟩
  | .comment _ => ⟨rfl, rfl⟩
  | .instruction _ => ⟨rfl, rfl⟩
  | .doctype _ => ⟨rfl, rfl⟩

private theorem insides_listingAll (opened : List Inside) : ∀ trees : List Tree,
    innermost ((listingAll trees).foldr prepend opened) =
        { innermost opened with children := trees ++ (innermost opened).children } ∧
      ((listingAll trees).foldr prepend opened).tail = opened.tail
  | [] => ⟨rfl, rfl⟩
  | tree :: trees => by
    obtain ⟨hi, ht⟩ := insides_listingAll opened trees
    obtain ⟨hj, hu⟩ := insides_listing ((listingAll trees).foldr prepend opened) tree
    rw [listingAll, List.foldr_append, hj, hu, hi, ht]
    exact ⟨rfl, rfl⟩

end

/-- Reading the listing of trees gives the trees back. -/
@[simp] theorem forest_listingAll (trees : List Tree) : forest (listingAll trees) = trees := by
  rw [forest, insides, (insides_listingAll [] trees).1]
  simp [innermost]

/-- A complete sequence is read like its inside. -/
@[simp] theorem forest_document (trees : List Tree) :
    forest (.document :: (listingAll trees ++ [.finish])) = trees := by
  simp only [forest, insides, List.foldr_cons, List.foldr_append, List.foldr_nil, prepend]
  rw [(insides_listingAll _ trees).1]
  simp [innermost]

end MarkupGraft.Tree
