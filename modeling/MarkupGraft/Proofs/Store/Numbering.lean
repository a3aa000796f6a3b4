import MarkupGraft.Proofs.Store.WellFormed
import MarkupGraft.Store.Edit

/-! Trees that come into a document take the next identities, in document order. -/

namespace MarkupGraft

namespace Document

theorem identify_cons (next : Nat) (node : Node) (nodes : List Node) :
    identify next (node :: nodes) = ⟨node, next⟩ :: identify (next + 1) nodes := by
  simp only [identify, List.zipIdx_cons', List.map_cons, List.map_map, Nat.add_zero]
  congr 1
  refine List.map_congr_left fun p _ => ?_
  simp only [Function.comp_apply, Prod.map, id_eq]
  congr 1
  omega

theorem identify_append (next : Nat) (nodes more : List Node) :
    identify next (nodes ++ more) = identify next nodes ++ identify (next + nodes.length) more := by
  induction nodes generalizing next with
  | nil => rfl
  | cons node nodes ih =>
    rw [List.cons_append, identify_cons, ih, identify_cons, List.cons_append, List.length_cons]
    congr 3
    omega

@[simp] theorem length_identify (next : Nat) (nodes : List Node) :
    (identify next nodes).length = nodes.length := by
  simp [identify]

@[simp] theorem nodes_identify (next : Nat) (nodes : List Node) :
    (identify next nodes).map (·.node) = nodes := by
  induction nodes generalizing next with
  | nil => rfl
  | cons node nodes ih => rw [identify_cons, List.map_cons, ih]

/-- The identities given are the next ones. -/
theorem idents_identify (next : Nat) (nodes : List Node) :
    (identify next nodes).map (·.ident) = List.range' next nodes.length := by
  induction nodes generalizing next with
  | nil => rfl
  | cons node nodes ih => rw [identify_cons, List.map_cons, ih, List.length_cons, List.range'_succ]

theorem entries_ofNodes (id : Nat) (mode : Markup.Mode) (nodes : List Node) :
    (ofNodes id mode nodes).entries = identify 0 nodes := by
  simp [ofNodes, identify]

@[simp] theorem nodes_ofNodes (id : Nat) (mode : Markup.Mode) (nodes : List Node) :
    (ofNodes id mode nodes).nodes = nodes := by
  rw [Document.nodes, entries_ofNodes, nodes_identify]

end Document

namespace Branch

def numberAttributes (next : Nat) : List (Name × String) → List OwnedAttribute
  | [] => []
  | (name, value) :: attributes => ⟨next, name, value⟩ :: numberAttributes (next + 1) attributes

mutual

/-- A tree whose nodes take the identities from `next` on. -/
def number (next : Nat) : Tree → Branch
  | .element name attributes children =>
    .element next name (numberAttributes (next + 1) attributes)
      (numberAll (next + 1 + attributes.length) children)
      (next + 1 + attributes.length + (Tree.listingAll children).length)
  | .text value => .leaf next .text value
  | .comment value => .leaf next .comment value
  | .instruction value => .leaf next .instruction value
  | .doctype value => .leaf next .doctype value

def numberAll (next : Nat) : List Tree → List Branch
  | [] => []
  | t :: ts => number next t :: numberAll (next + t.listing.length) ts

end

private theorem entries_numberAttributes (next : Nat) (attributes : List (Name × String)) :
    (numberAttributes next attributes).map OwnedAttribute.entry =
      Document.identify next (Tree.attributeNodes attributes) := by
  induction attributes generalizing next with
  | nil => rfl
  | cons a attributes ih =>
    have hn : Tree.attributeNodes (a :: attributes) =
        .attribute a.1 a.2 :: Tree.attributeNodes attributes := rfl
    rw [numberAttributes, List.map_cons, ih, hn, Document.identify_cons]
    rfl

@[simp] theorem length_attributeNodes (attributes : List (Name × String)) :
    (Tree.attributeNodes attributes).length = attributes.length := List.length_map _

mutual

theorem entries_number (next : Nat) : ∀ t : Tree,
    (number next t).entries = Document.identify next t.listing
  | .element name attributes children => by
    rw [number, entries, entries_numberAttributes, entries_numberAll, Tree.listing,
      Document.identify_cons, Document.identify_append, Document.identify_append,
      length_attributeNodes]
    rfl
  | .text _ | .comment _ | .instruction _ | .doctype _ => by
    simp only [number, entries, Tree.listing, Document.identify_cons]
    rfl

theorem entries_numberAll (next : Nat) : ∀ ts : List Tree,
    entriesAll (numberAll next ts) = Document.identify next (Tree.listingAll ts)
  | [] => rfl
  | t :: ts => by
    rw [numberAll, entriesAll, entries_number next t, entries_numberAll _ ts, Tree.listingAll,
      Document.identify_append]

end

/-- Numbering changes no tree. -/
@[simp] theorem eraseAll_numberAll (next : Nat) (ts : List Tree) :
    eraseAll (numberAll next ts) = ts := by
  have h := congrArg (List.map (·.node)) (entries_numberAll next ts)
  rw [nodes_entriesAll, Document.nodes_identify] at h
  rw [← Tree.forest_listingAll (eraseAll _), h, Tree.forest_listingAll]

end Branch

namespace RootedTree

/-- A document of trees numbered from the document node on. -/
def ofTrees (ts : List Tree) : RootedTree :=
  ⟨0, Branch.numberAll 1 ts, (Tree.listingAll ts).length + 1⟩

end RootedTree

namespace Document

/-- A complete sequence has become a document of its trees. -/
theorem entries_ofNodes_listingAll (id : Nat) (mode : Markup.Mode) (ts : List Tree) :
    (ofNodes id mode (.document :: (Tree.listingAll ts ++ [.finish]))).entries =
      (RootedTree.ofTrees ts).entries := by
  rw [entries_ofNodes, identify_cons, identify_append, RootedTree.entries, RootedTree.ofTrees,
    Branch.entries_numberAll, identify_cons, Nat.zero_add, Nat.add_comm]
  rfl

theorem idents_ofNodes (id : Nat) (mode : Markup.Mode) (nodes : List Node) :
    (ofNodes id mode nodes).entries.map (·.ident) = List.range' 0 nodes.length := by
  rw [entries_ofNodes, idents_identify]

/-- A document of complete trees is well formed. -/
theorem wellFormed_ofNodes (id : Nat) (mode : Markup.Mode) (ts : List Tree) :
    (ofNodes id mode (.document :: (Tree.listingAll ts ++ [.finish]))).WellFormed := by
  refine wellFormed_of_entries (entries_ofNodes_listingAll id mode ts) ?_ fun e he => ?_
  · rw [idents_ofNodes]
    exact List.nodup_range'
  · have := List.mem_map_of_mem (f := Entry.ident) he
    rw [idents_ofNodes, List.mem_range'_1] at this
    simpa [ofNodes] using this.2

end Document
end MarkupGraft
