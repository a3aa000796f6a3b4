import MarkupGraft.Proofs.Store.Refinement
import MarkupGraft.Store.Writing

/-!
What is taken out of a well-formed document: fragments are runs of complete trees, and documents made
of such fragments are well formed again.
-/

namespace MarkupGraft
namespace Document
variable {d : Document}

/-- Well-formedness is about the entries and the identities alone. -/
theorem WellFormed.congr {d' : Document} (w : d.WellFormed) (he : d'.entries = d.entries)
    (hi : d'.nextIdent = d.nextIdent) : d'.WellFormed := by
  rw [wellFormed_iff] at w ⊢
  rwa [he, hi]

theorem wellFormed_ofFragment (id : Nat) {f : Fragment} (hf : f.Complete) :
    (ofFragment id f).WellFormed := by
  obtain ⟨ts, hf⟩ := hf
  have := wellFormed_ofNodes id .xml ts
  rw [← hf] at this
  exact this.congr rfl rfl

theorem WellFormed.copy (w : d.WellFormed) (id : Nat) : (d.copy id).WellFormed := by
  have hnodes : d.nodes = .document ::
      (Tree.listingAll (Branch.eraseAll d.tree.children) ++ [.finish]) := by
    rw [nodes, w.entries_eq, RootedTree.nodes_entries]
  have := wellFormed_ofNodes id d.mode (Branch.eraseAll d.tree.children)
  rw [← hnodes] at this
  exact this.congr rfl rfl

theorem slice_eq {before inner after : List Entry} (h : d.entries = before ++ (inner ++ after)) :
    d.slice before.length (before.length + inner.length) = inner.map (·.node) := by
  have htake : d.nodes.take (before.length + inner.length) =
      before.map (·.node) ++ inner.map (·.node) := by
    rw [nodes, ← List.map_take, h, ← List.append_assoc, ← List.length_append, List.take_left,
      List.map_append]
  rw [slice, htake, ← List.length_map (·.node), List.drop_left]

namespace WellFormed
variable (w : d.WellFormed)
include w

theorem slice_content : d.slice 1 (d.last 0) =
    Tree.listingAll (Branch.eraseAll d.tree.children) := by
  have hentries : d.entries = [⟨.document, d.tree.ident⟩] ++
      (Branch.entriesAll d.tree.children ++ [⟨.finish, d.tree.finish⟩]) := w.entries_eq
  have hlast := (content_range rfl rfl w.entries_of_root).2
  have := slice_eq hentries
  rw [Branch.nodes_entriesAll] at this
  rw [← this, List.length_singleton, ← List.length_nil (α := Entry), hlast]
  rfl

/-- The nodes of a document list its trees. -/
theorem nodes_eq : d.nodes = .document :: (Tree.listingAll d.trees ++ [.finish]) := by
  rw [trees, w.forest_nodes, nodes, w.entries_eq, RootedTree.nodes_entries]

theorem trees_contents : d.contents.trees = d.trees := by
  have hslice : d.contents.nodes = d.slice 1 (d.last 0) := by
    have := w.last_root
    rw [contents, ← this]
    rfl
  rw [Fragment.trees, hslice, w.slice_content, Tree.forest_listingAll, trees, w.forest_nodes]

theorem complete_contents : d.contents.Complete := by
  refine ⟨_, Eq.trans ?_ w.slice_content⟩
  have := w.last_root
  rw [contents, ← this]
  rfl

/-- All that belongs to a branch lists its tree. -/
theorem extent_of_stands {b : Branch} {before after : List Entry}
    (hs : Branch.Stands b d.tree.children before after) :
    d.extent (before.length + 1) = Tree.listingAll [b.erase] := by
  have hslice := slice_eq (w.entries_of_stands hs)
  rw [List.length_cons, ← w.last_of_stands hs, Branch.nodes_entries] at hslice
  rw [extent, hslice, Tree.listingAll, Tree.listingAll, List.append_nil]

/-- What is cut out of a document is a run of complete trees. -/
theorem complete_extract {target : Handle} {f : Fragment} (h : d.extract target = .ok f) :
    f.Complete := by
  unfold extract locate at h
  cases hp : d.locate? target with
  | none =>
    rw [hp] at h
    cases h
  | some p =>
    have hfound := w.found hp
    simp only [hp, bind, Except.bind] at h
    cases hfound with
    | root _ =>
      simp only [w.node_of_root] at h
      cases h
      exact ⟨_, w.slice_content⟩
    | element hs =>
      simp only [w.node_of_element hs] at h
      cases h
      exact ⟨_, w.extent_of_stands hs⟩
    | «attribute» hs =>
      simp only [w.node_of_attribute hs] at h
      cases h
      exact Fragment.complete_ofText _
    | @leaf kind value before after hs =>
      have : f.nodes = d.extent (before.length + 1) := by
        cases kind <;> simp only [w.node_of_leaf hs, LeafKind.node] at h <;> cases h <;> rfl
      exact ⟨_, this.trans (w.extent_of_stands hs)⟩
    | finish hs =>
      simp only [w.node_of_finish hs] at h
      cases h

theorem copySubtree {id : Nat} {target : Handle} {d' : Document}
    (h : d.copySubtree id target = .ok d') : d'.WellFormed ∧ d'.id = id := by
  unfold Document.copySubtree at h
  cases hf : d.extract target with
  | error e =>
    rw [hf] at h
    cases h
  | ok f =>
    rw [hf] at h
    cases h
    exact ⟨(wellFormed_ofFragment id (w.complete_extract hf)).congr rfl rfl, rfl⟩

end WellFormed
end Document
end MarkupGraft
