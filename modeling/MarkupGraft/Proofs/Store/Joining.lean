import MarkupGraft.Proofs.Store.Detached
import MarkupGraft.Proofs.Store.Grafting
import MarkupGraft.Proofs.Store.Serialization

/-!
Fragments joined into one. The whole takes along the bindings of both, and where both bind a prefix
that of the first. So the names of the second are led to their namespaces unless one of its prefixes
leads elsewhere in the first.
-/

namespace MarkupGraft
open Branch (Stands)
open MarkupGraft.Tree (listingAll BoundAll ProperAll QualifiedAll LegibleLeaf)

namespace Scope

theorem Sound.override {s t : Scope} (hs : s.Sound) (ht : t.Sound) : (s.override t).Sound := by
  intro mark space h
  rw [get?_override, Option.or_eq_some_iff] at h
  rcases h with h | ⟨-, h⟩
  · exact ht mark space h
  · exact hs mark space h

theorem Sound.orElse {s t : Scope} (hs : s.Sound) (ht : t.Sound) : (s.orElse t).Sound := by
  intro mark space h
  rw [get?_orElse, Option.or_eq_some_iff] at h
  rcases h with h | ⟨-, h⟩
  · exact hs mark space h
  · exact ht mark space h

theorem Sound.without {s : Scope} (hs : s.Sound) (t : Scope) : (s.without t).Sound :=
  fun mark space h => hs mark space (get?_without.mp h).1

/-- Bindings lead names where others do that bind the same prefixes where they are used. -/
private theorem covers_override {s t : Scope} {nodes : List Node}
    (hkept : ∀ mark space, s.get? mark = some space →
      (∃ n ∈ nodes, Placement.uses mark space n) → t.get? mark = some space)
    (hdefault : s.get? "" = none → (∃ n ∈ nodes, Placement.isUnqualified n) →
      (t.get? "").getD "" = "")
    (hxml : t.get? "xml" = none) : Covers (base.override s) (base.override t) nodes := by
  constructor
  · intro mark space hspace h hu
    rw [get?_override] at h ⊢
    cases hs : s.get? mark with
    | some other =>
      rw [hs] at h
      cases h
      rw [hkept mark space hs hu]
      rfl
    | none =>
      rw [hs, Option.none_or, get?_base] at h
      split at h
      · rename_i hmark
        rw [hmark, hxml, Option.none_or, get?_base]
        exact h
      · split at h
        · cases h
          exact absurd rfl hspace
        · cases h
  · intro h hu
    rw [get?_override] at h ⊢
    cases hs : s.get? "" with
    | some space =>
      rw [hs] at h
      obtain rfl : space = "" := h
      obtain ⟨n, hn, hunqualified⟩ := hu
      rw [hkept "" "" hs ⟨n, hn, Placement.uses_of_isUnqualified hunqualified⟩]
      rfl
    | none =>
      have hnone := hdefault hs hu
      cases ht : t.get? "" with
      | none => rfl
      | some space =>
        rw [ht] at hnone
        exact hnone

end Scope

namespace Fragment

/-- Whether a node of a fragment uses the binding of a prefix to a namespace. -/
def Uses (f : Fragment) (mark space : String) : Prop := ∃ n ∈ f.nodes, Placement.uses mark space n

/-- Whether the elements of `f` that are in no namespace stay there where the bindings of `s` come
in. -/
def Undisturbed (f : Fragment) (s : Scope) : Prop :=
  f.scope.get? "" = none → (∃ n ∈ f.nodes, Placement.isUnqualified n) → (s.get? "").getD "" = ""

/-- Whether no prefix that `g` uses leads elsewhere in `f`, and no default namespace of one meets
unqualified elements of the other. -/
structure Compatible (f g : Fragment) : Prop where
  kept {mark space other : String} (h : g.scope.get? mark = some space) (hu : g.Uses mark space)
    (ho : f.scope.get? mark = some other) : other = space
  first : f.Undisturbed g.scope
  second : g.Undisturbed f.scope

/-- Whether the names and values of a fragment can be read back from markup. -/
structure Bound (f : Fragment) : Prop where
  complete : f.Complete
  qualified : f.Qualified
  proper : ProperAll f.trees
  scope : f.scope.Sound
  legible : ∀ n ∈ f.nodes, LegibleLeaf n

theorem Complete.trees_append {f g : Fragment} (hf : f.Complete) (hg : g.Complete) :
    (f ++ g).trees = f.trees ++ g.trees := by
  have hnodes : (f ++ g).nodes = listingAll (f.trees ++ g.trees) := by
    rw [Tree.listingAll_append, ← hf.nodes_eq, ← hg.nodes_eq]
    rfl
  rw [trees, hnodes, Tree.forest_listingAll]

namespace Bound
variable {f g : Fragment}

theorem append (hf : f.Bound) (hg : g.Bound) (h : f.Compatible g) : (f ++ g).Bound := by
  have htrees := hf.complete.trees_append hg.complete
  have hget (mark : String) : (f ++ g).scope.get? mark = (f.scope.get? mark).or (g.scope.get? mark) :=
    Scope.get?_orElse _ _ mark
  have hreserved : (f ++ g).scope.Unreserved := by
    intro mark hm
    rw [hget, hf.qualified.scope mark hm, hg.qualified.scope mark hm]
    rfl
  have hxml := hreserved "xml" (by decide)
  have hfirst : Scope.Covers (Scope.base.override f.scope) (Scope.base.override (f ++ g).scope)
      (listingAll f.trees) := by
    rw [← hf.complete.nodes_eq]
    refine Scope.covers_override (fun mark space hs _ => ?_) (fun hs hu => ?_) hxml
    · rw [hget, hs]
      rfl
    · rw [hget, hs]
      exact h.first hs hu
  have hsecond : Scope.Covers (Scope.base.override g.scope) (Scope.base.override (f ++ g).scope)
      (listingAll g.trees) := by
    rw [← hg.complete.nodes_eq]
    refine Scope.covers_override (fun mark space hs hu => ?_) (fun hs hu => ?_) hxml
    · rw [hget]
      cases ho : f.scope.get? mark with
      | none => exact hs
      | some other => exact congrArg some (h.kept hs hu ho)
    · rw [hget, hs, Option.or_none]
      exact h.second hs hu
  refine ⟨hf.complete.append hg.complete, ⟨?_, ?_, hreserved⟩, ?_, hf.scope.orElse hg.scope, ?_⟩
  · rw [htrees, Tree.qualifiedAll_append]
    exact ⟨hf.qualified.trees.mono _ hfirst, hg.qualified.trees.mono _ hsecond⟩
  · exact List.forall_mem_append.mpr ⟨hf.qualified.unreserved, hg.qualified.unreserved⟩
  · rw [htrees, Tree.properAll_append]
    exact ⟨hf.proper, hg.proper⟩
  · exact List.forall_mem_append.mpr ⟨hf.legible, hg.legible⟩

/-- Wherever bound trees are placed they are bound. -/
theorem boundAll_treesUnder (h : f.Bound) {target : Scope}
    (hxml : target.get? "xml" = some xmlNamespace) : BoundAll target (f.treesUnder target) :=
  (Tree.boundAll_iff _).mpr
    ⟨Tree.properAll_placed h.scope h.proper, (h.qualified.treesUnder h.complete hxml).1⟩

theorem legible_treesUnder (h : f.Bound) (target : Scope) :
    ∀ n ∈ listingAll (f.treesUnder target), LegibleLeaf n := by
  apply Tree.legibleLeaf_placed
  rw [← h.complete.nodes_eq]
  exact h.legible

end Bound
end Fragment

theorem Tree.hereditary_properAll : Tree.Hereditary fun _ ts => ProperAll ts := by
  apply Tree.Hereditary.of_local (Q := fun _ name attributes =>
    IsNamePart name.base ∧ Tree.AttributesProper attributes)
  · intro s
    trivial
  · simp [ProperAll]
  · simp [ProperAll, Tree.Proper, and_assoc]

namespace Document
variable {d : Document}

/-- Whether the names of a document are led to their namespaces, and names and values can be read back
from markup. -/
structure Bound (d : Document) : Prop where
  qualified : d.Qualified
  proper : ProperAll d.trees
  inherited : d.inherited.Sound
  legible : ∀ n ∈ d.nodes, LegibleLeaf n

theorem WellFormed.sound_scopeAt_root (w : d.WellFormed) (h : d.inherited.Sound) :
    (d.scopeAt 0).Sound := by
  rw [w.scopeAt_root]
  exact Scope.sound_base.override h

namespace Bound
variable (h : d.Bound) (w : d.WellFormed) {n : Handle}
include h w

/-- What is cut out of its place was read there, and takes bindings along that hold there. -/
private theorem extract_of_stands {b : Branch} {before after : List Entry}
    (hs : Stands b d.tree.children before after) (hn : d.locate? n = some (before.length + 1))
    {f : Fragment} (hf : d.extract n = .ok f) :
    ProperAll f.trees ∧ f.scope.Sound ∧ ∀ m ∈ f.nodes, LegibleLeaf m := by
  have hkept : Tree.Hereditary fun s ts => s.Sound ∧ ProperAll ts :=
    Tree.hereditary_properAll.sound fun h => h.1.2.1.declared
  obtain ⟨hsound, hproper⟩ := w.of_stands hs hkept ⟨w.sound_scopeAt_root h.inherited, h.proper⟩
  rw [(w.extract_of_stands hs hn).1] at hf
  cases hf
  refine ⟨?_, ?_, ?_⟩
  · rw [Fragment.trees, Tree.forest_listingAll]
    exact hproper
  · cases hparent : d.parent? (before.length + 1) with
    | none => exact h.inherited
    | some parent =>
      rw [hparent] at hsound
      exact hsound.without .base
  · rw [← w.extent_of_stands hs]
    exact fun m hm => h.legible m (List.mem_of_mem_take (List.mem_of_mem_drop hm))

/-- What is taken out of a bound document is bound. -/
theorem extract {q : Nat} (hn : d.locate? n = some q) (hq : d.node q ≠ .finish) :
    ∃ f, d.extract n = .ok f ∧ f.Bound ∧ f.trees = d.treesAt q := by
  obtain ⟨f, hf, hcomplete, hqualified, htrees⟩ := h.qualified.extract w hn hq
  have hfound := w.found hn
  have hread : ProperAll f.trees ∧ f.scope.Sound ∧ ∀ m ∈ f.nodes, LegibleLeaf m := by
    cases hfound with
    | root _ =>
      have hextract := extract_eq hn
      rw [w.node_of_root, hf] at hextract
      cases hextract
      refine ⟨?_, h.inherited, fun m hm =>
        h.legible m (List.mem_of_mem_take (List.mem_of_mem_drop hm))⟩
      rw [htrees, treesAt, w.node_of_root]
      exact h.proper
    | element hs => exact h.extract_of_stands w hs hn hf
    | leaf hs => exact h.extract_of_stands w hs hn hf
    | «attribute» hs =>
      have hextract := extract_eq hn
      rw [w.node_of_attribute hs, hf] at hextract
      cases hextract
      exact ⟨⟨trivial, trivial⟩, by rintro _ _ ⟨⟩, by simp [Fragment.ofText, LegibleLeaf]⟩
    | finish hs => exact absurd (w.node_of_finish hs) hq
  exact ⟨f, hf, ⟨hcomplete, hqualified, hread.1, hread.2.1, hread.2.2⟩, htrees⟩

end Bound

theorem bound_ofTrees {id : Nat} {ts : List Tree} (hb : BoundAll .base ts)
    (hu : ∀ n ∈ listingAll ts, n.Unreserved) (hl : ∀ n ∈ listingAll ts, LegibleLeaf n) :
    (ofTrees id ts).WellFormed ∧ (ofTrees id ts).Bound := by
  obtain ⟨hproper, hqualified⟩ := (Tree.boundAll_iff ts).mp hb
  obtain ⟨w, hq⟩ := @qualified_ofTrees id ts hqualified hu
  have hnodes : (ofTrees id ts).nodes = .document :: (listingAll ts ++ [.finish]) :=
    nodes_ofNodes ..
  refine ⟨w, hq, ?_, nofun, ?_⟩
  · rw [trees, hnodes, Tree.forest_document]
    exact hproper
  · rw [hnodes, List.forall_mem_cons, List.forall_mem_append, List.forall_mem_singleton]
    exact ⟨trivial, hl, trivial⟩

end Document
end MarkupGraft
