import MarkupGraft.Proofs.Store.Qualification
import MarkupGraft.Proofs.Store.Writing

/-!
Trees that can be written wherever their names are led to their namespaces. Bound under the bindings
of a former place, they are bound on their own with the declarations they take from there.
-/

namespace MarkupGraft
namespace Tree
variable {scope target : Scope}

/-- Whether attributes can be written where their names are led to their namespaces. -/
structure AttributesProper (attributes : List (Name × String)) : Prop where
  declared : ∀ a ∈ attributes, ∀ mark, a.1.declares? = some mark → Declarable mark a.2
  isNamePart : ∀ a ∈ attributes, a.1.declares? = none → IsNamePart a.1.base
  nodup : (attributes.map (·.1)).Nodup

mutual

/-- Whether a tree can be written where its names are led to their namespaces. -/
def Proper : Tree → Prop
  | .element name attributes children =>
    IsNamePart name.base ∧ AttributesProper attributes ∧ ProperAll children
  | _ => True

def ProperAll : List Tree → Prop
  | [] => True
  | tree :: trees => Proper tree ∧ ProperAll trees

end

private theorem attributesBound_iff {s : Scope} {attributes : List (Name × String)} :
    AttributesBound s attributes ↔ AttributesProper attributes ∧ AttributesQualified s attributes := by
  constructor
  · intro h
    refine ⟨⟨h.declared, fun a ha hd => ?_, h.nodup⟩, fun a ha hd => ?_⟩
    · exact (Name.bound_iff.mp (h.bound a ha hd)).1
    · exact (Name.bound_iff.mp (h.bound a ha hd)).2
  · rintro ⟨hp, hq⟩
    exact ⟨hp.declared, fun a ha hd =>
      Name.bound_iff.mpr ⟨hp.isNamePart a ha hd, hq a ha hd⟩, hp.nodup⟩

mutual

theorem bound_iff : ∀ (t : Tree) {s : Scope}, t.Bound s ↔ t.Proper ∧ t.Qualified s
  | .element name attributes children, s => by
    simp only [Bound, Proper, Qualified, Name.bound_iff, attributesBound_iff,
      boundAll_iff children]
    tauto
  | .text _, _ | .comment _, _ | .instruction _, _ | .doctype _, _ => by
    simp [Bound, Proper, Qualified]

theorem boundAll_iff : ∀ (ts : List Tree) {s : Scope},
    BoundAll s ts ↔ ProperAll ts ∧ QualifiedAll s ts
  | [], _ => by simp [BoundAll, ProperAll, QualifiedAll]
  | t :: ts, s => by
    simp only [BoundAll, ProperAll, QualifiedAll, bound_iff t, boundAll_iff ts]
    tauto

end

theorem properAll_append {ts us : List Tree} :
    ProperAll (ts ++ us) ↔ ProperAll ts ∧ ProperAll us := by
  induction ts with
  | nil => simp [ProperAll]
  | cons t ts ih => simp [ProperAll, ih, and_assoc]

private theorem attributesProper_declared (hs : scope.Sound) {name : Name}
    {attributes : List (Name × String)} {children : List Tree} (h : AttributesProper attributes) :
    AttributesProper
      ((Tree.element name attributes children).declared scope target ++ attributes) := by
  constructor
  · intro a ha mark hd
    rcases List.mem_append.mp ha with ha | ha
    · obtain ⟨other, space, rfl, -, hspace⟩ := exists_of_mem_declared ha
      rw [Name.declares?_declaring] at hd
      cases hd
      rcases hspace with hget | ⟨rfl, rfl⟩
      · exact hs _ _ hget
      · exact ⟨.inl rfl, by decide, by decide⟩
    · exact h.declared a ha mark hd
  · intro a ha hd
    rcases List.mem_append.mp ha with ha | ha
    · have := Placement.declares?_of_mem_declared scope target ha
      rw [hd] at this
      cases this
    · exact h.isNamePart a ha hd
  · rw [List.map_append, List.nodup_append]
    refine ⟨?_, h.nodup, ?_⟩
    · have hmarks := List.pairwise_filterMap.mp
        (@nodup_declared scope target name attributes children)
      refine List.pairwise_map.mpr (hmarks.imp_of_mem fun {a b} ha _ hne he => ?_)
      obtain ⟨mark, hd⟩ :=
        Option.isSome_iff_exists.mp (Placement.declares?_of_mem_declared scope target ha)
      exact hne mark hd mark (he ▸ hd) rfl
    · intro m hm n hn he
      obtain ⟨a, ha, rfl⟩ := List.mem_map.mp hm
      obtain ⟨b, hb, rfl⟩ := List.mem_map.mp hn
      obtain ⟨mark, space, rfl, hmark, -⟩ := exists_of_mem_declared ha
      refine hmark (List.mem_filterMap.mpr ⟨b, hb, ?_⟩)
      rw [← he, Name.declares?_declaring]

theorem proper_placed (hs : scope.Sound) {t : Tree} (h : t.Proper) :
    (t.placed scope target).Proper := by
  cases t with
  | element name attributes children => exact ⟨h.1, attributesProper_declared hs h.2.1, h.2.2⟩
  | _ => trivial

theorem properAll_placed (hs : scope.Sound) {ts : List Tree} (h : ProperAll ts) :
    ProperAll (ts.map (Tree.placed scope target)) := by
  induction ts with
  | nil => trivial
  | cons t ts ih => exact ⟨proper_placed hs h.1, ih h.2⟩

/-- Trees bound at a former place are bound with the declarations they take from there. -/
theorem boundAll_placed (hs : scope.Sound) {ts : List Tree}
    (h : BoundAll (Scope.base.override scope) ts) :
    BoundAll .base (ts.map (Tree.placed scope .base)) := by
  obtain ⟨hproper, hqualified⟩ := (boundAll_iff ts).mp h
  exact (boundAll_iff _).mpr
    ⟨properAll_placed hs hproper, qualifiedAll_placed (Scope.get?_base "xml") hqualified⟩

end Tree
end MarkupGraft
