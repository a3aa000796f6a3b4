import MarkupGraft.Proofs.Store.Binding
import MarkupGraft.Proofs.Store.Placement

/-!
Names whose namespaces are declared where they stand. An outermost element of a fragment declares
where it is placed what its subtree uses, so its names stay declared.
-/

namespace MarkupGraft
open MarkupGraft.Tree (listing listingAll attributeNodes)

namespace Name

/-- Whether the bindings in scope lead to the namespace of a name. -/
def Qualified (s : Scope) : NameRole → Name → Prop
  | .element, n =>
    if n.space = "" then (s.get? "").getD "" = "" else ∃ mark, s.get? mark = some n.space
  | .attribute, n => n.space = "" ∨ ∃ mark, mark ≠ "" ∧ s.get? mark = some n.space

theorem bound_iff {s : Scope} {role : NameRole} {n : Name} :
    n.Bound s role ↔ IsNamePart n.base ∧ n.Qualified s role := by
  cases role <;> rfl

end Name

namespace Scope

/-- The bindings of `t` lead the names of some nodes where those of `s` lead them. -/
structure Covers (s t : Scope) (nodes : List Node) : Prop where
  used {mark space : String} (hs : space ≠ "") (h : s.get? mark = some space)
    (hu : ∃ n ∈ nodes, Placement.uses mark space n) : t.get? mark = some space
  default (h : (s.get? "").getD "" = "") (hu : ∃ n ∈ nodes, Placement.isUnqualified n) :
    (t.get? "").getD "" = ""

theorem Covers.mono {s t : Scope} {nodes others : List Node} (h : Covers s t nodes)
    (hsub : others ⊆ nodes) : Covers s t others :=
  ⟨fun hs hg ⟨n, hn, hu⟩ => h.used hs hg ⟨n, hsub hn, hu⟩,
    fun hg ⟨n, hn, hu⟩ => h.default hg ⟨n, hsub hn, hu⟩⟩

theorem covers_of_get? {s t : Scope} (h : ∀ mark, t.get? mark = s.get? mark) (nodes : List Node) :
    Covers s t nodes :=
  ⟨fun _ hg _ => (h _).trans hg, fun hg _ => by rwa [h]⟩

end Scope

/-- An element in no namespace uses a default namespace that is none. -/
theorem Placement.uses_of_isUnqualified {n : Node} (h : isUnqualified n) : uses "" "" n := by
  cases n <;> simp [isUnqualified, uses] at h ⊢
  exact h

namespace Tree
open Scope (Covers)

/-! Declared prefixes -/

/-- The prefixes that attributes declare. -/
def declaredMarks (attributes : List (Name × String)) : List String :=
  attributes.filterMap (·.1.declares?)

private theorem declare_cons (s : Scope) (a : Name × String) (attributes : List (Name × String)) :
    declare s (a :: attributes) = declare (match a.1.declares? with
      | some mark => s.insert mark a.2
      | none => s) attributes := rfl

theorem declare_append (s : Scope) (as bs : List (Name × String)) :
    declare s (as ++ bs) = declare (declare s as) bs := List.foldl_append

private theorem get?_declare_congr {s t : Scope} {mark : String} (h : s.get? mark = t.get? mark)
    (attributes : List (Name × String)) :
    (declare s attributes).get? mark = (declare t attributes).get? mark := by
  induction attributes generalizing s t with
  | nil => exact h
  | cons a attributes ih =>
    rw [declare_cons, declare_cons]
    cases a.1.declares? with
    | none => exact ih h
    | some other => exact ih (by simp [h])

/-- What attributes declare holds whatever was bound before. -/
theorem get?_declare_of_mem {attributes : List (Name × String)} {mark : String}
    (h : mark ∈ declaredMarks attributes) (s t : Scope) :
    (declare s attributes).get? mark = (declare t attributes).get? mark := by
  induction attributes generalizing s t with
  | nil => cases h
  | cons a attributes ih =>
    rw [declare_cons, declare_cons]
    cases hd : a.1.declares? with
    | none =>
      rw [declaredMarks, List.filterMap_cons, hd] at h
      exact ih h s t
    | some other =>
      rw [declaredMarks, List.filterMap_cons, hd, List.mem_cons] at h
      by_cases hm : mark = other
      · exact get?_declare_congr (by simp [hm]) attributes
      · exact ih (h.resolve_left hm) _ _

theorem get?_declare_of_not_mem {attributes : List (Name × String)} {mark : String}
    (h : mark ∉ declaredMarks attributes) (s : Scope) :
    (declare s attributes).get? mark = s.get? mark := by
  induction attributes generalizing s with
  | nil => rfl
  | cons a attributes ih =>
    rw [declare_cons]
    cases hd : a.1.declares? with
    | none =>
      rw [declaredMarks, List.filterMap_cons, hd] at h
      exact ih h s
    | some other =>
      rw [declaredMarks, List.filterMap_cons, hd, List.mem_cons, not_or] at h
      rw [← declaredMarks] at h
      have := ih h.2 (s.insert other a.2)
      rw [Scope.get?_insert, if_neg h.1] at this
      exact this

/-! Qualified trees -/

/-- Whether the names of attributes, declarations apart, are led to their namespaces. -/
def AttributesQualified (s : Scope) (attributes : List (Name × String)) : Prop :=
  ∀ a ∈ attributes, a.1.declares? = none → a.1.Qualified s .attribute

mutual

/-- Whether the names of a tree are led to their namespaces where `s` is in scope. -/
def Qualified (s : Scope) : Tree → Prop
  | .element name attributes children =>
    name.Qualified (declare s attributes) .element ∧
      AttributesQualified (declare s attributes) attributes ∧
        QualifiedAll (declare s attributes) children
  | _ => True

def QualifiedAll (s : Scope) : List Tree → Prop
  | [] => True
  | tree :: trees => Qualified s tree ∧ QualifiedAll s trees

end

theorem qualifiedAll_append {s : Scope} {ts us : List Tree} :
    QualifiedAll s (ts ++ us) ↔ QualifiedAll s ts ∧ QualifiedAll s us := by
  induction ts with
  | nil => simp [QualifiedAll]
  | cons t ts ih => simp [QualifiedAll, ih, and_assoc]

private theorem covers_declare {s t : Scope} {nodes : List Node} (h : Covers s t nodes)
    (attributes : List (Name × String)) :
    Covers (declare s attributes) (declare t attributes) nodes := by
  constructor
  · intro mark space hspace hs hu
    by_cases hm : mark ∈ declaredMarks attributes
    · rw [← hs]
      exact get?_declare_of_mem hm t s
    · rw [get?_declare_of_not_mem hm] at hs ⊢
      exact h.used hspace hs hu
  · intro hs hu
    by_cases hm : "" ∈ declaredMarks attributes
    · rw [get?_declare_of_mem hm t s]
      exact hs
    · rw [get?_declare_of_not_mem hm] at hs ⊢
      exact h.default hs hu

private theorem qualified_element_mono {s t : Scope} {name : Name} {nodes : List Node}
    (h : Covers s t nodes) (hn : .element name ∈ nodes) (hq : name.Qualified s .element) :
    name.Qualified t .element := by
  simp only [Name.Qualified] at hq ⊢
  split
  · rename_i he
    rw [if_pos he] at hq
    exact h.default hq ⟨_, hn, by simp [Placement.isUnqualified, he]⟩
  · rename_i he
    rw [if_neg he] at hq
    obtain ⟨mark, hget⟩ := hq
    exact ⟨mark, h.used he hget ⟨_, hn, by simp [Placement.uses]⟩⟩

private theorem qualified_attribute_mono {s t : Scope} {name : Name} {value : String}
    {nodes : List Node} (h : Covers s t nodes) (hn : .attribute name value ∈ nodes)
    (hq : name.Qualified s .attribute) : name.Qualified t .attribute := by
  by_cases he : name.space = ""
  · exact .inl he
  · obtain ⟨mark, hne, hget⟩ := hq.resolve_left he
    exact .inr ⟨mark, hne, h.used he hget ⟨_, hn, by simp [Placement.uses, hne]⟩⟩

private theorem attributesQualified_mono {s t : Scope} {attributes : List (Name × String)}
    {nodes : List Node} (h : Covers s t nodes) (hn : attributeNodes attributes ⊆ nodes)
    (hq : AttributesQualified s attributes) : AttributesQualified t attributes :=
  fun a ha hd => qualified_attribute_mono h (hn (List.mem_map_of_mem ha)) (hq a ha hd)

mutual

/-- A qualified tree is qualified wherever its names are led to the same namespaces. -/
theorem Qualified.mono {s t : Scope} : ∀ tree : Tree, Covers s t (listing tree) →
    Qualified s tree → Qualified t tree
  | .element name attributes children, h, ⟨hname, hattributes, hchildren⟩ => by
    have hinner := covers_declare h attributes
    refine ⟨qualified_element_mono hinner (by simp [listing]) hname,
      attributesQualified_mono hinner ?_ hattributes,
      QualifiedAll.mono children (hinner.mono ?_) hchildren⟩
    · intro n hn
      simp [listing, hn]
    · intro n hn
      simp [listing, hn]
  | .text _, _, _ | .comment _, _, _ | .instruction _, _, _ | .doctype _, _, _ => trivial

theorem QualifiedAll.mono {s t : Scope} : ∀ trees : List Tree, Covers s t (listingAll trees) →
    QualifiedAll s trees → QualifiedAll t trees
  | [], _, _ => trivial
  | tree :: trees, h, ⟨hq, hall⟩ => by
    refine ⟨Qualified.mono tree (h.mono ?_) hq, QualifiedAll.mono trees (h.mono ?_) hall⟩
    · intro n hn
      simp [listingAll, hn]
    · intro n hn
      simp [listingAll, hn]

end

/-! Placed trees -/

/-- The bindings of the former place that an outermost element declares where `target` is in
scope. -/
def takenBindings (scope target : Scope) (name : Name) (attributes : List (Name × String))
    (children : List Tree) : List (String × String) :=
  scope.bindings.filter fun b =>
    !(declaredMarks attributes).contains b.1 && target.get? b.1 != some b.2 &&
      (listing (.element name attributes children)).any (Placement.uses b.1 b.2)

/-- Whether an outermost element undoes the default namespace that it comes under. -/
def undoesDefault (scope target : Scope) (name : Name) (attributes : List (Name × String))
    (children : List Tree) : Bool :=
  (listing (.element name attributes children)).any Placement.isUnqualified &&
    (target.get? "").any (· ≠ "") && !(declaredMarks attributes).contains "" && !scope.contains ""

section
variable {scope target : Scope} {name : Name} {attributes : List (Name × String)}
  {children : List Tree}

theorem declared_eq : (Tree.element name attributes children).declared scope target =
    (takenBindings scope target name attributes children).map
        (fun b => (Name.declaring b.1, b.2)) ++
      if undoesDefault scope target name attributes children then [(Name.declaring "", "")]
      else [] := by
  have hown := Placement.ownPrefixes_attributes attributes children []
  have hinside := Placement.inside_attributes attributes children []
  rw [List.append_nil] at hown hinside
  have hpairs (bindings : List (String × String)) : (bindings.map fun b =>
      Node.attribute (Name.declaring b.1) b.2).filterMap Node.pair? =
        bindings.map fun b => (Name.declaring b.1, b.2) := by
    rw [List.filterMap_map, ← List.filterMap_eq_map]
    rfl
  simp only [declared, Placement.declarations, hown, hinside]
  change List.filterMap Node.pair? (if undoesDefault scope target name attributes children then _
    else _) = _
  split
  · rw [List.filterMap_append]
    exact congrArg (· ++ _) (hpairs _)
  · rw [List.append_nil]
    exact hpairs _

/-- What an outermost element declares of its former place, as a scope. -/
private def taken (scope target : Scope) (name : Name) (attributes : List (Name × String))
    (children : List Tree) : Scope :=
  ⟨takenBindings scope target name attributes children, scope.increasing.filter _⟩

private theorem get?_taken {mark space : String} :
    (taken scope target name attributes children).get? mark = some space ↔
      scope.get? mark = some space ∧ mark ∉ declaredMarks attributes ∧
        target.get? mark ≠ some space ∧
          ∃ n ∈ listing (.element name attributes children), Placement.uses mark space n := by
  rw [← Scope.mem_bindings_iff]
  simp [taken, takenBindings, Scope.mem_bindings_iff, and_assoc]

private theorem declare_declared :
    declare target ((Tree.element name attributes children).declared scope target) =
      if undoesDefault scope target name attributes children then
        (target.override (taken scope target name attributes children)).insert "" ""
      else target.override (taken scope target name attributes children) := by
  have htaken : declare target ((takenBindings scope target name attributes children).map
      fun b => (Name.declaring b.1, b.2)) =
        target.override (taken scope target name attributes children) := by
    rw [declare, List.foldl_map]
    simp only [Name.declares?_declaring]
    rfl
  rw [declared_eq, declare_append, htaken]
  split <;> rfl

private theorem get?_taken_or_none {mark : String} :
    (taken scope target name attributes children).get? mark = none ∨
      (taken scope target name attributes children).get? mark = scope.get? mark := by
  cases h : (taken scope target name attributes children).get? mark with
  | none => exact .inl rfl
  | some space => exact .inr (get?_taken.mp h).1.symm

private theorem get?_declare_declared {mark : String}
    (h : mark = "" → undoesDefault scope target name attributes children = false) :
    (declare target ((Tree.element name attributes children).declared scope target)).get? mark =
      ((taken scope target name attributes children).get? mark).or (target.get? mark) := by
  rw [declare_declared]
  split
  · rename_i hundo
    rw [Scope.get?_insert, if_neg, Scope.get?_override]
    intro hm
    rw [h hm] at hundo
    cases hundo
  · rw [Scope.get?_override]

private theorem undoesDefault_of_contains {space : String} (h : scope.get? "" = some space) :
    undoesDefault scope target name attributes children = false := by
  simp [undoesDefault, Scope.contains, h]

/-- What is used of the former place is declared, unless it is bound anyway. -/
private theorem get?_declared_of_uses {mark space : String}
    (hm : mark ∉ declaredMarks attributes)
    (hu : ∃ n ∈ listing (.element name attributes children), Placement.uses mark space n)
    (h : scope.get? mark = some space) :
    (declare target ((Tree.element name attributes children).declared scope target)).get? mark =
      some space := by
  have hundo : mark = "" → undoesDefault scope target name attributes children = false := by
    rintro rfl
    exact undoesDefault_of_contains h
  rw [get?_declare_declared hundo]
  by_cases ht : target.get? mark = some space
  · rcases @get?_taken_or_none scope target name attributes children mark with hn | hn
    · rw [hn, ht]
      rfl
    · rw [hn, h]
      rfl
  · rw [get?_taken.mpr ⟨h, hm, ht, hu⟩]
    rfl

/-- A default namespace that the former place does not have is undone where it would be used. -/
private theorem default_declared (hm : "" ∉ declaredMarks attributes)
    (hu : ∃ n ∈ listing (.element name attributes children), Placement.isUnqualified n)
    (h : (scope.get? "").getD "" = "") :
    ((declare target ((Tree.element name attributes children).declared scope target)).get? "").getD
      "" = "" := by
  cases hscope : scope.get? "" with
  | some space =>
    rw [hscope] at h
    obtain rfl : space = "" := h
    obtain ⟨n, hn, hunqualified⟩ := hu
    rw [get?_declared_of_uses hm ⟨n, hn, Placement.uses_of_isUnqualified hunqualified⟩ hscope]
    rfl
  | none =>
    by_cases hundo : undoesDefault scope target name attributes children
    · rw [declare_declared, if_pos hundo, Scope.get?_insert, if_pos rfl]
      rfl
    · have htaken : (taken scope target name attributes children).get? "" = none := by
        rcases @get?_taken_or_none scope target name attributes children "" with hn | hn
        · exact hn
        · exact hn.trans hscope
      rw [get?_declare_declared fun _ => by simpa using hundo, htaken, Option.none_or]
      by_contra hne
      refine hundo ?_
      have hany := List.any_eq_true.mpr hu
      cases ht : target.get? "" with
      | none => simp [ht] at hne
      | some space =>
        rw [ht] at hne
        simp only [undoesDefault, hany, ht, Scope.contains, hscope]
        simpa using ⟨hne, hm⟩

/-- Where the former place does not bind a prefix, it stays bound as it is. -/
private theorem get?_declared_of_none {mark : String} (hm : mark ≠ "")
    (h : scope.get? mark = none) :
    (declare target ((Tree.element name attributes children).declared scope target)).get? mark =
      target.get? mark := by
  rw [get?_declare_declared fun he => absurd he hm]
  rcases @get?_taken_or_none scope target name attributes children mark with hn | hn
  · rw [hn, Option.none_or]
  · rw [hn, h, Option.none_or]

/-- With what it declares, an outermost element leads its names where its former place did. -/
private theorem covers_declared (hxml : target.get? "xml" = some xmlNamespace) :
    Covers (declare (Scope.base.override scope) attributes)
      (declare target ((Tree.element name attributes children).declared scope target ++ attributes))
      (listing (.element name attributes children)) := by
  rw [declare_append]
  constructor
  · intro mark space hspace h hu
    by_cases hm : mark ∈ declaredMarks attributes
    · rw [← h]
      exact get?_declare_of_mem hm _ _
    rw [get?_declare_of_not_mem hm] at h ⊢
    rw [Scope.get?_override] at h
    cases hscope : scope.get? mark with
    | some other =>
      rw [hscope] at h
      cases h
      exact get?_declared_of_uses hm hu hscope
    | none =>
      rw [hscope, Option.none_or, Scope.get?_base] at h
      split at h
      · rename_i hmark
        subst hmark
        cases h
        rw [get?_declared_of_none (by decide) hscope, hxml]
      · split at h
        · cases h
          exact absurd rfl hspace
        · cases h
  · intro h hu
    by_cases hm : "" ∈ declaredMarks attributes
    · rw [get?_declare_of_mem hm _ (Scope.base.override scope)]
      exact h
    · rw [get?_declare_of_not_mem hm] at h ⊢
      refine default_declared hm hu ?_
      rw [Scope.get?_override, Scope.get?_base] at h
      cases hscope : scope.get? "" with
      | none => rfl
      | some space =>
        rw [hscope] at h
        exact h

/-- With what it declares, an outermost element has the namespaces of its names under the prefixes
that they had at its former place, unless that place had bound the reserved prefix anew. -/
theorem get?_declared_iff
    (hxml : ∀ space, scope.get? "xml" = some space → space = xmlNamespace) {mark space : String}
    (hspace : space ≠ "")
    (hu : ∃ n ∈ listing (.element name attributes children), Placement.uses mark space n) :
    (declare (Scope.base.override scope) attributes).get? mark = some space ↔
      (declare .base ((Tree.element name attributes children).declared scope .base ++
        attributes)).get? mark = some space := by
  refine ⟨fun h => (covers_declared (Scope.get?_base "xml")).used hspace h hu, fun h => ?_⟩
  rw [declare_append] at h
  by_cases hm : mark ∈ declaredMarks attributes
  · rw [← h]
    exact get?_declare_of_mem hm _ _
  have hundo : undoesDefault scope .base name attributes children = false := by
    simp [undoesDefault, Scope.get?_base]
  rw [get?_declare_of_not_mem hm, get?_declare_declared fun _ => hundo] at h
  rw [get?_declare_of_not_mem hm, Scope.get?_override]
  cases htaken : (taken scope .base name attributes children).get? mark with
  | some other =>
    rw [htaken] at h
    cases h
    rw [(get?_taken.mp htaken).1]
    rfl
  | none =>
    -- What is bound without a declaration to a namespace is the reserved prefix alone.
    rw [htaken, Option.none_or] at h
    have hmark : mark = "xml" := by
      by_contra hne
      rw [Scope.get?_base, if_neg hne] at h
      split at h <;> cases h
      exact hspace rfl
    subst hmark
    cases hscope : scope.get? "xml" with
    | none => exact h
    | some other =>
      rw [hxml other hscope]
      exact h

/-- A tree qualified at a former place is qualified with the declarations it takes from there. -/
theorem qualified_placed {t : Tree} (hxml : target.get? "xml" = some xmlNamespace)
    (h : t.Qualified (Scope.base.override scope)) : (t.placed scope target).Qualified target := by
  cases t with
  | element name attributes children =>
    obtain ⟨hname, hattributes, hchildren⟩ := h
    have hcovers := @covers_declared scope target name attributes children hxml
    refine ⟨qualified_element_mono hcovers (by simp [listing]) hname, ?_,
      QualifiedAll.mono children (hcovers.mono ?_) hchildren⟩
    · intro a ha hd
      rcases List.mem_append.mp ha with ha | ha
      · have := Placement.declares?_of_mem_declared scope target ha
        rw [hd] at this
        cases this
      · exact attributesQualified_mono hcovers (by intro n hn; simp [listing, hn]) hattributes a ha hd
    · intro n hn
      simp [listing, hn]
  | _ => trivial

theorem qualifiedAll_placed {ts : List Tree} (hxml : target.get? "xml" = some xmlNamespace)
    (h : QualifiedAll (Scope.base.override scope) ts) :
    QualifiedAll target (ts.map (Tree.placed scope target)) := by
  induction ts with
  | nil => trivial
  | cons t ts ih => exact ⟨qualified_placed hxml h.1, ih h.2⟩

/-- What an element declares where it is placed binds prefixes of its former place, or undoes the
default namespace. -/
theorem exists_of_mem_declared {b : Name × String}
    (hb : b ∈ (Tree.element name attributes children).declared scope target) :
    ∃ mark space, b = (Name.declaring mark, space) ∧ mark ∉ declaredMarks attributes ∧
      (scope.get? mark = some space ∨ mark = "" ∧ space = "") := by
  rw [declared_eq, List.mem_append] at hb
  rcases hb with hb | hb
  · obtain ⟨⟨mark, space⟩, hm, rfl⟩ := List.mem_map.mp hb
    have hget : (taken scope target name attributes children).get? mark = some space :=
      Scope.mem_bindings_iff.mp hm
    exact ⟨mark, space, rfl, (get?_taken.mp hget).2.1, .inl (get?_taken.mp hget).1⟩
  · split at hb
    · rename_i hundo
      rw [List.mem_singleton] at hb
      subst hb
      refine ⟨"", "", rfl, ?_, .inr ⟨rfl, rfl⟩⟩
      simp only [undoesDefault, Bool.and_eq_true, Bool.not_eq_true'] at hundo
      simpa using hundo.1.2
    · cases hb

/-- What an element declares where it is placed it declares once. -/
theorem nodup_declared :
    (declaredMarks ((Tree.element name attributes children).declared scope target)).Nodup := by
  have hmarks : declaredMarks ((takenBindings scope target name attributes children).map
      fun b => (Name.declaring b.1, b.2)) =
        (takenBindings scope target name attributes children).map (·.1) := by
    rw [declaredMarks, List.filterMap_map]
    simp
  have htaken : ((takenBindings scope target name attributes children).map (·.1)).Nodup := by
    rw [List.Nodup, List.pairwise_map]
    refine (taken scope target name attributes children).increasing.imp fun hlt he => ?_
    rw [he] at hlt
    exact String.lt_irrefl _ hlt
  rw [declared_eq, declaredMarks, List.filterMap_append, ← declaredMarks, hmarks]
  split
  · rename_i hundo
    rw [List.nodup_append]
    refine ⟨htaken, List.nodup_singleton _, ?_⟩
    rintro mark hm other ho rfl
    obtain ⟨⟨_, space⟩, hb, rfl⟩ := List.mem_map.mp hm
    obtain rfl : _ = "" := by simpa using ho
    have hget : (taken scope target name attributes children).get? "" = some space :=
      Scope.mem_bindings_iff.mp hb
    rw [undoesDefault_of_contains (get?_taken.mp hget).1] at hundo
    cases hundo
  · simpa [declaredMarks] using htaken

end

/-- A tree that comes from nowhere else declares nothing. -/
theorem placed_of_isEmpty {scope : Scope} (h : scope.isEmpty) (t : Tree) :
    t.placed scope .base = t := by
  have hbindings : scope.bindings = [] := List.isEmpty_iff.mp h
  cases t with
  | element name attributes children =>
    have hundo : undoesDefault scope .base name attributes children = false := by
      simp [undoesDefault, Scope.get?_base]
    rw [placed, declared_eq, takenBindings, hbindings, hundo]
    rfl
  | _ => rfl

/-- Placed trees have the nodes they had and declarations. -/
theorem mem_listingAll_placed {scope target : Scope} {ts : List Tree} {n : Node}
    (h : n ∈ listingAll (ts.map (Tree.placed scope target))) : n ∈ listingAll ts ∨
      ∃ mark space, n = .attribute (Name.declaring mark) space ∧
        (scope.get? mark = some space ∨ mark = "" ∧ space = "") := by
  induction ts with
  | nil => exact .inl h
  | cons t ts ih =>
    rw [List.map_cons, listingAll, List.mem_append] at h
    rw [listingAll, List.mem_append]
    rcases h with h | h
    · cases t with
      | element name attributes children =>
        rw [placed, withDeclarations, listing, attributeNodes_append, List.append_assoc,
          List.mem_cons, List.mem_append] at h
        rcases h with rfl | h | h
        · exact .inl (.inl (by simp [listing]))
        · obtain ⟨b, hb, rfl⟩ := List.mem_map.mp h
          obtain ⟨mark, space, rfl, -, hspace⟩ := exists_of_mem_declared hb
          exact .inr ⟨mark, space, rfl, hspace⟩
        · exact .inl (.inl (by rw [listing]; exact List.mem_cons_of_mem _ h))
      | _ => exact .inl (.inl h)
    · exact (ih h).imp_left .inr

end Tree
end MarkupGraft
