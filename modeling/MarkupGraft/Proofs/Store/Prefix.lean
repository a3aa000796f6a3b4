import MarkupGraft.Proofs.Store.Binding

/-!
The choice of a prefix undoes the reading of a name. A name is written with the first prefix that is
bound to its namespace, with none, or with its namespace for a prefix; read in the same scope, this is
the name again unless nothing in the scope can tell its namespace.
-/

namespace MarkupGraft

/-- No prefix has a colon in it, and none is the one that marks declarations. -/
def Scope.IsLegible (s : Scope) : Prop :=
  ∀ b ∈ s.bindings, ':' ∉ b.1.toList ∧ b.1 ≠ "xmlns"

instance (s : Scope) : Decidable s.IsLegible := inferInstanceAs (Decidable (∀ b ∈ s.bindings, _))

namespace Name

/-- What tells the namespace of a name where a scope holds. -/
inductive Told (s : Scope) (role : NameRole) (n : Name) : Prop where
  /-- There is none, and none is meant where there is no prefix. -/
  | unqualified (hspace : n.space = "") (hdefault : role = .element → (s.get? "").getD "" = "")
  /-- A prefix is bound to it. Attributes have no use for the empty one. -/
  | bound (hspace : n.space ≠ "") {mark : String} (hmark : role = .attribute → mark ≠ "")
    (hget : s.get? mark = some n.space)
  /-- It can be a prefix itself, and as one is bound to nothing. -/
  | undeclared (hfree : isColonFree n.space) (hget : s.get? n.space = none)

variable {s : Scope} {role : NameRole} {n : Name}

/-- A namespace is told by a prefix that is bound to it, or as a prefix. -/
theorem told_iff (hspace : n.space ≠ "") : n.Told s role ↔
    (∃ mark, (role = .attribute → mark ≠ "") ∧ s.get? mark = some n.space) ∨
      isColonFree n.space ∧ s.get? n.space = none := by
  constructor
  · rintro (⟨hempty, -⟩ | ⟨-, hmark, hget⟩ | ⟨hfree, hget⟩)
    · exact absurd hempty hspace
    · exact .inl ⟨_, hmark, hget⟩
    · exact .inr ⟨hfree, hget⟩
  · rintro (⟨mark, hmark, hget⟩ | ⟨hfree, hget⟩)
    · exact .bound hspace hmark hget
    · exact .undeclared hfree hget

section
variable (hs : s.IsLegible)
include hs

/-- A prefix that is bound to nothing, as the one that marks declarations is, stands for itself. -/
theorem resolve_prefixed {mark : String} (hmark : ':' ∉ mark.toList) (base : String) :
    resolve s role (mark ++ ":" ++ base) = ⟨(s.get? mark).getD mark, base⟩ := by
  by_cases hx : role = .attribute ∧ mark = "xmlns"
  · obtain ⟨rfl, rfl⟩ := hx
    have hget : s.get? "xmlns" = none := by
      cases h : s.get? "xmlns" with
      | none => rfl
      | some space => exact absurd rfl (hs _ (Scope.mem_bindings_iff.mpr h)).2
    rw [hget, resolve_xmlns]
    rfl
  · exact resolve_append hmark (fun hr he => hx ⟨hr, he⟩) base

variable (hbase : ':' ∉ n.base.toList)
include hbase

/-- A name whose namespace has a prefix is given back. -/
private theorem reread_of_marked (hspace : n.space ≠ "")
    (h : ∃ mark, (role = .attribute → mark ≠ "") ∧ s.get? mark = some n.space) :
    n.reread s role = n := by
  rw [reread]
  rcases prefixFor?_eq hspace h with ⟨hget, rfl, hprefix⟩ | ⟨mark, -, hget, hprefix⟩
  · rw [written, hprefix, resolve_base hbase, if_pos rfl, hget]
    rfl
  · have hmark := (hs _ (Scope.mem_bindings_iff.mpr hget)).1
    rw [written, hprefix, resolve_prefixed hs hmark, hget]
    rfl

/-- A name whose namespace has no prefix is given back if the namespace stands for itself as one. -/
private theorem reread_eq_iff_of_unbound (hspace : n.space ≠ "")
    (h : ¬∃ mark, (role = .attribute → mark ≠ "") ∧ s.get? mark = some n.space) :
    n.reread s role = n ↔ isColonFree n.space ∧ s.get? n.space = none := by
  by_cases hfree : isColonFree n.space
  · have hwritten : n.written s role = n.space ++ ":" ++ n.base := by
      rw [written, prefixFor?_of_unbound hspace h, if_pos hfree]
    rw [reread, hwritten, resolve_prefixed hs (isNamePart_of_isColonFree hfree).2, and_iff_right hfree]
    constructor
    · intro he
      cases hget : s.get? n.space with
      | none => rfl
      | some other =>
        rw [hget] at he
        exact absurd ⟨n.space, fun _ => hspace, hget.trans (congrArg (some ·.space) he)⟩ h
    · intro hget
      rw [hget]
      rfl
  · have hwritten : n.written s role = n.base := by
      rw [written, prefixFor?_of_unbound hspace h, if_neg hfree]
    rw [reread, hwritten, resolve_base hbase]
    refine iff_of_false (fun he => ?_) fun hf => hfree hf.1
    -- Without a prefix only a default namespace could be told, and this one is not the default.
    have hdefault := congrArg Name.space he
    by_cases hr : role = .element
    · rw [if_pos hr] at hdefault
      cases hget : s.get? "" with
      | none => exact hspace (by rw [← hdefault, hget]; rfl)
      | some other =>
        rw [hget] at hdefault
        exact h ⟨"", fun ha => by simp [hr] at ha, hget.trans (congrArg some hdefault)⟩
    · rw [if_neg hr] at hdefault
      exact hspace hdefault.symm

/-- A name is given back where it is written exactly if its namespace is told there. -/
theorem reread_eq_self_iff : n.reread s role = n ↔ n.Told s role := by
  by_cases hspace : n.space = ""
  · have hwritten : n.written s role = n.base := by rw [written, prefixFor?, if_pos hspace]
    rw [reread, hwritten, resolve_base hbase]
    constructor
    · intro h
      refine .unqualified hspace fun hr => ?_
      have hdefault := congrArg Name.space h
      rwa [if_pos hr, hspace] at hdefault
    · rintro (⟨-, hdefault⟩ | ⟨hne, -, -⟩ | ⟨hfree, -⟩)
      · have hempty : (if role = .element then (s.get? "").getD "" else "") = n.space := by
          rw [hspace]
          split
          · exact hdefault ‹_›
          · rfl
        rw [hempty]
      · exact absurd hspace hne
      · rw [hspace] at hfree
        cases hfree
  · rw [told_iff hspace]
    by_cases hbound : ∃ mark, (role = .attribute → mark ≠ "") ∧ s.get? mark = some n.space
    · exact iff_of_true (reread_of_marked hs hbase hspace hbound) (.inl hbound)
    · rw [or_iff_right hbound]
      exact reread_eq_iff_of_unbound hs hbase hspace hbound

end

/-- Two prefixes lead to one namespace, the empty one among them. -/
def doublyBound : Scope := ((Scope.empty.insert "" "urn:a").insert "p" "urn:a").insert "q" "urn:b"

/-- An attribute has to be written with the prefix that is not empty. -/
theorem reread_eq_self_doublyBound :
    doublyBound.IsLegible ∧ ':' ∉ "x".toList ∧
      written doublyBound .attribute ⟨"urn:a", "x"⟩ = "p:x" ∧
      reread doublyBound .attribute ⟨"urn:a", "x"⟩ = ⟨"urn:a", "x"⟩ := by
  have hlegible : doublyBound.IsLegible := by decide
  have hbase : ':' ∉ "x".toList := by decide
  have hbound : doublyBound.get? "p" = some "urn:a" := by decide
  exact ⟨hlegible, hbase, by decide,
    (reread_eq_self_iff hlegible hbase).mpr (.bound (by decide) (fun _ => by decide) hbound)⟩

/-- An element in no namespace is written without a prefix even if a prefix is bound to none, and takes
the default namespace then. So does one whose namespace could be a prefix but for an accent that is a
character of its own. -/
theorem reread_astray :
    let s := (Scope.empty.insert "" "urn:d").insert "p" ""
    s.IsLegible ∧
      (s.get? "p" = some "" ∧ reread s .element ⟨"", "x"⟩ = ⟨"urn:d", "x"⟩) ∧
      (∀ mark, s.get? mark ≠ some "e\u0301") ∧ s.get? "e\u0301" = none ∧
        reread s .element ⟨"e\u0301", "x"⟩ = ⟨"urn:d", "x"⟩ := by
  intro s
  refine ⟨by decide, by decide, fun mark hget => ?_, by decide, by decide +kernel⟩
  have hno : ∀ b ∈ s.bindings, b.2 ≠ "e\u0301" := by decide
  exact hno _ (Scope.mem_bindings_iff.mpr hget) rfl

end Name
end MarkupGraft
