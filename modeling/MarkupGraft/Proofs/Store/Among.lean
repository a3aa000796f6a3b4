import MarkupGraft.Proofs.Store.Rewriting

/-!
Which branches there are in a tree. A rewriting leaves every branch but those with the identity of
its target, so what is said of all branches is said of them afterwards when it is said of what has come
in. With the document node for a branch of its own this goes for whole documents.
-/

namespace MarkupGraft

namespace Branch

/-- Whether a branch is one of some branches, or is below one of them. -/
inductive Among (b : Branch) : List Branch → Prop
  | here {bs : List Branch} (h : b ∈ bs) : Among b bs
  | inside {c : Branch} {bs : List Branch} (hc : c ∈ bs) (h : Among b c.children) : Among b bs

variable {b c : Branch} {bs : List Branch}

def attributes : Branch → List OwnedAttribute
  | .element _ _ attributes _ _ => attributes
  | .leaf _ _ _ => []

def isElement : Branch → Bool
  | .element _ _ _ _ _ => true
  | .leaf _ _ _ => false

theorem entry_mem_entries {b : Branch} {a : OwnedAttribute} (h : a ∈ b.attributes) :
    a.entry ∈ b.entries := by
  cases b with
  | element =>
    rw [entries]
    exact List.mem_cons_of_mem _ (List.mem_append_left _ (List.mem_map_of_mem h))
  | leaf => cases h

theorem Among.child (h : Among b bs) (hc : c ∈ b.children) : Among c bs := by
  induction h with
  | here h => exact .inside h (.here hc)
  | inside hd _ ih => exact .inside hd ih

theorem among_singleton : Among b [c] ↔ b = c ∨ Among b c.children := by
  constructor
  · intro h
    cases h with
    | here h => exact .inl (List.mem_singleton.mp h)
    | inside hc h => exact .inr (List.mem_singleton.mp hc ▸ h)
  · rintro (rfl | h)
    · exact .here List.mem_cons_self
    · exact .inside List.mem_cons_self h

theorem Among.exists_stands (h : Among b bs) : ∃ before after, Stands b bs before after := by
  induction h with
  | here h =>
    obtain ⟨l, r, rfl⟩ := List.append_of_mem h
    exact ⟨_, _, .here l r⟩
  | @inside c bs hc h ih =>
    obtain ⟨before, after, hs⟩ := ih
    obtain ⟨l, r, rfl⟩ := List.append_of_mem hc
    cases c with
    | element => exact ⟨_, _, .inside l r hs⟩
    | leaf => cases h with
      | here h => cases h
      | inside hc _ => cases hc

theorem Stands.among {before after : List Entry} (h : Stands b bs before after) : Among b bs := by
  induction h with
  | here l r => exact .here (by simp)
  | @inside l r ident name attributes children finish before after h ih =>
    exact .inside (c := .element ident name attributes children finish) (by simp) ih

/-- What belongs to a branch belongs to those that it is among. -/
theorem Among.entries_subset (h : Among b bs) : b.entries ⊆ entriesAll bs := by
  obtain ⟨before, after, hs⟩ := h.exists_stands
  rw [hs.entriesAll_eq]
  exact fun e he => List.mem_append_right _ (List.mem_append_left _ he)

/-! Rewriting -/

section
variable {r : Rewriting} {target : Nat}

theorem mem_rewriteAll : b ∈ rewriteAll r target bs ↔
    ∃ c ∈ bs, if c.ident = target then b ∈ r.inBranch c else b = rewriteInside r target c := by
  induction bs with
  | nil => simp [rewriteAll]
  | cons c bs ih =>
    rw [rewriteAll, List.mem_append, ih, List.exists_mem_cons_iff]
    refine or_congr_left ?_
    split <;> simp

@[simp] theorem ident_rewriteInside (c : Branch) : (rewriteInside r target c).ident = c.ident := by
  cases c <;> simp only [rewriteInside, ident]

@[simp] theorem children_rewriteInside (c : Branch) :
    (rewriteInside r target c).children = rewriteAll r target c.children := by
  cases c <;> simp only [rewriteInside, children, rewriteAll]

@[simp] theorem attributes_rewriteInside (c : Branch) :
    (rewriteInside r target c).attributes = rewriteAttributes r target c.attributes := by
  cases c <;> simp only [rewriteInside, attributes]
  rfl

theorem mem_rewriteAttributes {a : OwnedAttribute} {as : List OwnedAttribute} :
    a ∈ rewriteAttributes r target as ↔
      ∃ o ∈ as, if o.ident = target then a ∈ r.inAttribute o else a = o := by
  rw [rewriteAttributes, List.mem_flatMap]
  refine exists_congr fun o => and_congr_right fun _ => ?_
  split <;> simp

/-- A branch of a rewritten tree was there before, but for what is below it, or has come in. -/
theorem Among.of_rewriteAll (h : Among b (rewriteAll r target bs)) :
    (∃ c, Among c bs ∧ c.ident ≠ target ∧ b = rewriteInside r target c) ∨
      ∃ c, Among c bs ∧ c.ident = target ∧ Among b (r.inBranch c) := by
  generalize hrewritten : rewriteAll r target bs = rewritten at h
  induction h generalizing bs with
  | here h =>
    subst hrewritten
    obtain ⟨c, hc, hb⟩ := mem_rewriteAll.mp h
    split at hb
    · rename_i htarget
      exact .inr ⟨c, .here hc, htarget, .here hb⟩
    · rename_i htarget
      exact .inl ⟨c, .here hc, htarget, hb⟩
  | inside hx h ih =>
    subst hrewritten
    obtain ⟨c, hc, hx⟩ := mem_rewriteAll.mp hx
    split at hx
    · rename_i htarget
      exact .inr ⟨c, .here hc, htarget, .inside hx h⟩
    · subst hx
      refine (ih (children_rewriteInside c).symm).imp ?_ ?_
      · rintro ⟨d, hd, hne, rfl⟩
        exact ⟨d, .inside hc hd, hne, rfl⟩
      · rintro ⟨d, hd, htarget, hb⟩
        exact ⟨d, .inside hc hd, htarget, hb⟩

end
end Branch

namespace RootedTree
open Branch (rewriteAll rewriteInside)
variable (t : RootedTree) (target : Nat)

/-- The document node as a branch, under no name. -/
def whole : Branch := .element t.ident ⟨"", ""⟩ [] t.children t.finish

theorem whole_rewrite {r : Rewriting} (h : t.ident ≠ target) :
    [(t.rewrite target r).whole] = rewriteAll r target [t.whole] := by
  rw [rewriteAll, if_neg (show ¬ t.whole.ident = target from h)]
  rfl

theorem whole_replaceChildren (children : List Branch) :
    [(t.replaceChildren target children).whole] =
      rewriteAll { inBranch := fun b => [b.withChildren children] } target [t.whole] := by
  by_cases h : t.ident = target
  · rw [replaceChildren, if_pos h, rewriteAll, if_pos (show t.whole.ident = target from h)]
    rfl
  · rw [replaceChildren, if_neg h, t.whole_rewrite target h]

end RootedTree

end MarkupGraft
