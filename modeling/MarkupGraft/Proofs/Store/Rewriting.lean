import Mathlib.Data.List.Nodup
import MarkupGraft.Proofs.Store.Branch

/-!
Edits of the tree itself. A node is found by its identity, and what stands in its place is told by a
rewriting; all other nodes stay where they are.
-/

namespace MarkupGraft

/-- What comes into the place of a branch or of an attribute. -/
structure Rewriting where
  inBranch : Branch → List Branch := fun b => [b]
  inAttribute : OwnedAttribute → List OwnedAttribute := fun a => [a]

namespace Branch

/-- Other children for an element. -/
def withChildren (children : List Branch) : Branch → Branch
  | .element ident name attributes _ finish => .element ident name attributes children finish
  | b => b

/-- Another text for a leaf. -/
def withValue (value : String) : Branch → Branch
  | .leaf ident kind _ => .leaf ident kind value
  | b => b

variable (r : Rewriting) (target : Nat)

def rewriteAttributes (attributes : List OwnedAttribute) : List OwnedAttribute :=
  attributes.flatMap fun a => if a.ident = target then r.inAttribute a else [a]

mutual

/-- Rewrites below the head of a branch. -/
def rewriteInside : Branch → Branch
  | .element i name attributes children finish =>
    .element i name (rewriteAttributes r target attributes) (rewriteAll children) finish
  | .leaf i kind value => .leaf i kind value

/-- Rewrites the node with the given identity wherever it stands. -/
def rewriteAll : List Branch → List Branch
  | [] => []
  | b :: bs => (if b.ident = target then r.inBranch b else [rewriteInside b]) ++ rewriteAll bs

end

@[simp] theorem rewriteAll_append (bs cs : List Branch) :
    rewriteAll r target (bs ++ cs) = rewriteAll r target bs ++ rewriteAll r target cs := by
  induction bs with
  | nil => rfl
  | cons b bs ih => simp [rewriteAll, ih]

/-- The identities of a run of entries. -/
def idents (entries : List Entry) : List Nat := entries.map (·.ident)

@[simp] theorem idents_append (es fs : List Entry) : idents (es ++ fs) = idents es ++ idents fs :=
  List.map_append

@[simp] theorem idents_cons (e : Entry) (es : List Entry) : idents (e :: es) = e.ident :: idents es :=
  rfl

theorem ident_mem_entries (b : Branch) : b.ident ∈ idents b.entries := by
  obtain ⟨node, rest, he, -⟩ := b.entries_head
  simp [he]

theorem rewriteAttributes_append (as bs : List OwnedAttribute) :
    rewriteAttributes r target (as ++ bs) =
      rewriteAttributes r target as ++ rewriteAttributes r target bs := List.flatMap_append

variable {r target}

theorem rewriteAttributes_of_not_mem {attributes : List OwnedAttribute}
    (h : target ∉ idents (attributes.map OwnedAttribute.entry)) :
    rewriteAttributes r target attributes = attributes := by
  induction attributes with
  | nil => rfl
  | cons a attributes ih =>
    simp only [List.map_cons, idents_cons, List.mem_cons, not_or, OwnedAttribute.entry] at h
    rw [rewriteAttributes] at ih
    rw [rewriteAttributes, List.flatMap_cons, if_neg (Ne.symm h.1), ih h.2]
    rfl

mutual

private theorem rewriteInside_of_not_mem : ∀ b : Branch, target ∉ idents b.entries →
    rewriteInside r target b = b
  | .element i name attributes children finish, h => by
    simp only [entries, idents_cons, idents_append, List.mem_cons, List.mem_append, not_or] at h
    rw [rewriteInside, rewriteAttributes_of_not_mem h.2.1,
      rewriteAll_of_not_mem children h.2.2.1]
  | .leaf _ _ _, _ => rfl

/-- Rewriting a node that is not there changes nothing. -/
theorem rewriteAll_of_not_mem : ∀ bs : List Branch, target ∉ idents (entriesAll bs) →
    rewriteAll r target bs = bs
  | [], _ => rfl
  | b :: bs, h => by
    rw [entriesAll, idents_append, List.mem_append, not_or] at h
    have hb : b.ident ≠ target := fun he => h.1 (he ▸ b.ident_mem_entries)
    rw [rewriteAll, if_neg hb, rewriteInside_of_not_mem b h.1, rewriteAll_of_not_mem bs h.2]
    rfl

end

/-- Rewriting an attribute changes nothing else of its element. -/
theorem rewriteAll_attribute {ident : Nat} {name : Name} {l rest : List OwnedAttribute}
    {a : OwnedAttribute} {children : List Branch} {finish : Nat}
    (hn : (idents (entries (.element ident name (l ++ a :: rest) children finish))).Nodup) :
    rewriteAll r a.ident [.element ident name (l ++ a :: rest) children finish] =
      [.element ident name (l ++ (r.inAttribute a ++ rest)) children finish] := by
  rw [entries, idents_cons, idents_append, List.map_append, idents_append, List.nodup_cons] at hn
  obtain ⟨hhead, hn⟩ := hn
  obtain ⟨hattributes, -, hchildren⟩ := List.nodup_append.mp hn
  obtain ⟨-, hrest, hl⟩ := List.nodup_append.mp hattributes
  have hident : ident ≠ a.ident := by
    rintro rfl
    exact hhead (by simp [OwnedAttribute.entry])
  have hal : a.ident ∉ idents (l.map OwnedAttribute.entry) := fun hm =>
    hl a.ident hm a.ident List.mem_cons_self rfl
  have har : a.ident ∉ idents (rest.map OwnedAttribute.entry) := by
    rw [List.map_cons, idents_cons, List.nodup_cons] at hrest
    exact hrest.1
  have hac : a.ident ∉ idents (entriesAll children) := fun hm =>
    hchildren a.ident (by simp [OwnedAttribute.entry]) a.ident (by simp [hm]) rfl
  have hrest := rewriteAttributes_of_not_mem (r := r) har
  have hattributes : rewriteAttributes r a.ident (l ++ a :: rest) = l ++ (r.inAttribute a ++ rest) := by
    rw [rewriteAttributes] at hrest
    rw [rewriteAttributes_append, rewriteAttributes_of_not_mem hal, rewriteAttributes,
      List.flatMap_cons, if_pos rfl, hrest]
  rw [rewriteAll, Branch.ident, if_neg hident, rewriteInside, rewriteAll_of_not_mem children hac,
    hattributes]
  rfl

/-- Rewriting a node inside an element changes the children of the element alone. -/
theorem rewriteAll_inside {ident : Nat} {name : Name} {attributes : List OwnedAttribute}
    {children : List Branch} {finish : Nat} (hne : target ≠ ident)
    (ha : target ∉ idents (attributes.map OwnedAttribute.entry)) :
    rewriteAll r target [.element ident name attributes children finish] =
      [.element ident name attributes (rewriteAll r target children) finish] := by
  rw [rewriteAll, if_neg fun he => hne he.symm, rewriteInside, rewriteAttributes_of_not_mem ha]
  rfl

/-- Rewriting a node of a standing branch changes the entries of that branch alone. -/
theorem Stands.entriesAll_rewriteAll {b : Branch} {bs : List Branch} {before after : List Entry}
    (h : Stands b bs before after) (hb : target ∉ idents before) (ha : target ∉ idents after) :
    entriesAll (rewriteAll r target bs) =
      before ++ (entriesAll (rewriteAll r target [b]) ++ after) := by
  induction h with
  | here l r' =>
    rw [← List.singleton_append, rewriteAll_append, rewriteAll_append,
      rewriteAll_of_not_mem l hb, rewriteAll_of_not_mem r' ha]
    simp
  | @inside l r' i name attributes children finish before after h ih =>
    simp only [idents_append, idents_cons, List.mem_append, List.mem_cons, not_or] at hb ha
    rw [← List.singleton_append, rewriteAll_append, rewriteAll_append,
      rewriteAll_of_not_mem l hb.1, rewriteAll_of_not_mem r' ha.2.2,
      rewriteAll_inside hb.2.1 hb.2.2.1]
    simp [entriesAll, entries, ih hb.2.2.2 ha.1]

end Branch

namespace RootedTree

def rewrite (t : RootedTree) (target : Nat) (r : Rewriting) : RootedTree :=
  { t with children := Branch.rewriteAll r target t.children }

variable (t : RootedTree) (target : Nat)

/-- Puts branches in the place of all children of a container; its attributes stay. -/
def replaceChildren (children : List Branch) : RootedTree :=
  if t.ident = target then { t with children }
  else t.rewrite target { inBranch := fun b => [b.withChildren children] }

/-- Gives a leaf or an attribute another text, and a container a single text child with the identity
`fresh`, or none when the text is empty. -/
def setText (fresh : Nat) (text : String) : RootedTree :=
  let content : List Branch := if text = "" then [] else [.leaf fresh .text text]
  if t.ident = target then { t with children := content }
  else t.rewrite target
    { inBranch := fun b => [(b.withChildren content).withValue text],
      inAttribute := fun a => [{ a with value := text }] }

def insertBefore (inserted : List Branch) : RootedTree :=
  t.rewrite target { inBranch := fun b => inserted ++ [b] }

def insertAfter (inserted : List Branch) : RootedTree :=
  t.rewrite target { inBranch := fun b => b :: inserted }

/-- Takes away a branch or an attribute. -/
def remove : RootedTree :=
  t.rewrite target { inBranch := fun _ => [], inAttribute := fun _ => [] }

end RootedTree

end MarkupGraft
