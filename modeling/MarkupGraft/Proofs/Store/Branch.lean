import MarkupGraft.Proofs.Store.Listing
import MarkupGraft.Store.Document

/-!
The ordered tree that a document stands for. Each node keeps the identity that handles name it by,
so an edit of the tree can say which node it is about.
-/

namespace MarkupGraft

/-- What can stand among children without having an inside. -/
inductive LeafKind where
  | text
  | comment
  | instruction
  | doctype
  deriving DecidableEq, Repr

def LeafKind.node (value : String) : LeafKind → Node
  | .text => .text value
  | .comment => .comment value
  | .instruction => .instruction value
  | .doctype => .doctype value

def LeafKind.tree (value : String) : LeafKind → Tree
  | .text => .text value
  | .comment => .comment value
  | .instruction => .instruction value
  | .doctype => .doctype value

/-- An attribute with its identity. -/
structure OwnedAttribute where
  ident : Nat
  name : Name
  value : String
  deriving DecidableEq, Repr

def OwnedAttribute.entry (a : OwnedAttribute) : Entry := ⟨.attribute a.name a.value, a.ident⟩

inductive Branch where
  /-- `finish` is the identity of the end marker. -/
  | element (ident : Nat) (name : Name) (attributes : List OwnedAttribute) (children : List Branch)
      (finish : Nat)
  | leaf (ident : Nat) (kind : LeafKind) (value : String)

/-- A whole document: the document node, what is inside it, and its end marker. -/
structure RootedTree where
  ident : Nat
  children : List Branch
  finish : Nat

namespace Branch

def ident : Branch → Nat
  | .element ident _ _ _ _ => ident
  | .leaf ident _ _ => ident

def children : Branch → List Branch
  | .element _ _ _ children _ => children
  | .leaf _ _ _ => []

mutual

/-- The entries of a branch in document order. -/
def entries : Branch → List Entry
  | .element ident name attributes children finish =>
    ⟨.element name, ident⟩ ::
      (attributes.map OwnedAttribute.entry ++ (entriesAll children ++ [⟨.finish, finish⟩]))
  | .leaf ident kind value => [⟨kind.node value, ident⟩]

def entriesAll : List Branch → List Entry
  | [] => []
  | branch :: branches => entries branch ++ entriesAll branches

end

mutual

/-- The tree without the identities. -/
def erase : Branch → Tree
  | .element _ name attributes children _ =>
    .element name (attributes.map fun a => (a.name, a.value)) (eraseAll children)
  | .leaf _ kind value => kind.tree value

def eraseAll : List Branch → List Tree
  | [] => []
  | branch :: branches => erase branch :: eraseAll branches

end

@[simp] theorem entriesAll_append (bs cs : List Branch) :
    entriesAll (bs ++ cs) = entriesAll bs ++ entriesAll cs := by
  induction bs with
  | nil => rfl
  | cons b bs ih => simp [entriesAll, ih]

@[simp] theorem entriesAll_singleton (b : Branch) : entriesAll [b] = b.entries := by
  simp [entriesAll]

theorem entries_head (b : Branch) : ∃ node rest, b.entries = ⟨node, b.ident⟩ :: rest ∧
    node.isChild ∧ node ≠ .document := by
  cases b with
  | element => exact ⟨_, _, by rw [entries]; rfl, rfl, by simp⟩
  | leaf ident kind value =>
    exact ⟨_, _, by rw [entries]; rfl, by cases kind <;> rfl, by cases kind <;> simp [LeafKind.node]⟩

@[simp] theorem listing_tree (kind : LeafKind) (value : String) :
    (kind.tree value).listing = [kind.node value] := by
  cases kind <;> rfl

mutual

theorem nodes_entries : ∀ b : Branch, b.entries.map (·.node) = b.erase.listing
  | .element ident name attributes children finish => by
    simp [entries, erase, Tree.listing, Tree.attributeNodes, nodes_entriesAll children,
      OwnedAttribute.entry, Function.comp_def]
  | .leaf ident kind value => by simp [entries, erase]

theorem nodes_entriesAll : ∀ bs : List Branch,
    (entriesAll bs).map (·.node) = Tree.listingAll (eraseAll bs)
  | [] => rfl
  | b :: bs => by
    simp [entriesAll, eraseAll, Tree.listingAll, nodes_entries b, nodes_entriesAll bs]

end

/-! Standing -/

/-- The branch `b` stands among the branches, or among the children of one of them, behind the
entries `before` and in front of the entries `after`. -/
inductive Stands (b : Branch) : List Branch → List Entry → List Entry → Prop where
  | here (l r : List Branch) : Stands b (l ++ b :: r) (entriesAll l) (entriesAll r)
  | inside (l r : List Branch) {ident : Nat} {name : Name} {attributes : List OwnedAttribute}
      {children : List Branch} {finish : Nat} {before after : List Entry}
      (h : Stands b children before after) :
      Stands b (l ++ .element ident name attributes children finish :: r)
        (entriesAll l ++ (⟨.element name, ident⟩ :: (attributes.map OwnedAttribute.entry ++ before)))
        (after ++ (⟨.finish, finish⟩ :: entriesAll r))

/-- The entries of a branch that are not those of its children. -/
def own : Branch → List Entry
  | .element ident name attributes _ finish =>
    ⟨.element name, ident⟩ :: (attributes.map OwnedAttribute.entry ++ [⟨.finish, finish⟩])
  | .leaf ident kind value => [⟨kind.node value, ident⟩]

theorem Stands.entriesAll_eq {b : Branch} {bs : List Branch} {before after : List Entry}
    (h : Stands b bs before after) : entriesAll bs = before ++ (b.entries ++ after) := by
  induction h with
  | here l r => simp [entriesAll]
  | inside l r h ih => simp [entriesAll, entries, ih]

theorem Stands.cons {b c : Branch} {bs : List Branch} {before after : List Entry}
    (h : Stands b bs before after) : Stands b (c :: bs) (c.entries ++ before) after := by
  cases h with
  | here l r => simpa [entriesAll] using Stands.here (b := b) (c :: l) r
  | inside l r h => simpa [entriesAll] using Stands.inside (c :: l) r h

theorem Stands.append {b : Branch} {bs : List Branch} {before after : List Entry}
    (h : Stands b bs before after) (cs : List Branch) :
    Stands b (bs ++ cs) before (after ++ entriesAll cs) := by
  cases h with
  | here l r => simpa using Stands.here (b := b) l (r ++ cs)
  | inside l r h => simpa using Stands.inside l (r ++ cs) h

theorem mem_entries {e : Entry} (b : Branch) :
    e ∈ b.entries ↔ e ∈ b.own ∨ e ∈ entriesAll b.children := by
  cases b with
  | element =>
    simp only [entries, own, children, List.mem_cons, List.mem_append]
    grind
  | leaf => simp [entries, own, children, entriesAll]

mutual

private theorem exists_stands_of_mem {e : Entry} : ∀ b : Branch, e ∈ b.entries →
    ∃ c before after, Stands c [b] before after ∧ e ∈ c.own
  | .element ident name attributes children finish, h => by
    rcases (mem_entries _).mp h with h | h
    · exact ⟨_, _, _, .here [] [], h⟩
    · obtain ⟨c, before, after, hs, ho⟩ := exists_stands_of_mem_entriesAll children h
      exact ⟨c, _, _, .inside [] [] hs, ho⟩
  | .leaf ident kind value, h => ⟨_, _, _, .here [] [], by simpa [entries, own] using h⟩

/-- Every entry is one of the own entries of a branch that stands somewhere. -/
theorem exists_stands_of_mem_entriesAll {e : Entry} : ∀ bs : List Branch, e ∈ entriesAll bs →
    ∃ c before after, Stands c bs before after ∧ e ∈ c.own
  | b :: bs, h => by
    rcases List.mem_append.mp h with h | h
    · obtain ⟨c, before, after, hs, ho⟩ := exists_stands_of_mem b h
      exact ⟨c, _, _, hs.append bs, ho⟩
    · obtain ⟨c, before, after, hs, ho⟩ := exists_stands_of_mem_entriesAll bs h
      exact ⟨c, _, _, hs.cons, ho⟩

end

/-! Reading entries from their end -/

/-- What has been read of the inside of a container. -/
structure Inside where
  finish : Nat
  attributes : List OwnedAttribute := []
  children : List Branch := []

def Inside.addChild (i : Inside) (child : Branch) : Inside :=
  { i with children := child :: i.children }

def prepend (e : Entry) : List Inside → List Inside
  | [] => if e.node.isFinish then [⟨e.ident, [], []⟩] else []
  | i :: outer =>
    match e.node with
    | .document => i :: outer
    | .element name =>
      outer.modifyHead (·.addChild (.element e.ident name i.attributes i.children i.finish))
    | .finish => ⟨e.ident, [], []⟩ :: i :: outer
    | .attribute name value => { i with attributes := ⟨e.ident, name, value⟩ :: i.attributes } :: outer
    | .text value => i.addChild (.leaf e.ident .text value) :: outer
    | .comment value => i.addChild (.leaf e.ident .comment value) :: outer
    | .instruction value => i.addChild (.leaf e.ident .instruction value) :: outer
    | .doctype value => i.addChild (.leaf e.ident .doctype value) :: outer

private theorem prepend_attributes (attributes : List OwnedAttribute) (i : Inside)
    (outer : List Inside) :
    (attributes.map OwnedAttribute.entry).foldr prepend (i :: outer) =
      { i with attributes := attributes ++ i.attributes } :: outer := by
  induction attributes with
  | nil => rfl
  | cons a attributes ih =>
    rw [List.map_cons, List.foldr_cons, ih]
    rfl

mutual

private theorem prepend_entries (i : Inside) (outer : List Inside) : ∀ b : Branch,
    b.entries.foldr prepend (i :: outer) = i.addChild b :: outer
  | .element ident name attributes children finish => by
    simp only [entries, List.foldr_cons, List.foldr_append, List.foldr_nil]
    rw [show prepend ⟨.finish, finish⟩ (i :: outer) = ⟨finish, [], []⟩ :: i :: outer from rfl,
      prepend_entriesAll, prepend_attributes]
    simp [prepend]
  | .leaf ident kind value => by cases kind <;> rfl

private theorem prepend_entriesAll (i : Inside) (outer : List Inside) : ∀ bs : List Branch,
    (entriesAll bs).foldr prepend (i :: outer) =
      { i with children := bs ++ i.children } :: outer
  | [] => rfl
  | b :: bs => by
    rw [entriesAll, List.foldr_append, prepend_entriesAll i outer bs, prepend_entries]
    rfl

end

end Branch

namespace RootedTree

def entries (t : RootedTree) : List Entry :=
  ⟨.document, t.ident⟩ :: (Branch.entriesAll t.children ++ [⟨.finish, t.finish⟩])

/-- The tree that a complete sequence of entries lists. -/
def ofEntries : List Entry → RootedTree
  | [] => ⟨0, [], 0⟩
  | e :: entries =>
    match entries.foldr Branch.prepend [] with
    | [] => ⟨e.ident, [], 0⟩
    | i :: _ => ⟨e.ident, i.children, i.finish⟩

@[simp] theorem ofEntries_entries (t : RootedTree) : ofEntries t.entries = t := by
  have hf : List.foldr Branch.prepend [] [⟨.finish, t.finish⟩] = [⟨t.finish, [], []⟩] := rfl
  rw [entries, ofEntries, List.foldr_append, hf, Branch.prepend_entriesAll]
  simp

theorem nodes_entries (t : RootedTree) : t.entries.map (·.node) =
    .document :: (Tree.listingAll (Branch.eraseAll t.children) ++ [.finish]) := by
  simp [entries, Branch.nodes_entriesAll]

end RootedTree

/-- The tree of a document. -/
def Document.tree (d : Document) : RootedTree := .ofEntries d.entries

end MarkupGraft
