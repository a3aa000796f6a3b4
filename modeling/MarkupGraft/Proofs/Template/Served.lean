import MarkupGraft.Proofs.Store.Among
import MarkupGraft.Proofs.Template.Settled

/-!
Targets that have been served. What comes into a template takes identities of its own, and no target is
found among it; so what one target has got stays as it came while the mapping goes through the others.
An empty node that has been served holds what was put there as it was selected, and is settled.
-/

namespace MarkupGraft
open Branch (Among Stands idents entriesAll eraseAll rewriteAll rewriteInside)

namespace Document
variable {d : Document}

/-! Branches of a document -/

namespace WellFormed
variable (w : d.WellFormed)
include w

/-- An identity names the entry that has it. -/
theorem node_of_mem {e : Entry} (he : e ∈ d.entries) {p : Nat}
    (hp : d.locate? ⟨d.id, e.ident⟩ = some p) : d.node p = e.node := by
  obtain ⟨-, e', he', hident⟩ := (locate?_eq_some_iff w.nodup).mp hp
  obtain rfl := List.inj_on_of_nodup_map w.nodup (List.mem_of_getElem? he') he hident
  rw [node, nodes, List.getD_eq_getElem?_getD, List.getElem?_map, he']
  rfl

theorem entries_subset_of_among {b : Branch} (h : Among b d.tree.children) :
    b.entries ⊆ d.entries := by
  intro e he
  rw [w.entries_eq, RootedTree.entries]
  exact List.mem_cons_of_mem _ (List.mem_append_left _ (h.entries_subset he))

/-- A node other than an end marker is a branch of the whole tree, or an attribute of one. -/
theorem exists_among {q : Nat} (hq : q < d.length) (hfinish : d.node q ≠ .finish) :
    (∃ b, Among b [d.tree.whole] ∧ d.handleAt q = ⟨d.id, b.ident⟩) ∨
      ∃ b, Among b [d.tree.whole] ∧ ∃ a ∈ b.attributes, d.handleAt q = ⟨d.id, a.ident⟩ ∧
        d.node q = .attribute a.name a.value := by
  have hwhole {b : Branch} {before after : List Entry}
      (hs : Stands b d.tree.children before after) : Among b [d.tree.whole] :=
    .inside List.mem_cons_self hs.among
  have hfound := w.found (w.located hq)
  generalize hident : (d.handleAt q).ident = target at hfound
  have hhandle : d.handleAt q = ⟨d.id, target⟩ := by rw [← hident]; rfl
  cases hfound with
  | root h => exact .inl ⟨d.tree.whole, .here List.mem_cons_self, by rw [hhandle, ← h]; rfl⟩
  | element hs => exact .inl ⟨_, hwhole hs, hhandle⟩
  | leaf hs => exact .inl ⟨_, hwhole hs, hhandle⟩
  | «attribute» hs =>
    exact .inr ⟨_, hwhole hs, _, List.mem_append_right _ List.mem_cons_self, hhandle,
      w.node_of_attribute hs⟩
  | finish h => exact absurd (w.node_of_finish h) hfinish

variable {b : Branch} (h : Among b [d.tree.whole]) {p : Nat}
include h

/-- The node at the head of a branch is a container just for an element, and holds what the branch
does. -/
theorem node_of_among (hp : d.locate? ⟨d.id, b.ident⟩ = some p) :
    (d.node p).isContainer = b.isElement ∧ ∀ trees text,
      d.HoldsContent p trees text ↔ b.HoldsContent trees text := by
  rcases Branch.among_singleton.mp h with rfl | h
  · have hroot : d.locate? ⟨d.id, d.tree.whole.ident⟩ = some 0 :=
      (locate?_eq_some_iff w.nodup).mpr ⟨rfl, ⟨.document, d.tree.ident⟩, by
        rw [w.entries_eq]
        rfl, rfl⟩
    obtain rfl := Option.some.inj (hroot.symm.trans hp)
    rw [w.node_of_root]
    exact ⟨rfl, fun trees text => w.holdsContent_of_root⟩
  · obtain ⟨before, after, hs⟩ := h.exists_stands
    obtain rfl := Option.some.inj ((w.locate?_of_stands hs).symm.trans hp)
    refine ⟨?_, fun trees text => w.holdsContent_of_stands hs⟩
    cases b with
    | element => rw [w.node_of_element hs]; rfl
    | leaf ident kind value =>
      rw [w.node_of_leaf hs]
      cases kind <;> rfl

/-- The children of a branch are the branches that it has. -/
theorem children_of_among (hp : d.locate? ⟨d.id, b.ident⟩ = some p) :
    (d.children p).map d.handleAt = b.children.map fun c => ⟨d.id, c.ident⟩ := by
  rcases Branch.among_singleton.mp h with rfl | h
  · have hroot : d.locate? ⟨d.id, d.tree.whole.ident⟩ = some 0 :=
      (locate?_eq_some_iff w.nodup).mpr ⟨rfl, ⟨.document, d.tree.ident⟩, by
        rw [w.entries_eq]
        rfl, rfl⟩
    obtain rfl := Option.some.inj (hroot.symm.trans hp)
    exact w.handles_top
  · obtain ⟨before, after, hs⟩ := h.exists_stands
    obtain rfl := Option.some.inj ((w.locate?_of_stands hs).symm.trans hp)
    cases b with
    | element => exact handles_children rfl rfl (w.entries_of_element hs)
    | leaf ident kind value =>
      have hleaf : ¬ (d.node (before.length + 1)).isContainer := by
        rw [w.node_of_leaf hs]
        cases kind <;> exact Bool.false_ne_true
      rw [(w.alone (w.lt_of_stands hs) hleaf).2]
      rfl

/-- An attribute of a branch is no container. -/
theorem not_isContainer_of_attribute {a : OwnedAttribute} (ha : a ∈ b.attributes)
    (hp : d.locate? ⟨d.id, a.ident⟩ = some p) : ¬ (d.node p).isContainer := by
  rcases Branch.among_singleton.mp h with rfl | h
  · cases ha
  · rw [w.node_of_mem (w.entries_subset_of_among h (Branch.entry_mem_entries ha)) hp]
    exact Bool.false_ne_true

end WellFormed
end Document

/-! Selections that have been put in -/

namespace Branch

theorem forall_ident_numberAll (next : Nat) (ts : List Tree) :
    ∀ i ∈ idents (entriesAll (numberAll next ts)), next ≤ i := by
  intro i hi
  rw [idents, entries_numberAll, Document.idents_identify, List.mem_range'_1] at hi
  exact hi.1

/-- Whether a branch that has been served holds what was put into it, with nothing but fresh nodes
below it, and so do its attributes. -/
structure Carries (served : List Nat) (next : Nat) (trees : List Tree) (text : String)
    (b : Branch) : Prop where
  content : b.ident ∈ served → ∃ content, List.Forall₂ Tree.DeclaredAs trees content ∧
    b.HoldsContent content text
  fresh : b.ident ∈ served → ∀ i ∈ idents (entriesAll b.children), next ≤ i
  value : ∀ a ∈ b.attributes, a.ident ∈ served → a.value = text

variable {served : List Nat} {next : Nat} {trees : List Tree} {text : String} {b c : Branch}
  {r : Rewriting} {target : Nat}

/-- Nothing is said of fresh nodes. -/
theorem carries_of_fresh (hserved : ∀ i ∈ served, i < next) (h : ∀ i ∈ idents b.entries, next ≤ i) :
    b.Carries served next trees text where
  content hb := absurd (hserved _ hb) (Nat.not_lt.mpr (h _ b.ident_mem_entries))
  fresh hb := absurd (hserved _ hb) (Nat.not_lt.mpr (h _ b.ident_mem_entries))
  value _ ha hs := absurd (hserved _ hs)
    (Nat.not_lt.mpr (h _ (List.mem_map_of_mem (entry_mem_entries ha))))

/-- What has come in stays while another node is rewritten that is not fresh. -/
theorem Carries.rewriteInside (h : c.Carries served next trees text) (hne : c.ident ≠ target)
    (htarget : target < next)
    (hattributes : ∀ a ∈ c.attributes, a.ident = target → ∀ o ∈ r.inAttribute a, o.value = text) :
    (rewriteInside r target c).Carries (target :: served) next trees text := by
  have hident (hc : (Branch.rewriteInside r target c).ident ∈ target :: served) : c.ident ∈ served := by
    rw [ident_rewriteInside] at hc
    exact (List.mem_cons.mp hc).resolve_left hne
  have hkept (hc : c.ident ∈ served) : rewriteAll r target c.children = c.children :=
    rewriteAll_of_not_mem _ fun hm => Nat.not_lt.mpr (h.fresh hc _ hm) htarget
  refine ⟨fun hc => ?_, fun hc => ?_, fun a ha hs => ?_⟩
  · obtain ⟨content, hcontent, hholds⟩ := h.content (hident hc)
    refine ⟨content, hcontent, ?_⟩
    have hkept := hkept (hident hc)
    cases c with
    | element =>
      rw [children] at hkept
      rw [Branch.rewriteInside, HoldsContent, hkept]
      exact hholds
    | leaf => exact hholds
  · rw [children_rewriteInside, hkept (hident hc)]
    exact h.fresh (hident hc)
  · rw [attributes_rewriteInside, mem_rewriteAttributes] at ha
    obtain ⟨o, ho, ha⟩ := ha
    split at ha
    · rename_i htarget
      exact hattributes o ho htarget a ha
    · subst ha
      rename_i hother
      exact h.value a ho ((List.mem_cons.mp hs).resolve_left hother)

theorem children_withChildren {children : List Branch} (h : c.isElement) :
    (c.withChildren children).children = children := by
  cases c with
  | element => rfl
  | leaf => cases h

/-- What has come into an element is what it holds afterwards. -/
theorem Carries.withChildren (h : c.Carries served next trees text) (helement : c.isElement)
    (hattributes : ∀ a ∈ c.attributes, a.ident ≠ target) {children : List Branch}
    (hcontent : List.Forall₂ Tree.DeclaredAs trees (eraseAll children))
    (hfresh : ∀ i ∈ idents (entriesAll children), next ≤ i) :
    (c.withChildren children).Carries (target :: served) next trees text := by
  cases c with
  | leaf => cases helement
  | element =>
    exact ⟨fun _ => ⟨_, hcontent, rfl⟩, fun _ => hfresh, fun a ha hs =>
      h.value a ha ((List.mem_cons.mp hs).resolve_left (hattributes a ha))⟩

end Branch

namespace Document
variable {d d' : Document} {target : Handle} {items : List Item} {served : List Nat} {next : Nat}

theorem WellFormed.own_of_locate? (w : d.WellFormed) {p : Nat} (hp : d.locate? target = some p) :
    (⟨d.id, target.ident⟩ : Handle) = target := by
  rw [← ((locate?_eq_some_iff w.nodup).mp hp).1]

theorem exists_locate?_of_graft (h : d.graft target items = .ok d') :
    ∃ p, d.locate? target = some p := by
  obtain ⟨p, hlocate, -⟩ := Markup.bind_eq_ok_iff.mp h
  rw [locate] at hlocate
  split at hlocate
  · exact ⟨_, by assumption⟩
  · cases hlocate

section
variable {p : Nat} {trees : List Tree} {text : String} (w : d.WellFormed)
  (hserved : ∀ i ∈ target.ident :: served, i < next) (hp : d.locate? target = some p)
  (h : ∀ b, Among b [d.tree.whole] → b.Carries served next trees text)
include w hserved hp h

/-- Other content for a container leaves what others have got. -/
theorem WellFormed.carries_content (hnext : next ≤ d.nextIdent) (hc : (d.node p).isContainer)
    {f : Fragment} (hf : f.Complete) (htrees : f.trees = trees)
    (hd' : d.edit (.replaceChildren target f) = .ok d') :
    ∀ b, Among b [d'.tree.whole] → b.Carries (target.ident :: served) next trees text := by
  have hp₁ : d.locate? ⟨d.id, target.ident⟩ = some p := (w.own_of_locate? hp).symm ▸ hp
  obtain ⟨_, hp', hs, rfl⟩ := d.edit_eq_ok_iff.mp hd'
  cases hp.symm.trans hp'
  have htree := (w.edited (by simpa [Edit.content?] using hf) hp' hs).2
  have hattribute {c : Branch} (hc' : Among c [d.tree.whole]) {a : OwnedAttribute}
      (ha : a ∈ c.attributes) : a.ident ≠ target.ident := fun he =>
    w.not_isContainer_of_attribute hc' ha (he ▸ hp₁) hc
  intro b hb
  rw [htree, Edit.map, RootedTree.edit, RootedTree.whole_replaceChildren] at hb
  rcases hb.of_rewriteAll with ⟨c, hc', hne, rfl⟩ | ⟨c, hc', heq, hb⟩
  · exact (h c hc').rewriteInside hne (hserved _ List.mem_cons_self)
      fun a ha he => absurd he (hattribute hc' ha)
  · have helement := (w.node_of_among hc' (heq ▸ hp₁)).1
    have hfresh : ∀ i ∈ idents (entriesAll (Branch.numberAll d.nextIdent
        (f.treesUnder (d.scopeAt (Edit.host d p (.replaceChildren target f)))))), next ≤ i :=
      fun i hi => Nat.le_trans hnext (Branch.forall_ident_numberAll _ _ i hi)
    rcases Branch.among_singleton.mp hb with rfl | hb
    · refine (h c hc').withChildren (helement.symm.trans hc) (fun a => hattribute hc') ?_ hfresh
      rw [Branch.eraseAll_numberAll, ← htrees]
      exact f.declaredAs_treesUnder _
    · rw [Branch.children_withChildren (helement.symm.trans hc)] at hb
      exact Branch.carries_of_fresh hserved fun i hi =>
        hfresh i (List.map_subset _ hb.entries_subset hi)

/-- Another text for a leaf leaves what others have got. -/
theorem WellFormed.carries_text (hc : ¬ (d.node p).isContainer)
    (hd' : d.edit (.setText target text) = .ok d') :
    ∀ b, Among b [d'.tree.whole] → b.Carries (target.ident :: served) next trees text := by
  have hp₁ : d.locate? ⟨d.id, target.ident⟩ = some p := (w.own_of_locate? hp).symm ▸ hp
  obtain ⟨_, hp', hs, rfl⟩ := d.edit_eq_ok_iff.mp hd'
  cases hp.symm.trans hp'
  have hroot : d.tree.ident ≠ target.ident := fun he => hc <| by
    rw [← he] at hp₁
    exact (w.node_of_among (.here List.mem_cons_self) hp₁).1
  have htree := (w.edited (by simp [Edit.content?]) hp' hs).2
  intro b hb
  rw [htree, Edit.map, RootedTree.edit, RootedTree.setText, if_neg hroot,
    RootedTree.whole_rewrite _ _ hroot] at hb
  rcases hb.of_rewriteAll with ⟨c, hc', hne, rfl⟩ | ⟨c, hc', heq, hb⟩
  · refine (h c hc').rewriteInside hne (hserved _ List.mem_cons_self) fun a _ _ o ho => ?_
    rw [List.mem_singleton.mp ho]
  · have helement := (w.node_of_among hc' (heq ▸ hp₁)).1
    cases c with
    | element => exact absurd helement hc
    | leaf ident kind value =>
      rcases Branch.among_singleton.mp hb with rfl | hb
      · exact ⟨fun _ => ⟨_, List.forall₂_same.mpr fun t _ => .refl t, rfl⟩,
          fun _ i hi => absurd hi List.not_mem_nil, fun a ha => absurd ha List.not_mem_nil⟩
      · cases hb with
        | here hb => cases hb
        | inside hb _ => cases hb

end

/-- A selection that is put into a target leaves what others have got. -/
theorem WellFormed.carries_graft (w : d.WellFormed) (hnext : next ≤ d.nextIdent)
    (hserved : ∀ i ∈ target.ident :: served, i < next) (hitems : ∀ item ∈ items, item.Sound)
    (hd' : d.graft target items = .ok d')
    (h : ∀ b, Among b [d.tree.whole] →
      b.Carries served next (items.flatMap Item.trees) (Item.concat items)) :
    ∀ b, Among b [d'.tree.whole] →
      b.Carries (target.ident :: served) next (items.flatMap Item.trees) (Item.concat items) := by
  obtain ⟨p, hp⟩ := exists_locate?_of_graft hd'
  by_cases hc : (d.node p).isContainer
  · obtain ⟨f, hf, htrees, hgraft⟩ := exists_graft_content hitems hp hc
    exact w.carries_content hserved hp h hnext hc hf htrees (hgraft.symm.trans hd')
  · rw [graft_value hp hc] at hd'
    exact w.carries_text hserved hp h hc hd'

end Document

/-! Copies that have come in -/

theorem Branch.holdsContent_number (next : Nat) (t : Tree) (content : List Tree) (text : String) :
    (number next (t.withContent content text)).HoldsContent content text := by
  cases t with
  | element => exact eraseAll_numberAll _ _
  | _ => rfl

/-- Whether each fresh child of a branch that is not fresh itself is a copy with what an item holds,
and has nothing but fresh nodes. -/
def Branch.Stocks (next : Nat) (item : Item) (b : Branch) : Prop :=
  b.ident < next → ∀ c ∈ b.children, next ≤ c.ident →
    (∃ content, List.Forall₂ Tree.DeclaredAs item.content content ∧
      c.HoldsContent content item.toText) ∧ ∀ i ∈ idents c.entries, next ≤ i

namespace Document
variable {d d' : Document} {item : Item} {next : Nat}

/-- A copy that comes into the place of a branch leaves those that have come in before. -/
theorem Renewed.stocks {b₀ : Branch} {before after : List Entry} {t : Tree} {content : List Tree}
    (w : d.WellFormed) (hs : Stands b₀ d.tree.children before after)
    (hrenewed : d.Renewed d' b₀ (t.withContent content item.toText))
    (hcontent : List.Forall₂ Tree.DeclaredAs item.content content) (hnext : next ≤ d.nextIdent)
    (hb₀ : b₀.ident < next) (h : ∀ b, Among b [d.tree.whole] → b.Stocks next item) :
    ∀ b, Among b [d'.tree.whole] → b.Stocks next item := by
  have hroot := RootedTree.ident_ne_of_stands hs w.nodup_tree b₀.ident_mem_entries
  have hfresh : ∀ i ∈ idents (Branch.number d.nextIdent (t.withContent content item.toText)).entries,
      next ≤ i := fun i hi => Nat.le_trans hnext
    (Branch.forall_ident_numberAll d.nextIdent [t.withContent content item.toText] i
      (by simpa [Branch.numberAll, entriesAll] using hi))
  intro b hb
  rw [hrenewed.tree, RootedTree.whole_rewrite _ _ hroot] at hb
  rcases hb.of_rewriteAll with ⟨c, hc, hne, rfl⟩ | ⟨c, hc, heq, hb⟩
  · rw [Branch.Stocks, Branch.ident_rewriteInside, Branch.children_rewriteInside]
    intro hlt x hx hxnext
    obtain ⟨y, hy, hx⟩ := Branch.mem_rewriteAll.mp hx
    split at hx
    · obtain rfl := List.mem_singleton.mp hx
      exact ⟨⟨content, hcontent, Branch.holdsContent_number _ _ _ _⟩, hfresh⟩
    · -- A fresh branch has nothing that could be rewritten.
      rw [hx, Branch.ident_rewriteInside] at hxnext
      obtain ⟨hholds, hyfresh⟩ := h c hc hlt y hy hxnext
      have hsame : rewriteAll { inBranch := fun _ =>
          [Branch.number d.nextIdent (t.withContent content item.toText)] } b₀.ident [y] = [y] :=
        Branch.rewriteAll_of_not_mem [y] fun hm => Nat.not_lt.mpr (hyfresh _ (by simpa using hm)) hb₀
      rename_i hyne
      rw [Branch.rewriteAll, if_neg hyne, Branch.rewriteAll, List.append_nil] at hsame
      rw [hx, List.singleton_inj.mp hsame]
      exact ⟨hholds, hyfresh⟩
  · refine fun hlt => absurd hlt (Nat.not_lt.mpr (hfresh _ ?_))
    have hsub := hb.entries_subset
    rw [Branch.entriesAll_singleton] at hsub
    exact List.map_subset _ hsub b.ident_mem_entries

/-! Documents in which targets have been served -/

/-- A document in which some targets of another one have been served, and what all its branches are
like by then. -/
structure Advanced (d d' : Document) (like : Branch → Prop) : Prop where
  wellFormed : d'.WellFormed
  follows : ∃ gone value, d.Follows d' gone value
  branches : ∀ b, Among b [d'.tree.whole] → like b

theorem Advanced.cleared {d'' : Document} {like like' : Branch → Prop} {c : Clearing} {p : Nat}
    (w : d.WellFormed) (h : d.Advanced d' like) (hcleared : d'.Cleared c d'' p)
    (hbranches : ∀ b, Among b [d''.tree.whole] → like' b) : d.Advanced d'' like' := by
  obtain ⟨_, _, hfollows⟩ := h.follows
  obtain ⟨_, hfollows'⟩ := hcleared.follows
  exact ⟨hcleared.wellFormed, ⟨_, _, hfollows.trans w hfollows'⟩, hbranches⟩

/-- An empty node that a selection has been put into holds the selection. -/
theorem WellFormed.holdsContent_of_carries (w : d.WellFormed) {q : Nat} (hq : d.IsQueried q)
    (hempty : ¬ d.IsFilled q) {served : List Nat} {trees : List Tree} {text : String}
    (hserved : (d.handleAt q).ident ∈ served)
    (h : ∀ b, Among b [d.tree.whole] → b.Carries served next trees text) :
    d.HoldsContent q trees text := by
  have hp := w.located hq.1
  rcases w.exists_among hq.1 hq.ne_finish with ⟨b, hb, hhandle⟩ | ⟨b, hb, a, ha, hhandle, hnode⟩
  · rw [hhandle] at hp hserved
    obtain ⟨content, hcontent, hholds⟩ := (h b hb).content hserved
    rw [← w.holdsContent_iff_of_declaredAs hq.1 hempty hcontent]
    exact ((w.node_of_among hb hp).2 _ _).mpr hholds
  · rw [hhandle] at hserved
    rw [HoldsContent, hnode]
    rw [if_neg (show ¬ (Node.attribute a.name a.value).isContainer = true from Bool.false_ne_true)]
    exact (h b hb).value a ha hserved

/-- An empty node that has come in for an item holds what the item does. -/
theorem WellFormed.holdsContent_of_stocks (w : d.WellFormed) {p q : Nat} (hp : p < d.length)
    (hchild : q ∈ d.children p) (hold : (d.handleAt p).ident < next)
    (hnew : next ≤ (d.handleAt q).ident) (hempty : ¬ d.IsFilled q)
    (h : ∀ b, Among b [d.tree.whole] → b.Stocks next item) :
    (d.node q).isChild ∧ d.node q ≠ .document ∧ d.HoldsContent q item.content item.toText := by
  have hc : (d.node p).isContainer := by
    by_contra hn
    rw [(w.alone hp hn).2] at hchild
    cases hchild
  have hq : q < d.length := w.lt_length_of_mem_children hp hchild
  obtain ⟨-, hparent, hnode⟩ := (w.mem_children_iff hp hc).mp hchild
  refine ⟨hnode, fun hdocument => ?_, ?_⟩
  · rw [(w.document_iff hq).mp hdocument, w.parent_zero] at hparent
    cases hparent
  have hlocated := w.located hp
  rcases w.exists_among hp (fun hfinish => by simp [hfinish, Node.isContainer] at hc) with
    ⟨b, hb, hhandle⟩ | ⟨b, hb, a, ha, hhandle, -⟩
  · rw [hhandle] at hlocated hold
    have hmem : d.handleAt q ∈ (d.children p).map d.handleAt := List.mem_map_of_mem hchild
    rw [w.children_of_among hb hlocated] at hmem
    obtain ⟨c, hc, hcq⟩ := List.mem_map.mp hmem
    rw [← hcq] at hnew
    obtain ⟨⟨content, hcontent, hholds⟩, -⟩ := h b hb hold c hc hnew
    rw [← w.holdsContent_iff_of_declaredAs hq hempty hcontent]
    exact ((w.node_of_among (hb.child hc) (hcq ▸ w.located hq)).2 _ _).mpr hholds
  · exact absurd hc (w.not_isContainer_of_attribute hb ha (hhandle ▸ hlocated))

end Document

namespace Mapping
open Work
variable {m : Mapping} {path : String} {targets : List Handle} {v v' : Workspace}
  (w : v.template.WellFormed) (htargets : ∀ target ∈ targets, target.ident < v.template.nextIdent)
include w htargets

/-- A loop that succeeds has put its selection into all targets. -/
theorem exists_advanced_of_graft (hd : m.dispatch = .graft) {items : List Item}
    (hitems : ∀ item ∈ items, item.Sound)
    (hdone : outcome (targets.forM (m.serve path items)) v = (.ok (), v')) :
    ∃ served, (∀ target ∈ targets, target.ident ∈ served) ∧ v.template.Advanced v'.template
      (Branch.Carries served v.template.nextIdent (items.flatMap Item.trees) (Item.concat items)) := by
  have hloop := @of_forM Handle (m.serve path items) (fun done u =>
    (∀ target ∈ done, target.ident < v.template.nextIdent) ∧ v.template.Advanced u.template
      (Branch.Carries (done.map (·.ident)) v.template.nextIdent (items.flatMap Item.trees)
        (Item.concat items))) targets [] v v' ?step ⟨nofun, w, ⟨_, _, .refl _⟩, ?start⟩ hdone
  case start => exact fun b _ => ⟨nofun, nofun, nofun⟩
  case step =>
    rintro done target htarget u u' ⟨hold, h⟩ hserve
    have hcleared := fun p hp => clears_serve m path hitems (p := p) h.wellFormed hp hserve
    have hgraft : u.template.graft target items = .ok u'.template := by
      simp only [serve, hd] at hserve
      exact template_of_edit hserve
    obtain ⟨p, hp⟩ := Document.exists_locate?_of_graft hgraft
    have hold' : ∀ t ∈ target :: done, t.ident < v.template.nextIdent :=
      List.forall_mem_cons.mpr ⟨htargets target htarget, hold⟩
    obtain ⟨_, _, hfollows⟩ := h.follows
    refine ⟨hold', h.cleared w (hcleared p hp) ?_⟩
    exact h.wellFormed.carries_graft hfollows.nextIdent_le
      (by simpa using hold') hitems hgraft h.branches
  exact ⟨_, fun target ht => List.mem_map_of_mem (by simpa using ht), hloop.2⟩

omit w htargets in
theorem exists_stands_of_multiply {fills : Bool} {body : Body} {items : List Item} {target : Handle}
    (hne : items ≠ []) (w : v.template.WellFormed)
    (h : outcome (multiply fills body path items target) v = (.ok (), v')) :
    ∃ b before after, Branch.Stands b v.template.tree.children before after ∧
      target = ⟨v.template.id, b.ident⟩ ∧ v.template.locate? target = some (before.length + 1) := by
  obtain ⟨results, sorted, v₁, hresults, hsorted, hsubstituted⟩ := exists_ranked_of_multiply h
  have hperm := SortKeys.perm_of_sort hsorted
  obtain ⟨hkept, hcopied⟩ := forall₂_of_mapM_copyFor hresults
  rw [hkept] at hsubstituted
  refine w.exists_stands_of_substitute (fun hnil => hne ?_) hsubstituted
  rw [List.map_eq_nil_iff.mp hnil] at hperm
  rwa [← hperm.nil_eq, List.forall₂_nil_right_iff] at hcopied

/-- A loop that succeeds has put copies for its single item into the places of all targets. -/
theorem advanced_of_multiple (hd : m.dispatch = .multiple) {item : Item} (hitem : item.Sound)
    (hdone : outcome (targets.forM (m.serve path [item])) v = (.ok (), v')) :
    v.template.Advanced v'.template (Branch.Stocks v.template.nextIdent item) := by
  refine @of_forM Handle (m.serve path [item]) (fun _ u => v.template.Advanced u.template
    (Branch.Stocks v.template.nextIdent item)) targets [] v v' ?step ⟨w, ⟨_, _, .refl _⟩, ?start⟩ hdone
  case start =>
    intro b hb _ c hc hle
    have hchild : Among c v.template.tree.children := by
      rcases Branch.among_singleton.mp hb with rfl | hb
      · exact .here hc
      · exact hb.child hc
    obtain ⟨e, he, hident⟩ := List.mem_map.mp c.ident_mem_entries
    have hlt := w.ident_lt (w.entries_subset_of_among hchild he)
    exact absurd (hident ▸ hlt) (Nat.not_lt.mpr hle)
  case step =>
    intro _ target htarget u u' h hserve
    have hitems : ∀ i ∈ [item], i.Sound := by simpa using hitem
    have hcleared := fun p hp => clears_serve m path hitems (p := p) h.wellFormed hp hserve
    simp only [serve, hd] at hserve
    obtain ⟨b, before, after, hs, ht, hp⟩ :=
      exists_stands_of_multiply (List.cons_ne_nil item []) h.wellFormed hserve
    obtain ⟨u'', content, hserve', hcontent, hrenewed⟩ :=
      exists_multiply_single h.wellFormed hs ht hitem path
    cases hserve'.symm.trans hserve
    obtain ⟨_, _, hfollows⟩ := h.follows
    refine h.cleared w (hcleared _ hp) ?_
    exact hrenewed.stocks h.wellFormed hs hcontent hfollows.nextIdent_le
      (by simpa [ht] using htargets target htarget) h.branches

end Mapping
end MarkupGraft
