import MarkupGraft.Proofs.Store.Children
import MarkupGraft.Proofs.Store.Site
import MarkupGraft.Proofs.Template.Content

/-!
Copies in the place of a target. Each copy comes in front of the target and behind those before it,
wherever the target has moved to by then; at the end the target is taken away. So the children of its
parent are what they were, with the contents of all copies where the target stood.
-/

namespace MarkupGraft

namespace Branch

/-- What comes in front of a branch moves it behind. -/
theorem Stands.insertBefore {b : Branch} {bs : List Branch} {before after : List Entry}
    (h : Stands b bs before after) (hb : b.ident ∉ idents before) (ha : b.ident ∉ idents after)
    (new : List Branch) :
    Stands b (rewriteAll { inBranch := fun c => new ++ [c] } b.ident bs)
      (before ++ entriesAll new) after := by
  induction h with
  | here l r =>
    rw [← List.singleton_append, rewriteAll_append, rewriteAll_append, rewriteAll_of_not_mem l hb,
      rewriteAll_of_not_mem r ha, ← entriesAll_append]
    simpa [rewriteAll] using Stands.here (b := b) (l ++ new) r
  | @inside l r ident name attributes children finish before after h ih =>
    simp only [idents_append, idents_cons, List.mem_append, List.mem_cons, not_or] at hb ha
    rw [← List.singleton_append, rewriteAll_append, rewriteAll_append,
      rewriteAll_of_not_mem l hb.1, rewriteAll_of_not_mem r ha.2.2,
      rewriteAll_inside hb.2.1 hb.2.2.1]
    simpa using Stands.inside l r (ih hb.2.2.2 ha.1)

/-- The container that a branch stands in lists what comes into the place of the branch, whatever
that is, between the same siblings. -/
theorem Stands.exists_container {b : Branch} {bs : List Branch} {before after : List Entry}
    (h : Stands b bs before after) {outer rest : List Entry} {head finish : Entry}
    {attributes : List OwnedAttribute} (hc : head.node.isContainer) (hf : finish.node = .finish) :
    ∃ (outer' rest' : List Entry) (head' finish' : Entry) (attributes' : List OwnedAttribute)
      (l r : List Branch), head'.node.isContainer ∧ finish'.node = .finish ∧
        ∀ cs : List Branch,
          outer ++ head :: (attributes.map OwnedAttribute.entry ++
            (before ++ (entriesAll cs ++ (after ++ finish :: rest)))) =
          outer' ++ head' :: (attributes'.map OwnedAttribute.entry ++
            (entriesAll (l ++ (cs ++ r)) ++ finish' :: rest')) := by
  induction h generalizing outer rest head finish attributes with
  | here l r =>
    exact ⟨outer, rest, head, finish, attributes, l, r, hc, hf, fun cs => by simp⟩
  | @inside l r ident name own children finish' before after h ih =>
    obtain ⟨outer', rest', head', last', attributes', l', r', hc', hf', heq⟩ :=
      @ih (outer ++ head :: (attributes.map OwnedAttribute.entry ++ entriesAll l))
        (entriesAll r ++ finish :: rest) ⟨.element name, ident⟩ ⟨.finish, finish'⟩ own rfl rfl
    refine ⟨outer', rest', head', last', attributes', l', r', hc', hf', fun cs => ?_⟩
    rw [← heq cs]
    simp

end Branch

/-- Trees come into their place as they are, but for declarations. -/
theorem Fragment.declaredAs_treesUnder (f : Fragment) (target : Scope) :
    List.Forall₂ Tree.DeclaredAs f.trees (f.treesUnder target) := by
  rw [treesUnder, List.forall₂_map_right_iff]
  exact List.forall₂_same.mpr fun t _ => Document.declaredAs_placed _ _ t

namespace Document
open Branch (Stands idents entriesAll eraseAll)
variable {d : Document}

namespace WellFormed
variable (w : d.WellFormed)
include w

/-- A run of entries takes up the positions of the nodes that have its identities. -/
theorem mem_run_iff {front run back : List Entry} (hentries : d.entries = front ++ (run ++ back))
    {h : Handle} {q : Nat} (hq : d.locate? h = some q) :
    front.length ≤ q ∧ q < front.length + run.length ↔ h.ident ∈ idents run := by
  obtain ⟨hid, e, he, hident⟩ := (locate?_eq_some_iff w.nodup).mp hq
  have hinside {k : Nat} (hk : k < run.length) : d.entries[front.length + k]? = run[k]? := by
    rw [hentries, List.getElem?_append_right (by omega), List.getElem?_append_left (by omega)]
    congr 1
    omega
  constructor
  · rintro ⟨hle, hlt⟩
    obtain ⟨k, rfl⟩ := Nat.exists_eq_add_of_le hle
    rw [hinside (by omega)] at he
    exact List.mem_map.mpr ⟨e, List.mem_of_getElem? he, hident⟩
  · intro hmem
    obtain ⟨e', he', hident'⟩ := List.mem_map.mp hmem
    obtain ⟨k, hk, hek⟩ := List.mem_iff_getElem.mp he'
    have hplace : d.entries[front.length + k]? = some e' := by
      rw [hinside hk, List.getElem?_eq_getElem hk, hek]
    have hsame : d.locate? h = some (front.length + k) :=
      (locate?_eq_some_iff w.nodup).mpr ⟨hid, e', hplace, hident'⟩
    obtain rfl := Option.some.inj (hq.symm.trans hsame)
    omega

/-- The extent of a branch holds the nodes that have its identities. -/
theorem mem_extent_iff {b : Branch} {before after : List Entry}
    (hs : Stands b d.tree.children before after) {h : Handle} {q : Nat}
    (hq : d.locate? h = some q) :
    before.length + 1 ≤ q ∧ q ≤ d.last (before.length + 1) ↔ h.ident ∈ idents b.entries := by
  have hlast := w.last_of_stands hs
  rw [← w.mem_run_iff (w.entries_of_stands hs) hq, List.length_cons]
  omega

end WellFormed

/-- A document into which branches have come in front of a branch of another one, which is now
theirs. -/
structure Extended (d d' : Document) (b : Branch) (before after : List Entry)
    (new : List Branch) : Prop where
  wellFormed : d'.WellFormed
  stands : Stands b d'.tree.children (before ++ entriesAll new) after
  root : d'.tree.ident = d.tree.ident ∧ d'.tree.finish = d.tree.finish
  follows : d.Follows d' (fun _ => False) fun _ value => value

/-- A document in which branches stand where a target of another document stood. -/
structure Replaced (d d' : Document) (target : Handle) (inserted : List Branch) : Prop where
  wellFormed : d'.WellFormed
  tree : d'.tree = d.tree.rewrite target.ident { inBranch := fun _ => inserted }
  stale : d'.locate? target = none
  /-- The children of the parent are the same, with the new branches for the target. -/
  children : ∃ p parent before after, d.locate? target = some p ∧ d.parent? p = some parent ∧
    (d.children parent).map d.handleAt = before ++ target :: after ∧
    d'.locate? (d.handleAt parent) = some parent ∧
    (d'.children parent).map d'.handleAt =
      before ++ (inserted.map (fun b => ⟨d.id, b.ident⟩) ++ after)
  /-- What is outside of the extent of the target stays what and where it was. -/
  follows : d.Follows d' (fun h => ∃ p q, d.locate? target = some p ∧ d.locate? h = some q ∧
    p ≤ q ∧ q ≤ d.last p) fun _ value => value

variable {b : Branch} {before after : List Entry} {target : Handle}

theorem Extended.refl (w : d.WellFormed) (hs : Stands b d.tree.children before after) :
    d.Extended d b before after [] where
  wellFormed := w
  stands := by simpa [entriesAll] using hs
  root := ⟨rfl, rfl⟩
  follows := .refl d

/-- What comes in front of the branch takes the next identities. -/
theorem Extended.insertBefore_numbered {d' d'' : Document} {new : List Branch} (w : d.WellFormed)
    (h : d.Extended d' b before after new) (ht : target.ident = b.ident) {f : Fragment}
    (hf : f.Complete) {p : Nat} (hp : d'.locate? target = some p)
    (hd'' : d'.insertBefore target f = .ok d'') :
    d.Extended d'' b before after (new ++ Branch.numberAll d'.nextIdent
      (f.treesUnder (d'.scopeAt ((d'.parent? p).getD 0)))) := by
  have w' := h.wellFormed
  have hedit : d'.edit (.insertBefore target f) = .ok d'' := hd''
  obtain ⟨_, hp', hs, rfl⟩ := d'.edit_eq_ok_iff.mp hedit
  obtain rfl := Option.some.inj (hp.symm.trans hp')
  obtain ⟨w'', htree⟩ := w'.edited (by simpa [Edit.content?] using hf) hp' hs
  have hfollows := w'.follows_edited (w'.lt_length_of_locate? hp) hs
  obtain ⟨hb, ha⟩ := RootedTree.not_mem_of_stands h.stands w'.nodup_tree b.ident_mem_entries
  refine ⟨w'', ?_, ?_, ?_⟩
  · rw [htree, Branch.entriesAll_append, ← List.append_assoc]
    simp only [Edit.map, RootedTree.edit, ht]
    exact h.stands.insertBefore hb ha _
  · rw [htree]
    exact h.root
  · refine (h.follows.trans w hfollows).congr (fun _ => ?_) fun _ => ?_
    · simp [Edit.Discards]
    · funext value
      cases d'.locate? _ <;> rfl

theorem Extended.insertBefore {d' d'' : Document} {new : List Branch} (w : d.WellFormed)
    (h : d.Extended d' b before after new) (ht : target.ident = b.ident) {f : Fragment}
    (hf : f.Complete) (hd'' : d'.insertBefore target f = .ok d'') :
    ∃ more, d.Extended d'' b before after (new ++ more) ∧
      List.Forall₂ Tree.DeclaredAs f.trees (eraseAll more) := by
  have hedit : d'.edit (.insertBefore target f) = .ok d'' := hd''
  obtain ⟨p, hp, -, -⟩ := d'.edit_eq_ok_iff.mp hedit
  refine ⟨_, h.insertBefore_numbered w ht hf hp hd'', ?_⟩
  rw [Branch.eraseAll_numberAll]
  exact f.declaredAs_treesUnder _

theorem Extended.foldlM {d' d'' : Document} {new : List Branch} (w : d.WellFormed)
    (h : d.Extended d' b before after new) (ht : target.ident = b.ident) {copies : List Document}
    (hcopies : ∀ copy ∈ copies, copy.WellFormed)
    (hd'' : copies.foldlM (fun d copy => d.insertBefore target copy.contents) d' = .ok d'') :
    ∃ more, d.Extended d'' b before after (new ++ more) ∧
      List.Forall₂ Tree.DeclaredAs (copies.flatMap Document.trees) (eraseAll more) := by
  induction copies generalizing d' new with
  | nil =>
    cases hd''
    exact ⟨[], by simpa using h, .nil⟩
  | cons copy copies ih =>
    obtain ⟨hcopy, hrest⟩ := List.forall_mem_cons.mp hcopies
    rw [List.foldlM_cons] at hd''
    obtain ⟨d₁, hd₁, hd''⟩ := Markup.bind_eq_ok_iff.mp hd''
    obtain ⟨first, hfirst, hdeclared⟩ := h.insertBefore w ht hcopy.complete_contents hd₁
    obtain ⟨others, hothers, hdeclared'⟩ := ih hfirst hrest hd''
    refine ⟨first ++ others, by rwa [← List.append_assoc], ?_⟩
    rw [hcopy.trees_contents] at hdeclared
    rw [List.flatMap_cons, Branch.eraseAll_append]
    exact List.rel_append hdeclared hdeclared'

/-- What an extension lists once the branch it came in front of is taken away. -/
theorem Extended.removed {d' d'' : Document} {inserted : List Branch} (w : d.WellFormed)
    (hs : Stands b d.tree.children before after) (h : d.Extended d' b before after inserted)
    (ht : target.ident = b.ident) (hd'' : d'.remove target = .ok d'') :
    d''.WellFormed ∧ d''.tree = d.tree.rewrite b.ident { inBranch := fun _ => inserted } ∧
      d''.entries = (⟨.document, d.tree.ident⟩ :: before) ++
        (entriesAll inserted ++ (after ++ [⟨.finish, d.tree.finish⟩])) := by
  have w' := h.wellFormed
  have hedit : d'.edit (.remove target) = .ok d'' := hd''
  obtain ⟨p, hp, hsupports, rfl⟩ := d'.edit_eq_ok_iff.mp hedit
  obtain ⟨w'', htree⟩ := w'.edited (by simp [Edit.content?]) hp hsupports
  have hentries : (d'.edited (.remove target) p).entries = (⟨.document, d.tree.ident⟩ :: before) ++
      (entriesAll inserted ++ (after ++ [⟨.finish, d.tree.finish⟩])) := by
    rw [w''.entries_eq, htree, Edit.map, RootedTree.edit, ht, RootedTree.remove,
      RootedTree.entries_rewrite h.stands w'.nodup_tree b.ident_mem_entries, h.root.1, h.root.2,
      Branch.rewriteAll, if_pos rfl]
    simp [Branch.rewriteAll, entriesAll]
  refine ⟨w'', ?_, hentries⟩
  rw [tree, hentries, ← RootedTree.ofEntries_entries (d.tree.rewrite _ _),
    RootedTree.entries_rewrite hs w.nodup_tree b.ident_mem_entries, Branch.rewriteAll, if_pos rfl]
  simp [Branch.rewriteAll]

/-- The children of the parent of a branch, before and after other branches come into its place. -/
theorem WellFormed.children_around {d' : Document} {inserted : List Branch} (w : d.WellFormed)
    (w' : d'.WellFormed) (hid : d'.id = d.id) (hs : Stands b d.tree.children before after)
    (ht : target = ⟨d.id, b.ident⟩) (hp : d.locate? target = some (before.length + 1))
    (hentries : d'.entries = (⟨.document, d.tree.ident⟩ :: before) ++
      (entriesAll inserted ++ (after ++ [⟨.finish, d.tree.finish⟩]))) :
    ∃ parent left right, d.parent? (before.length + 1) = some parent ∧
      (d.children parent).map d.handleAt = left ++ target :: right ∧
      d'.locate? (d.handleAt parent) = some parent ∧
      (d'.children parent).map d'.handleAt =
        left ++ (inserted.map (fun b => ⟨d.id, b.ident⟩) ++ right) := by
  obtain ⟨outer, rest, head, finish, attributes, l, r, hc, hf, heq⟩ :=
    @Stands.exists_container _ _ _ _ hs [] [] ⟨.document, d.tree.ident⟩ ⟨.finish, d.tree.finish⟩ []
      rfl rfl
  have hlisting : d.entries = outer ++ head :: (attributes.map OwnedAttribute.entry ++
      (entriesAll (l ++ ([b] ++ r)) ++ finish :: rest)) := by
    rw [w.entries_of_stands hs, ← heq [b]]
    simp [entriesAll]
  have hlisting' : d'.entries = outer ++ head :: (attributes.map OwnedAttribute.entry ++
      (entriesAll (l ++ (inserted ++ r)) ++ finish :: rest)) := by
    rw [hentries, ← heq inserted]
    simp
  have hchildren := handles_children hc hf hlisting
  have hchildren' := handles_children hc hf hlisting'
  have houter : outer.length < d.length := by simp [length, hlisting]
  have hnode : d.node outer.length = head.node := node_of_entries hlisting
  refine ⟨outer.length, l.map fun b => ⟨d.id, b.ident⟩, r.map fun b => ⟨d.id, b.ident⟩, ?_, ?_, ?_,
    ?_⟩
  · have hmem : target ∈ (d.children outer.length).map d.handleAt := by
      rw [hchildren, ht]
      simp
    obtain ⟨c, hc', hct⟩ := List.mem_map.mp hmem
    have hlocated := w.located (w.lt_length_of_mem_children houter hc')
    rw [hct, hp] at hlocated
    rw [Option.some.inj hlocated]
    exact ((w.mem_children_iff houter (hnode ▸ hc)).mp hc').2.1
  · rw [hchildren, ht]
    simp
  · refine (locate?_eq_some_iff w'.nodup).mpr ⟨hid.symm, head, ?_, ?_⟩
    · simp [hlisting']
    · simp [handleAt, hlisting]
  · rw [hchildren', hid]
    simp

theorem WellFormed.locate?_of_stands (w : d.WellFormed)
    (hs : Stands b d.tree.children before after) :
    d.locate? ⟨d.id, b.ident⟩ = some (before.length + 1) := by
  obtain ⟨node, rest, hb, -⟩ := b.entries_head
  refine (locate?_eq_some_iff w.nodup).mpr ⟨rfl, ⟨node, b.ident⟩, ?_, rfl⟩
  rw [w.entries_of_stands hs, List.getElem?_append_right (by simp), hb]
  simp

/-- Only the branch itself goes with the target. -/
theorem Extended.follows_removed {d' d'' : Document} {inserted : List Branch} (w : d.WellFormed)
    (hs : Stands b d.tree.children before after) (h : d.Extended d' b before after inserted)
    (ht : target = ⟨d.id, b.ident⟩) (hd'' : d'.remove target = .ok d'') :
    d.Follows d'' (fun h => ∃ p q, d.locate? target = some p ∧ d.locate? h = some q ∧
      p ≤ q ∧ q ≤ d.last p) fun _ value => value := by
  have w' := h.wellFormed
  have hedit : d'.edit (.remove target) = .ok d'' := hd''
  obtain ⟨p, hp, hsupports, rfl⟩ := d'.edit_eq_ok_iff.mp hedit
  have hp' := w'.locate?_of_stands h.stands
  rw [h.follows.id_eq, ← ht] at hp'
  obtain rfl := Option.some.inj (hp'.symm.trans hp)
  refine (h.follows.trans w (w'.follows_edited (w'.lt_length_of_locate? hp) hsupports)).congr
    (fun {k q} hq => ?_) fun _ => ?_
  · -- In both documents the extent holds the identities of the branch.
    obtain ⟨q', hq'⟩ := Option.isSome_iff_exists.mp ((h.follows.resolves hq).mpr not_false)
    have hextent := (w'.mem_extent_iff h.stands hq').trans (w.mem_extent_iff hs hq).symm
    simpa [ht, w.locate?_of_stands hs, hq, hq', Edit.Discards] using hextent
  · funext value
    cases d'.locate? _ <;> rfl

/-- What can take a sibling in front of it is a branch. -/
theorem WellFormed.exists_stands_of_insertBefore (w : d.WellFormed) {f : Fragment} {d' : Document}
    (h : d.insertBefore target f = .ok d') :
    ∃ b before after, Stands b d.tree.children before after ∧ target = ⟨d.id, b.ident⟩ ∧
      d.locate? target = some (before.length + 1) := by
  have hedit : d.edit (.insertBefore target f) = .ok d' := h
  obtain ⟨p, hp, hs, -⟩ := d.edit_eq_ok_iff.mp hedit
  simp only [Edit.supports, Bool.and_eq_true, decide_eq_true_eq] at hs
  obtain ⟨b, before, after, hb, hident, rfl⟩ := w.exists_stands (w.found hp) hs.1 hs.2
  obtain ⟨hid, -⟩ := (locate?_eq_some_iff w.nodup).mp hp
  exact ⟨b, before, after, hb, by rw [hident, ← hid]; rfl, hp⟩

/-- Only a branch can be substituted. -/
theorem WellFormed.exists_stands_of_substitute (w : d.WellFormed) {copies : List Document}
    {d' : Document} (hne : copies ≠ []) (h : d.substitute target copies = .ok d') :
    ∃ b before after, Stands b d.tree.children before after ∧ target = ⟨d.id, b.ident⟩ ∧
      d.locate? target = some (before.length + 1) := by
  obtain ⟨filled, hfilled, -⟩ := Markup.bind_eq_ok_iff.mp h
  obtain ⟨copy, others, rfl⟩ := List.exists_cons_of_ne_nil hne
  rw [List.foldlM_cons] at hfilled
  obtain ⟨d₁, hd₁, -⟩ := Markup.bind_eq_ok_iff.mp hfilled
  exact w.exists_stands_of_insertBefore hd₁

/-- Copies come into the place of a target with all that they hold, in their order. -/
theorem WellFormed.replaced (w : d.WellFormed) {copies : List Document} {d' : Document}
    (hcopies : ∀ copy ∈ copies, copy.WellFormed) (hne : copies ≠ [])
    (hd' : d.substitute target copies = .ok d') :
    ∃ inserted, d.Replaced d' target inserted ∧
      List.Forall₂ Tree.DeclaredAs (copies.flatMap Document.trees) (eraseAll inserted) := by
  obtain ⟨b, before, after, hs, ht, hp⟩ := w.exists_stands_of_substitute hne hd'
  obtain ⟨filled, hfilled, hremoved⟩ := Markup.bind_eq_ok_iff.mp hd'
  have hident : target.ident = b.ident := by rw [ht]
  obtain ⟨inserted, hextended, hdeclared⟩ := (Extended.refl w hs).foldlM w hident hcopies hfilled
  rw [List.nil_append] at hextended
  obtain ⟨w', htree, hentries⟩ := hextended.removed w hs hident hremoved
  have hfollows := hextended.follows_removed w hs ht hremoved
  obtain ⟨parent, left, right, hparent, hold, hlocated, hnew⟩ :=
    w.children_around w' hfollows.id_eq hs ht hp hentries
  refine ⟨inserted, ⟨w', hident ▸ htree, ?_, ?_, hfollows⟩, hdeclared⟩
  · have hin := (w.mem_extent_iff hs hp).mpr (hident ▸ b.ident_mem_entries)
    exact Option.not_isSome_iff_eq_none.mp fun hsome =>
      (hfollows.resolves hp).mp hsome ⟨_, _, hp, hp, hin⟩
  · exact ⟨_, parent, left, right, hp, hparent, hold, hlocated, hnew⟩

end Document
end MarkupGraft
