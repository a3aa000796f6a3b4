import MarkupGraft.Proofs.Template.Served

/-!
Templates that a mapping leaves as they are. Going through empty targets loses nothing that queries
meet, so when a template has the same nodes afterwards, each of them is where it was; and what a target
has got is what it had. So the targets of such a template were settled.
-/

namespace MarkupGraft
open Branch (Stands idents entriesAll eraseAll)

namespace Document
variable {d d' : Document}

theorem WellFormed.handleAt_of_locate? (w : d.WellFormed) {h : Handle} {q : Nat}
    (hq : d.locate? h = some q) : d.handleAt q = h := by
  obtain ⟨hid, e, he, hident⟩ := (locate?_eq_some_iff w.nodup).mp hq
  rw [handleAt, List.getD_eq_getElem?_getD, he, Option.getD_some, hident, ← hid]

/-! What is where it was -/

/-- What queries meet is where it was in a document with the same nodes that has lost none of it. -/
theorem Follows.locate?_handleAt {gone : Handle → Prop} {value : Handle → String → String}
    (h : d.Follows d' gone value) (w : d.WellFormed) (w' : d'.WellFormed) (hnodes : d'.nodes = d.nodes)
    (hkept : ∀ {q}, d.IsQueried q → ¬ gone (d.handleAt q)) {q : Nat} (hq : d.IsQueried q) :
    d'.locate? (d.handleAt q) = some q := by
  have hmoved (q : {q // d.IsQueried q}) : ∃ r : {r // d.IsQueried r},
      d'.locate? (d.handleAt q) = some r.1 := by
    have hp := w.located q.2.1
    obtain ⟨r, hr⟩ := Option.isSome_iff_exists.mp ((h.resolves hp).mpr (hkept q.2))
    have hqueried : d'.IsQueried r := by
      refine ⟨w'.lt_length_of_locate? hr, ?_⟩
      have hkind := (h.node hp hr).1
      have hq := q.2.2
      cases hn : d.node q <;> cases hn' : d'.node r <;> simp_all [Node.kind, Node.isQueried]
    exact ⟨⟨r, (isQueried_congr hnodes r).mp hqueried⟩, hr⟩
  choose f hf using hmoved
  -- Nodes that keep their order among as many places can only stay.
  have hmono : StrictMono f := fun a b hab =>
    h.ordered (w.located a.2.1) (w.located b.2.1) (hf a) (hf b) hab
  have : Finite {q // d.IsQueried q} :=
    ((Set.finite_lt_nat d.length).subset fun q hq => hq.1).to_subtype
  have hfixed : f ⟨q, hq⟩ = ⟨q, hq⟩ := le_antisymm hmono.apply_le hmono.le_apply
  rw [hf ⟨q, hq⟩, hfixed]

/-- An empty node clears nothing that queries meet when its content goes. -/
theorem WellFormed.not_clears_of_unfilled (w : d.WellFormed) {p q : Nat} (hp : p < d.length)
    (hempty : ¬ d.IsFilled p) (hq : d.IsQueried q) : ¬ d.Clears .content p q := by
  rintro ⟨c, hc, hle, hlast⟩
  have hdoctype : (d.node c).isDoctype := by
    by_contra hn
    exact hempty ⟨c, hc, hn⟩
  cases hn : d.node c with
  | doctype v =>
    rw [(w.alone (w.lt_length_of_mem_children hp hc) (by simp [hn, Node.isContainer])).1] at hlast
    obtain rfl := Nat.le_antisymm hle hlast
    have := hq.2
    rw [hn] at this
    cases this
  | _ => simp [hn, Node.isDoctype] at hdoctype

end Document

namespace Mapping
open Work
variable {c : Clearing} {step : Handle → Work Unit} {d : Document} {w w' : Workspace}

/-- Targets of which none is inside of another are all gone through, with what holds from turn to
turn. -/
theorem passed_of_forM (hstep : Clears c step) (wd : d.WellFormed)
    {holds : List Nat → Workspace → Prop} {passed rest : List Nat} (hset : d.IsNodeSet (passed ++ rest))
    (hapart : (passed ++ rest).Pairwise fun q r => ¬ d.Clears c q r)
    (hholds : ∀ passed p rest u u', d.IsNodeSet (passed ++ p :: rest) →
      d.Passed c u.template passed (p :: rest) → (∀ r ∈ passed, ¬ d.Clears c r p) → holds passed u →
        outcome (step (d.handleAt p)) u = (.ok (), u') → holds (passed ++ [p]) u')
    (hpassed : d.Passed c w.template passed rest) (h : holds passed w)
    (hdone : outcome ((rest.map d.handleAt).forM step) w = (.ok (), w')) :
    d.Passed c w'.template (passed ++ rest) [] ∧ holds (passed ++ rest) w' := by
  induction rest generalizing passed w with
  | nil =>
    cases hdone
    rw [List.append_nil]
    exact ⟨hpassed, h⟩
  | cons p rest ih =>
    rw [List.map_cons] at hdone
    change outcome (step (d.handleAt p) >>= fun _ => List.forM _ step) w = _ at hdone
    obtain ⟨⟨⟩, w₁, hserved, hdone⟩ := bind_eq_ok_iff.mp hdone
    have hout : ∀ r ∈ passed, ¬ d.Clears c r p := fun r hr =>
      (List.pairwise_append.mp hapart).2.2 r hr p List.mem_cons_self
    obtain ⟨p', hp'⟩ := Document.contains_iff.mp
      ((hpassed.contains_iff wd (hset.2 p (by simp))).mpr hout)
    have hpassed' := hpassed.clear wd hset hout hp' (hstep hpassed.wellFormed hp' hserved)
    have hholds' := hholds _ _ _ _ _ hset hpassed hout h hserved
    have hfound : passed ++ p :: rest = (passed ++ [p]) ++ rest := by simp
    rw [hfound] at hset hapart ⊢
    exact ih hset hapart hpassed' hholds' hdone

variable {m : Mapping} {path : String} {items : List Item} {found : List Nat}

/-- A template that stays the same when its empty targets take a selection had it in all of them. -/
theorem settled_of_graft (hd : m.dispatch = .graft) (hitems : ∀ item ∈ items, item.Sound)
    (hw : w.template.WellFormed) (hset : w.template.IsNodeSet found)
    (hapart : found.Pairwise fun q r => ¬ w.template.Clears .content q r)
    (hempty : ∀ q ∈ found, ¬ w.template.IsFilled q)
    (hdone : outcome ((found.map w.template.handleAt).forM (m.serve path items)) w = (.ok (), w'))
    (hnodes : w'.template.nodes = w.template.nodes) {q : Nat} (hq : q ∈ found) :
    m.Settled items w.template q := by
  have hqueried := hset.2 q hq
  obtain ⟨served, hserved, hadvanced⟩ := exists_advanced_of_graft hw
    (List.forall_mem_map.mpr fun q hq => hw.ident_lt_of_locate? (hw.located (hset.2 q hq).1)) hd
    hitems hdone
  have hclears := @clears_serve m path items hitems
  rw [clearing_graft hd] at hclears
  obtain ⟨hpassed, -⟩ := @passed_of_forM .content _ w.template w w' hclears hw (fun _ _ => True) [] found
    hset hapart (fun _ _ _ _ _ _ _ _ _ _ => trivial) (.refl hw _ _) trivial hdone
  obtain ⟨gone, value, hfollows, hgone⟩ := hpassed.follows
  have w₁ := hpassed.wellFormed
  have hplace := hfollows.locate?_handleAt hw w₁ hnodes (fun {r} hr hr' => by
    obtain ⟨p, hp, hclears⟩ := (hgone (hw.located hr.1) hr).mp hr'
    exact hw.not_clears_of_unfilled (hset.2 p hp).1 (hempty p hp) hr hclears) hqueried
  have hmem : (w'.template.handleAt q).ident ∈ served := by
    rw [w₁.handleAt_of_locate? hplace]
    exact hserved _ (List.mem_map_of_mem hq)
  have hholds := w₁.holdsContent_of_carries ((Document.isQueried_congr hnodes q).mpr hqueried)
    (mt (Document.isFilled_congr hnodes q).mp (hempty q hq)) hmem hadvanced.branches
  simp only [Settled, hd]
  exact (Document.holdsContent_congr hnodes q _ _).mp hholds

end Mapping

/-! How much there is -/

/-- How many nodes a sequence has that are no document type declarations. -/
def weight (nodes : List Node) : Nat := nodes.countP fun node => !node.isDoctype

@[simp] theorem weight_append (nodes others : List Node) :
    weight (nodes ++ others) = weight nodes + weight others := List.countP_append

namespace Tree

/-- Declarations add to a tree. -/
theorem DeclaredAs.weight_le {t u : Tree} (h : t.DeclaredAs u) : weight t.listing ≤ weight u.listing := by
  obtain ⟨declarations, -, rfl⟩ := h
  cases t with
  | element name attributes children =>
    simp only [withDeclarations, listing, attributeNodes, List.map_append]
    simp only [weight, List.countP_cons, List.countP_append]
    omega
  | _ => exact Nat.le_refl _

theorem weight_listingAll_le {ts us : List Tree} (h : List.Forall₂ DeclaredAs ts us) :
    weight (listingAll ts) ≤ weight (listingAll us) := by
  induction h with
  | nil => exact Nat.le_refl _
  | cons htu _ ih =>
    rw [listingAll, listingAll, weight_append, weight_append]
    exact Nat.add_le_add htu.weight_le ih

theorem weight_doctypes {ts : List Tree} (h : ∀ t ∈ ts, ∃ v, t = .doctype v) :
    weight (listingAll ts) = 0 := by
  induction ts with
  | nil => rfl
  | cons t ts ih =>
    obtain ⟨⟨v, rfl⟩, hts⟩ := List.forall_mem_cons.mp h
    rw [listingAll, weight_append, ih hts]
    rfl

theorem mul_le_weight_flatMap {α : Type} {l : List α} {trees : α → List Tree} {n : Nat}
    (h : ∀ a ∈ l, n ≤ weight (listingAll (trees a))) :
    l.length * n ≤ weight (listingAll (l.flatMap trees)) := by
  induction l with
  | nil => simp
  | cons a l ih =>
    obtain ⟨ha, hl⟩ := List.forall_mem_cons.mp h
    rw [List.length_cons, List.flatMap_cons, listingAll_append, weight_append, Nat.add_one_mul,
      Nat.add_comm]
    exact Nat.add_le_add ha (ih hl)

end Tree

/-- A branch with no child but document type declarations loses nothing to other content. -/
theorem Branch.weight_le_withContent {b : Branch} (h : ∀ t ∈ eraseAll b.children, ∃ v, t = .doctype v)
    (content : List Tree) (text : String) :
    weight b.erase.listing ≤ weight (b.erase.withContent content text).listing := by
  cases b with
  | element ident name attributes children finish =>
    have hchildren : weight (Tree.listingAll (eraseAll children)) = 0 := Tree.weight_doctypes h
    simp only [erase, Tree.withContent, Tree.listing]
    simp only [weight, List.countP_cons, List.countP_append] at hchildren ⊢
    omega
  | leaf ident kind value => cases kind <;> exact Nat.le_refl _

namespace Mapping
open Work
variable {w w' : Workspace} {path : String} {items : List Item} {target : Handle} {b : Branch}
  {before after : List Entry}

private theorem forall_of_forall₂ {α β : Type} {R : α → β → Prop} {good : β → Prop} {l : List α}
    {l' : List β} (h : List.Forall₂ R l l') (hgood : ∀ a ∈ l, ∀ b, R a b → good b) :
    ∀ b ∈ l', good b := by
  induction h with
  | nil => exact fun b hb => nomatch hb
  | cons hab _ ih =>
    obtain ⟨ha, hl⟩ := List.forall_mem_cons.mp hgood
    exact List.forall_mem_cons.mpr ⟨ha _ hab, ih hl⟩

/-- What a repetition puts into the place of an empty branch has no less for each item than the branch
had. -/
theorem exists_inserted_of_multiply (hw : w.template.WellFormed)
    (hs : Stands b w.template.tree.children before after)
    (hp : w.template.locate? target = some (before.length + 1)) (ht : target.ident = b.ident)
    (hempty : ∀ t ∈ eraseAll b.children, ∃ v, t = .doctype v) (hne : items ≠ [])
    (hitems : ∀ item ∈ items, item.Sound)
    (h : outcome (multiply true (fun _ _ => pure ()) path items target) w = (.ok (), w')) :
    ∃ inserted : List Branch,
      items.length * weight b.erase.listing ≤ weight (Tree.listingAll (eraseAll inserted)) ∧
      w'.template.tree = w.template.tree.rewrite b.ident { inBranch := fun _ => inserted } := by
  obtain ⟨results, sorted, w₁, hresults, hsorted, hsubstituted⟩ := exists_ranked_of_multiply h
  have hperm := SortKeys.perm_of_sort hsorted
  obtain ⟨hkept, hcopied⟩ := forall₂_of_mapM_copyFor hresults
  rw [hkept] at hsubstituted
  have hlength : sorted.length = items.length := hperm.length_eq.trans hcopied.length_eq.symm
  have hbody : Body.Live fun _ _ => pure () := fun _ _ _ => Live.pure fun _ _ => trivial
  have hwell := wellFormed_of_mapM_copyFor_ok hbody hitems hw hresults
  have hheavy : ∀ made ∈ results, weight b.erase.listing ≤ weight (Tree.listingAll made.1.trees) := by
    refine forall_of_forall₂ hcopied fun item hitem made ⟨v, v', hv, hmade⟩ => ?_
    obtain ⟨-, id, copy, node, start, hcopy, hstart, source, nextId, inner, hinner, rfl⟩ :=
      exists_prepared_of_copyFor hmade
    cases hinner
    rw [← hv] at hw hs hp
    obtain ⟨content, -, hholds⟩ := (hw.holds_of_detach hs hp hcopy).filled (hitems item hitem) hstart
    rw [hholds.trees_eq, Tree.listingAll, Tree.listingAll, List.append_nil]
    exact Branch.weight_le_withContent hempty content item.toText
  obtain ⟨inserted, hreplaced, hdeclared⟩ := hw.replaced
    (List.forall_mem_map.mpr fun made hm => hwell made (hperm.mem_iff.mp hm)) (by
      rw [← List.length_pos_iff, List.length_map, hlength]
      exact List.length_pos_iff.mpr hne) hsubstituted
  refine ⟨inserted, ?_, ht ▸ hreplaced.tree⟩
  rw [← hlength]
  rw [List.flatMap_map] at hdeclared
  exact (Tree.mul_le_weight_flatMap fun made hm => hheavy made (hperm.mem_iff.mp hm)).trans
    (Tree.weight_listingAll_le hdeclared)

end Mapping

namespace Document
variable {d : Document} {b : Branch} {before after : List Entry}

/-- A target that is a branch when its turn comes was one at first, and is still the same. -/
theorem Passed.exists_stands {d' : Document} {c : Clearing} {passed rest : List Nat} {p : Nat}
    (h : d.Passed c d' passed (p :: rest)) (w : d.WellFormed) (hp : p < d.length)
    (hout : ∀ r ∈ passed, ¬ d.Clears c r p) (hs : Stands b d'.tree.children before after)
    (hlocated : d'.locate? (d.handleAt p) = some (before.length + 1)) :
    ∃ b before after before' after', Stands b d.tree.children before after ∧ p = before.length + 1 ∧
      Stands b d'.tree.children before' after' ∧ d.handleAt p = ⟨d'.id, b.ident⟩ := by
  obtain ⟨_, _, hfollows, -⟩ := h.follows
  have hkind := (hfollows.node (w.located hp) hlocated).1
  obtain ⟨node, rest', hb, hchild, hdocument⟩ := b.entries_head
  rw [h.wellFormed.node_of_stands hs hb] at hkind
  obtain ⟨b, before, after, hs, hident, rfl⟩ := w.exists_stands (w.found (w.located hp))
    (by cases node <;> cases hn : d.node p <;> simp_all [Node.kind, Node.isChild])
    (fun hn => by cases node <;> simp_all [Node.kind])
  obtain ⟨before', after', hs'⟩ := h.stands hs List.mem_cons_self hout
  refine ⟨b, before, after, before', after', hs, rfl, hs', ?_⟩
  rw [hident, hfollows.id_eq]
  rfl

/-- An empty branch has nothing but document type declarations. -/
theorem WellFormed.exists_doctype_of_stands (w : d.WellFormed)
    (hs : Stands b d.tree.children before after) (hempty : ¬ d.IsFilled (before.length + 1)) :
    ∀ t ∈ eraseAll b.children, ∃ v, t = .doctype v := by
  cases b with
  | element ident name attributes children finish =>
    have hholds : d.HoldsContent (before.length + 1)
        ((d.children (before.length + 1)).flatMap d.treesAt) "" := by
      rw [HoldsContent, w.node_of_element hs, if_pos (show (Node.element name).isContainer from rfl)]
    have hchildren : eraseAll children = _ := (w.holdsContent_of_stands hs).mp hholds
    rw [Branch.children, hchildren]
    exact w.exists_doctype (w.lt_of_stands hs) hempty
  | leaf => exact fun t ht => absurd ht List.not_mem_nil

/-- A branch that queries meet is no document type declaration. -/
theorem WellFormed.weight_pos_of_stands (w : d.WellFormed)
    (hs : Stands b d.tree.children before after) (hq : d.IsQueried (before.length + 1)) :
    0 < weight b.erase.listing := by
  obtain ⟨node, rest, hb, hchild, -⟩ := b.entries_head
  have hnode := hq.2
  rw [w.node_of_stands hs hb] at hnode
  rw [← Branch.nodes_entries, hb, weight, List.countP_pos_iff]
  refine ⟨node, by simp, ?_⟩
  cases node <;> first | rfl | cases hnode

/-- Nothing behind a branch has an identity that is in front of what comes into its place, or in it. -/
theorem WellFormed.not_mem_front (w : d.WellFormed) (hs : Stands b d.tree.children before after)
    {r : Nat} (hr : r < d.length) (hlt : before.length + 1 < r)
    (hout : ¬ d.Clears .whole (before.length + 1) r) (t : Tree) :
    (d.handleAt r).ident ∉
      idents ((⟨.document, d.tree.ident⟩ :: before) ++ (Branch.number d.nextIdent t).entries) := by
  have hlocated := w.located hr
  have hlast := w.last_of_stands hs
  simp only [Clears, not_and, Nat.not_le] at hout
  have hbehind := hout (Nat.le_of_lt hlt)
  have hrun : d.entries = [] ++ ((⟨.document, d.tree.ident⟩ :: before) ++
      (b.entries ++ (after ++ [⟨.finish, d.tree.finish⟩]))) := w.entries_of_stands hs
  rw [Branch.idents_append, List.mem_append, not_or]
  constructor
  · rw [← w.mem_run_iff hrun hlocated]
    simp only [List.length_nil, List.length_cons]
    omega
  · intro hmem
    have hfresh := Branch.forall_ident_numberAll d.nextIdent [t] _
      (by simpa [Branch.numberAll, entriesAll] using hmem)
    exact Nat.not_lt.mpr hfresh (w.ident_lt_of_locate? hlocated)

end Document

/-- A branch that is the same with some content holds it. -/
theorem Branch.holdsContent_of_withContent {b : Branch} {content : List Tree} {text : String}
    (h : b.erase.withContent content text = b.erase) : b.HoldsContent content text := by
  cases b with
  | element ident name attributes children finish =>
    exact (Tree.element.inj h).2.2.symm
  | leaf ident kind value => cases kind <;> cases h <;> rfl

namespace Mapping
open Work
variable {m : Mapping} {path : String} {items : List Item} {found : List Nat} {w w' : Workspace}

section
variable (hd : m.dispatch = .multiple) (hitems : ∀ item ∈ items, item.Sound)
  (hmany : 1 < items.length)
include hd hitems hmany

/-- A template grows when several copies come into the place of an empty target. -/
theorem weight_lt_of_serve {d : Document} {passed rest : List Nat} {p : Nat} (hw : d.WellFormed)
    (hpassed : d.Passed .whole w.template passed (p :: rest)) (hqueried : d.IsQueried p)
    (hempty : ¬ d.IsFilled p) (hout : ∀ r ∈ passed, ¬ d.Clears .whole r p)
    (h : outcome (m.serve path items (d.handleAt p)) w = (.ok (), w')) :
    weight w.template.nodes < weight w'.template.nodes := by
  have w₁ := hpassed.wellFormed
  have hne : items ≠ [] := List.length_pos_iff.mp (Nat.zero_lt_of_lt hmany)
  obtain ⟨p', hp'⟩ := Document.contains_iff.mp ((hpassed.contains_iff hw hqueried).mpr hout)
  have hcleared := clears_serve m path hitems w₁ hp' h
  simp only [serve, hd] at h
  obtain ⟨b', before', after', hs', -, hlocated'⟩ := exists_stands_of_multiply hne w₁ h
  obtain ⟨b, before, after, before₁, after₁, hs, rfl, hs₁, ht⟩ :=
    hpassed.exists_stands hw hqueried.1 hout hs' hlocated'
  obtain ⟨inserted, hheavy, htree⟩ := exists_inserted_of_multiply w₁ hs₁
    (ht ▸ w₁.locate?_of_stands hs₁) (by rw [ht]) (hw.exists_doctype_of_stands hs hempty) hne hitems h
  have hpos := hw.weight_pos_of_stands hs hqueried
  have hmore : 2 * weight b.erase.listing ≤ items.length * weight b.erase.listing :=
    Nat.mul_le_mul_right _ hmany
  rw [Document.nodes, Document.nodes, w₁.entries_of_stands hs₁,
    w₁.entries_of_rewrite hcleared.wellFormed hs₁ htree]
  simp only [List.map_append, weight_append, Branch.nodes_entries, Branch.nodes_entriesAll]
  omega

/-- Several copies in the places of all targets never add up to what was there. -/
theorem weight_lt_of_forM (hw : w.template.WellFormed) (hset : w.template.IsNodeSet found)
    (hapart : found.Pairwise fun q r => ¬ w.template.Clears .whole q r)
    (hempty : ∀ q ∈ found, ¬ w.template.IsFilled q) (hne : found ≠ [])
    (hdone : outcome ((found.map w.template.handleAt).forM (m.serve path items)) w = (.ok (), w')) :
    weight w.template.nodes < weight w'.template.nodes := by
  have hclears := @clears_serve m path items hitems
  rw [clearing_multiple hd] at hclears
  obtain ⟨-, hgrown⟩ := @passed_of_forM .whole _ w.template w w' hclears hw
    (fun passed u => (∀ q ∈ passed, q ∈ found) →
      weight w.template.nodes + passed.length ≤ weight u.template.nodes) [] found hset hapart
    (fun passed p rest u u' hset hpassed hout hgrown hserve hfound => by
      have hlt := weight_lt_of_serve hd hitems hmany hw hpassed (hset.2 p (by simp))
        (hempty p (hfound p (by simp))) hout hserve
      have hle := hgrown fun q hq => hfound q (by simp [hq])
      rw [List.length_append, List.length_singleton]
      omega) (.refl hw _ _) (fun _ => Nat.le_refl _) hdone
  have hlength := hgrown fun q hq => by simpa using hq
  have hpos : 0 < found.length := List.length_pos_iff.mpr hne
  rw [List.nil_append] at hlength
  omega

end

section
variable (hd : m.dispatch = .multiple) {item : Item} (hitem : item.Sound)
include hd hitem

/-- A repetition that succeeds has put a single copy into the place of its target. -/
theorem exists_renewed_of_serve {target : Handle} (hw : w.template.WellFormed)
    (h : outcome (m.serve path [item] target) w = (.ok (), w')) :
    ∃ b before after content, Stands b w.template.tree.children before after ∧
      target = ⟨w.template.id, b.ident⟩ ∧ List.Forall₂ Tree.DeclaredAs item.content content ∧
      w.template.Renewed w'.template b (b.erase.withContent content item.toText) := by
  simp only [serve, hd] at h
  obtain ⟨b, before, after, hs, ht, hp⟩ := exists_stands_of_multiply (List.cons_ne_nil item []) hw h
  obtain ⟨w'', content, h', hcontent, hrenewed⟩ := exists_multiply_single hw hs ht hitem path
  cases h'.symm.trans h
  exact ⟨b, before, after, content, hs, ht, hcontent, hrenewed⟩

/-- What stands in front of all targets stays as it is. -/
theorem prefix_of_forM {front : List Entry} {targets : List Handle}
    (htargets : ∀ target ∈ targets, target.ident ∉ idents front) (hw : w.template.WellFormed)
    (hfront : front <+: w.template.entries)
    (hdone : outcome (targets.forM (m.serve path [item])) w = (.ok (), w')) :
    w'.template.WellFormed ∧ front <+: w'.template.entries := by
  refine @of_forM Handle (m.serve path [item]) (fun _ u => u.template.WellFormed ∧
    front <+: u.template.entries) targets [] w w' ?step ⟨hw, hfront⟩ hdone
  rintro _ target htarget u u' ⟨hu, hfront⟩ hserve
  obtain ⟨b, before, after, content, hs, rfl, -, hrenewed⟩ := exists_renewed_of_serve hd hitem hu hserve
  have hentries := hu.entries_of_stands hs
  have hlength : front.length ≤ (⟨.document, u.template.tree.ident⟩ :: before : List Entry).length := by
    by_contra hlt
    obtain ⟨rest, hrest⟩ := hfront
    have hrun : u.template.entries = [] ++ (front ++ rest) := hrest.symm
    refine htargets _ htarget ((hu.mem_run_iff hrun (hu.locate?_of_stands hs)).mp ⟨Nat.zero_le _, ?_⟩)
    simpa using hlt
  refine ⟨hrenewed.wellFormed, ?_⟩
  rw [hu.entries_of_rewrite hrenewed.wellFormed hs hrenewed.tree]
  rw [hentries] at hfront
  exact (List.prefix_of_prefix_length_le hfront (List.prefix_append _ _) hlength).trans
    (List.prefix_append _ _)

/-- A template that stays the same with single copies in the places of its empty targets had the content
of the copies in all of them. -/
theorem settled_of_single {d : Document} (hordered : found.Pairwise (· < ·))
    (hapart : found.Pairwise fun q r => ¬ d.Clears .whole q r)
    (hfound : ∀ q ∈ found, d.IsQueried q ∧ ¬ d.IsFilled q) (hw : w.template.WellFormed)
    (hnodes : w.template.nodes = d.nodes) (hkept : ∀ q ∈ found, w.template.handleAt q = d.handleAt q)
    (hdone : outcome ((found.map d.handleAt).forM (m.serve path [item])) w = (.ok (), w'))
    (hlast : w'.template.nodes = d.nodes) : ∀ q ∈ found, m.Settled [item] d q := by
  induction found generalizing w with
  | nil => exact fun q hq => nomatch hq
  | cons q found ih =>
    obtain ⟨hbefore, hordered'⟩ := List.pairwise_cons.mp hordered
    obtain ⟨hout, hapart'⟩ := List.pairwise_cons.mp hapart
    obtain ⟨⟨hqueried, hempty⟩, hothers⟩ := List.forall_mem_cons.mp hfound
    obtain ⟨hhandle, hkept'⟩ := List.forall_mem_cons.mp hkept
    rw [← Document.isQueried_congr hnodes] at hqueried
    rw [← Document.isFilled_congr hnodes] at hempty
    rw [List.map_cons] at hdone
    change outcome (m.serve path [item] (d.handleAt q) >>= fun _ => List.forM _ _) w = _ at hdone
    obtain ⟨⟨⟩, w₁, hserve, hrest⟩ := bind_eq_ok_iff.mp hdone
    obtain ⟨b, before, after, content, hs, ht, hcontent, hrenewed⟩ :=
      exists_renewed_of_serve hd hitem hw hserve
    have hlocated := hw.located hqueried.1
    rw [hhandle, ht, hw.locate?_of_stands hs] at hlocated
    obtain rfl := Option.some.inj hlocated
    have happart : ∀ r ∈ found, ¬ w.template.Clears .whole (before.length + 1) r := fun r hr =>
      (Document.clears_congr hnodes .whole _ r).not.mpr (hout r hr)
    have hstart : (⟨.document, w.template.tree.ident⟩ :: before) ++ (Branch.number w.template.nextIdent
        (b.erase.withContent content item.toText)).entries <+: w₁.template.entries := by
      rw [hw.entries_of_rewrite hrenewed.wellFormed hs hrenewed.tree, ← List.append_assoc,
        Branch.entriesAll_singleton]
      exact List.prefix_append _ _
    -- What has come in for the target stays as it is, and so it is what the target was.
    have hsame : b.erase.withContent content item.toText = b.erase := by
      obtain ⟨w₂, rest, hfront⟩ := prefix_of_forM hd hitem (List.forall_mem_map.mpr fun r hr => by
        rw [← hkept' r hr]
        have hqueried := (Document.isQueried_congr hnodes r).mpr (hothers r hr).1
        exact hw.not_mem_front hs hqueried.1 (hbefore r hr) (happart r hr) _)
        hrenewed.wellFormed hstart hrest
      have hnew := w₂.treesAt_of_entries (hfront.symm.trans (List.append_assoc _ _ _))
      have hold := hw.treesAt_of_entries (hw.entries_of_stands hs)
      rw [Document.treesAt_congr (hlast.trans hnodes.symm), List.length_cons] at hnew
      rw [List.length_cons, hnew, List.singleton_inj] at hold
      exact (List.singleton_inj.mp (Branch.eraseAll_numberAll _ [_])).symm.trans hold
    have hholds := hw.holdsContent_of_stands hs |>.mpr (Branch.holdsContent_of_withContent hsame)
    rw [hw.holdsContent_iff_of_declaredAs hqueried.1 hempty hcontent] at hholds
    rw [hsame] at hrenewed
    have hunchanged := hrenewed.unchanged hw hs
    refine List.forall_mem_cons.mpr ⟨?_, ih hordered' hapart' hothers hunchanged.wellFormed
      (hunchanged.nodes_eq.trans hnodes) (fun r hr =>
        (hunchanged.handleAt_eq (happart r hr)).trans (hkept' r hr)) hrest⟩
    obtain ⟨node, rest, hb, hchild, hdocument⟩ := b.entries_head
    rw [← Document.settled_congr hnodes]
    simp only [Settled, hd]
    refine ⟨item, rfl, ?_, ?_, hholds⟩
    · rwa [hw.node_of_stands hs hb]
    · rwa [hw.node_of_stands hs hb]

end

/-- A template that stays the same when its outermost targets are served, all of them empty, has them
settled. -/
theorem settled_of_forM (hdispatch : m.dispatch ≠ .fetch) (hitems : ∀ item ∈ items, item.Sound)
    (hne : items ≠ []) (hw : w.template.WellFormed) (hset : w.template.IsNodeSet found)
    (hempty : ∀ q ∈ found, ¬ w.template.IsFilled q)
    (hdone : outcome (((found.filter (w.template.isOutermost m.clearing found)).map
      w.template.handleAt).forM (m.serve path items)) w = (.ok (), w'))
    (hnodes : w'.template.nodes = w.template.nodes) {q : Nat} (hq : q ∈ found)
    (houtermost : w.template.isOutermost m.clearing found q) : m.Settled items w.template q := by
  have hmem := List.mem_filter.mpr ⟨hq, houtermost⟩
  have hapart := hw.pairwise_outermost hset m.clearing
  have hset' : w.template.IsNodeSet (found.filter (w.template.isOutermost m.clearing found)) :=
    ⟨hset.1.filter _, fun r hr => hset.2 r (List.mem_filter.mp hr).1⟩
  have hempty' : ∀ r ∈ found.filter (w.template.isOutermost m.clearing found),
      ¬ w.template.IsFilled r := fun r hr => hempty r (List.mem_filter.mp hr).1
  cases hd : m.dispatch with
  | graft =>
    rw [clearing_graft hd] at hapart hset' hempty' hmem hdone
    exact settled_of_graft hd hitems hw hset' hapart hempty' hdone hnodes hmem
  | multiple =>
    rw [clearing_multiple hd] at hapart hset' hempty' hmem hdone
    obtain ⟨item, rfl⟩ | hmany : (∃ item, items = [item]) ∨ 1 < items.length := by
      rw [← List.length_eq_one_iff]
      have := List.length_pos_iff.mpr hne
      omega
    · exact settled_of_single hd (hitems item List.mem_cons_self) hset'.1 hapart
        (fun r hr => ⟨hset'.2 r hr, hempty' r hr⟩) hw rfl (fun _ _ => rfl) hdone hnodes q hmem
    · have hgrown := weight_lt_of_forM hd hitems hmany hw hset' hapart hempty'
        (List.ne_nil_of_mem hmem) hdone
      rw [hnodes] at hgrown
      exact absurd hgrown (Nat.lt_irrefl _)
  | fetch => exact absurd hd hdispatch

end Mapping
end MarkupGraft
