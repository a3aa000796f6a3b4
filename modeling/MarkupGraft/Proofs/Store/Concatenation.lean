import MarkupGraft.Proofs.Store.Joining
import MarkupGraft.Proofs.Store.Slot

/-!
Placing fragments joined and placing them one after the other. The joined fragment may declare its
bindings elsewhere, but what is read back of the markup has the same names.
-/

namespace MarkupGraft
open Branch (Plug numberAll eraseAll)
open MarkupGraft.Tree (Site BoundAll SettledAll LegibleLeaf listingAll normalizeAll rereadAll
  writeAll)

/-! Names without declarations -/

namespace Tree

/-- The attributes that declare no prefix. -/
def bareAttributes (attributes : List (Name × String)) : List (Name × String) :=
  attributes.filter fun a => a.1.declares?.isNone

mutual

/-- A tree without declarations. -/
def bare : Tree → Tree
  | .element name attributes children => .element name (bareAttributes attributes) (bareAll children)
  | tree => tree

def bareAll : List Tree → List Tree
  | [] => []
  | tree :: trees => bare tree :: bareAll trees

end

theorem bareAll_append (ts us : List Tree) : bareAll (ts ++ us) = bareAll ts ++ bareAll us := by
  induction ts with
  | nil => rfl
  | cons t ts ih => exact congrArg (_ :: ·) ih

theorem bareAll_prependText (value : String) (ts : List Tree) :
    bareAll (prependText value ts) = prependText value (bareAll ts) := by
  cases ts with
  | nil =>
    simp only [prependText, bareAll]
    split <;> rfl
  | cons t ts =>
    cases t with
    | text => rfl
    | _ =>
      simp only [prependText, bareAll, bare]
      split <;> rfl

/-- Declarations do not keep text from being joined. -/
theorem bareAll_normalizeAll (ts : List Tree) :
    bareAll (normalizeAll ts) = normalizeAll (bareAll ts) := by
  induction ts using forest_induction with
  | nil => rfl
  | element name attributes children ts ihc iht =>
    simp [normalizeAll, normalize, prependTree, bareAll, bare, ihc, iht]
  | text value ts ih =>
    simp [normalizeAll, normalize, prependTree, bareAll, bare, bareAll_prependText, ih]
  | comment _ ts ih | instruction _ ts ih | doctype _ ts ih => exact congrArg (_ :: ·) ih

private theorem bare_placed (scope target : Scope) (t : Tree) :
    (t.placed scope target).bare = t.bare := by
  cases t with
  | element name attributes children =>
    have hnone : ((Tree.element name attributes children).declared scope target).filter
        (fun a => a.1.declares?.isNone) = [] := by
      rw [List.filter_eq_nil_iff]
      intro a ha
      have := Placement.declares?_of_mem_declared scope target ha
      simpa using Option.isSome_iff_ne_none.mp this
    rw [placed, withDeclarations, bare, bare, bareAttributes, List.filter_append, hnone]
    rfl
  | _ => rfl

/-- Where trees are placed they take nothing but declarations. -/
theorem bareAll_placed (scope target : Scope) (ts : List Tree) :
    bareAll (ts.map (Tree.placed scope target)) = bareAll ts := by
  induction ts with
  | nil => rfl
  | cons t ts ih => rw [List.map_cons, bareAll, bareAll, bare_placed, ih]

/-- What is read around a place does not depend on what stands there. -/
theorem Site.exists_read (site : Site) (s : Scope) : ∃ around : Site, ∀ ts,
    bareAll (rereadAll s (site.fill ts)) = around.fill (bareAll (rereadAll (site.scope s) ts)) := by
  induction site generalizing s with
  | here before after =>
    refine ⟨.here (bareAll (rereadAll s before)) (bareAll (rereadAll s after)), fun ts => ?_⟩
    simp [Site.fill, Site.scope, rereadAll_append, bareAll_append]
  | inside before name attributes site after ih =>
    obtain ⟨around, hread⟩ := ih (declare s attributes)
    refine ⟨.inside (bareAll (rereadAll s before)) (name.reread (declare s attributes) .element)
      (bareAttributes attributes) around (bareAll (rereadAll s after)), fun ts => ?_⟩
    simp [Site.fill, Site.scope, rereadAll_append, bareAll_append, rereadAll, reread, bareAll, bare,
      hread]

end Tree

namespace Branch

theorem ident_number (next : Nat) (t : Tree) : (number next t).ident = next := by
  cases t <;> rfl

/-- Rewriting the first of numbered branches leaves the others as they are. -/
theorem rewriteAll_numberAll (r : Rewriting) (next : Nat) (t : Tree) (ts : List Tree) :
    rewriteAll r next (numberAll next (t :: ts)) =
      r.inBranch (number next t) ++ numberAll (next + t.listing.length) ts := by
  have hpos : 0 < t.listing.length := by cases t <;> simp [Tree.listing]
  have hrest : next ∉ idents (entriesAll (numberAll (next + t.listing.length) ts)) := by
    rw [entries_numberAll, idents, Document.idents_identify, List.mem_range'_1]
    omega
  rw [numberAll, rewriteAll, if_pos (ident_number next t), rewriteAll_of_not_mem _ hrest]

end Branch

namespace Document
variable {d d' : Document}

/-! Grafts at a place -/

/-- Whether a document is another one with branches at a place. -/
structure Grafted (d d' : Document) (plug : Plug (d.nextIdent ≤ ·)) (bs : List Branch) : Prop where
  wellFormed : d'.WellFormed
  children : d'.tree.children = plug.plug bs
  id : d'.id = d.id
  mode : d'.mode = d.mode
  inherited : d'.inherited = d.inherited

namespace Grafted
variable {plug : Plug (d.nextIdent ≤ ·)} {bs : List Branch} (h : Grafted d d' plug bs)
include h

theorem trees_eq : d'.trees = plug.site.fill (eraseAll bs) := by
  rw [trees, h.wellFormed.forest_nodes, h.children, plug.erase]

theorem scopeAt_root (w : d.WellFormed) : d'.scopeAt 0 = d.scopeAt 0 := by
  rw [h.wellFormed.scopeAt_root, h.inherited, w.scopeAt_root]

end Grafted

/-- A graft puts the trees of a fragment, as they are placed, where its edit leads. -/
theorem WellFormed.exists_grafted (w : d.WellFormed) {e : Edit Unit} (hc : e.content?.isSome)
    {p : Nat} (hp : d.locate? e.target = some p) (hs : e.supports (d.node p)) :
    ∃ plug : Plug (d.nextIdent ≤ ·), (∃ old, d.tree.children = plug.plug old) ∧
      plug.site.scope (d.scopeAt 0) = d.scopeAt (e.host d p) ∧
      ∀ f : Fragment, f.Complete → ∃ d', d.edit (e.map fun _ => f) = .ok d' ∧
        Grafted d d' plug (numberAll d.nextIdent (f.treesUnder (d.scopeAt (e.host d p)))) := by
  obtain ⟨plug, hold, hscope, hedit⟩ := w.exists_plug hc hp hs
  refine ⟨plug, hold, hscope, fun f hf => ?_⟩
  have hcontent : ∀ g ∈ (e.map fun _ => f).content?, g.Complete := by
    intro g hg
    rw [Edit.content?_map, Option.mem_def, Option.map_eq_some_iff] at hg
    obtain ⟨-, -, rfl⟩ := hg
    exact hf
  have hp' : d.locate? (e.map fun _ => f).target = some p := by rw [Edit.target_map, hp]
  have hs' : (e.map fun _ => f).supports (d.node p) := by rwa [Edit.supports_map]
  obtain ⟨w', htree⟩ := w.edited hcontent hp' hs'
  obtain ⟨hid, hmode, hinherited⟩ := d.edited_kept (e.map fun _ => f) p
  refine ⟨_, (edit_eq_ok_iff _).mpr ⟨p, hp', hs', rfl⟩, w', ?_, hid, hmode, hinherited⟩
  rw [htree, Edit.map_map, Edit.host_map]
  exact hedit _ _

section
variable (w : d.WellFormed) {plug : Plug (d.nextIdent ≤ ·)} {t : Tree} {ts : List Tree}
  (h : Grafted d d' plug (numberAll d.nextIdent (t :: ts)))
include w h

/-- The first node of a graft has the next identity, and is found where the graft is. -/
private theorem Grafted.exists_first : ∃ p, d'.locate? ⟨d.id, d.nextIdent⟩ = some p ∧
    ((d'.node p).isChild ∧ d'.node p ≠ .document) ∧
      d'.scopeAt ((d'.parent? p).getD 0) = plug.site.scope (d.scopeAt 0) := by
  obtain ⟨node, hnode, hsetting⟩ :=
    Branch.exists_setting (plug.site.scope (d.scopeAt 0)) (Branch.number d.nextIdent t)
  have hmem := plug.settings (d.scopeAt 0) (numberAll d.nextIdent (t :: ts))
    (List.mem_append_left _ hsetting)
  rw [← h.children, ← h.scopeAt_root w] at hmem
  obtain ⟨p, hp, hat, haround⟩ :=
    h.wellFormed.exists_locate (List.mem_cons_of_mem _ (List.mem_append_left _ hmem))
  refine ⟨p, ?_, hat ▸ hnode, haround.trans (by rw [h.scopeAt_root w])⟩
  rw [← h.id, ← hp, Branch.ident_number]

/-- In front of the first node of a graft more trees can come. -/
theorem Grafted.insertBefore {f : Fragment} (hf : f.Complete) :
    ∃ d'' bs, d'.insertBefore ⟨d.id, d.nextIdent⟩ f = .ok d'' ∧ Grafted d d'' plug bs ∧
      eraseAll bs = f.treesUnder (plug.site.scope (d.scopeAt 0)) ++ t :: ts := by
  have w' := h.wellFormed
  obtain ⟨p, hp, ⟨hchild, hdocument⟩, haround⟩ := h.exists_first w
  let e : Edit Fragment := .insertBefore ⟨d.id, d.nextIdent⟩ f
  have hs : e.supports (d'.node p) := by simp [e, Edit.supports, hchild, hdocument]
  obtain ⟨w'', htree⟩ := w'.edited (e := e) (by rintro _ ⟨⟩; exact hf) hp hs
  obtain ⟨hid, hmode, hinherited⟩ := d'.edited_kept e p
  have hchildren : (d'.edited e p).tree.children = plug.plug
      (numberAll d'.nextIdent (f.treesUnder (plug.site.scope (d.scopeAt 0))) ++
        numberAll d.nextIdent (t :: ts)) := by
    rw [htree, ← haround]
    change Branch.rewriteAll _ d.nextIdent d'.tree.children = _
    rw [h.children, plug.rewrite _ (Nat.le_refl _), Branch.rewriteAll_numberAll, List.append_assoc]
    rfl
  refine ⟨_, _, (edit_eq_ok_iff _).mpr ⟨p, hp, hs, rfl⟩, ⟨w'', hchildren, hid.trans h.id,
    hmode.trans h.mode, hinherited.trans h.inherited⟩, ?_⟩
  rw [Branch.eraseAll_append, Branch.eraseAll_numberAll, Branch.eraseAll_numberAll]

end

/-! Reading back -/

/-- Whether the names and values of a document are read back from its markup. Names may be led
nowhere, but not in a detached copy, which is written with declarations that its names need. -/
structure Legible (d : Document) : Prop where
  names : SettledAll d.mode (d.scopeAt 0) d.trees
  detached : ¬d.inherited.isEmpty → BoundAll (d.scopeAt 0) d.trees
  inherited : d.inherited.Sound
  leaves : ∀ n ∈ listingAll d.trees, LegibleLeaf n

/-- What is bound is legible. -/
theorem Bound.isLegible (h : d.Bound) (w : d.WellFormed) : d.Legible := by
  have hb : BoundAll (d.scopeAt 0) d.trees :=
    (Tree.boundAll_iff _).mpr ⟨h.proper, (w.qualified_iff.mp h.qualified).1⟩
  refine ⟨(Tree.settledAll_of_bound (w.sound_scopeAt_root h.inherited) hb).1, fun _ => hb,
    h.inherited, fun n hn => h.legible n ?_⟩
  rw [w.nodes_eq]
  simp [hn]

/-- Whether nothing but its names and values can keep a document from being read back: its markup
does not begin with a byte-order mark, and in HTML its elements are what their tags tell. -/
structure Unhindered (d : Document) : Prop where
  unmarked : ¬Markup.Reader.startsWithMark d.toBytes
  shaped : d.mode = .html → Tree.ShapedAll .base (d.contents.treesUnder .base)

/-- A document is read back with its names as they are read where they stand. -/
theorem Legible.reread (h : d.Legible) (w : d.WellFormed) (hu : d.Unhindered) (id : Nat) :
    ∃ d', parse id d.mode d.toBytes = .ok d' ∧
      Tree.bareAll d'.trees = normalizeAll (Tree.bareAll (rereadAll (d.scopeAt 0) d.trees)) := by
  have hplaced : d.contents.treesUnder .base = d.trees.map (Tree.placed d.inherited .base) := by
    rw [Fragment.treesUnder, w.trees_contents]
    rfl
  have hwritten : d.toBytes =
      Text.encode (writeAll d.mode false .base (d.contents.treesUnder .base)) := by
    rw [toBytes, w.markup_eq]
  have hleaves : ∀ n ∈ listingAll (d.contents.treesUnder .base), LegibleLeaf n := by
    rw [hplaced]
    exact Tree.legibleLeaf_placed h.leaves
  have hnames : SettledAll d.mode .base (d.contents.treesUnder .base) ∧
      Tree.bareAll (rereadAll .base (d.contents.treesUnder .base)) =
        Tree.bareAll (rereadAll (d.scopeAt 0) d.trees) := by
    rw [hplaced]
    by_cases he : d.inherited.isEmpty
    · have hroot : d.scopeAt 0 = .base := by
        rw [w.scopeAt_root, Scope.override, List.isEmpty_iff.mp he]
        rfl
      rw [List.map_id'' (Tree.placed_of_isEmpty he), hroot, ← hroot]
      exact ⟨h.names, rfl⟩
    · have hb := h.detached he
      obtain ⟨-, hsame⟩ :=
        @Tree.settledAll_of_bound d.mode _ (w.sound_scopeAt_root h.inherited) _ hb
      rw [w.scopeAt_root] at hb
      obtain ⟨hsettled, hsame'⟩ := @Tree.settledAll_of_bound d.mode _ Scope.sound_base _
        (Tree.boundAll_placed h.inherited hb)
      exact ⟨hsettled, by rw [hsame', hsame, Tree.bareAll_placed]⟩
  obtain ⟨d', hd', htrees, -⟩ :=
    Tree.parse_writeAll ⟨hnames.1, hu.shaped⟩ hleaves hwritten hu.unmarked id
  exact ⟨d', hd', by rw [htrees, Tree.bareAll_normalizeAll, hnames.2]⟩

section
variable (h : d.Legible) (w : d.WellFormed) {plug : Plug (d.nextIdent ≤ ·)} {old : List Tree}
  (hold : d.trees = plug.site.fill old)
include h w hold

/-- In a legible document what is in scope at a place can be declared. -/
theorem Legible.sound_site : (plug.site.scope (d.scopeAt 0)).Sound := by
  have hsettled : Tree.Hereditary fun s ts => s.Sound ∧ SettledAll d.mode s ts :=
    (Tree.hereditary_settledAll d.mode).sound fun h => h.1.2.1.declared
  have hall := And.intro (w.sound_scopeAt_root h.inherited) h.names
  rw [hold] at hall
  exact (hsettled.of_fill hall).1

/-- Where bound trees come into a legible document it stays legible. -/
theorem Legible.grafted {bs : List Branch} (hd' : Grafted d d' plug bs)
    (hbound : BoundAll (plug.site.scope (d.scopeAt 0)) (eraseAll bs))
    (hl : ∀ n ∈ listingAll (eraseAll bs), LegibleLeaf n) : d'.Legible := by
  obtain ⟨hsettled, -⟩ := @Tree.settledAll_of_bound d.mode _ (h.sound_site w hold) _ hbound
  constructor
  · rw [hd'.mode, hd'.scopeAt_root w, hd'.trees_eq]
    exact (Tree.hereditary_settledAll d.mode).fill (hold ▸ h.names) hsettled
  · rw [hd'.inherited, hd'.scopeAt_root w, hd'.trees_eq]
    exact fun he => Tree.hereditary_boundAll.fill (hold ▸ h.detached he) hbound
  · rw [hd'.inherited]
    exact h.inherited
  · rw [hd'.trees_eq]
    exact (Tree.hereditary_listingAll LegibleLeaf).fill (s := .base) (hold ▸ h.leaves) hl

/-- Bound trees that come into a legible document are read back with their names, among what was
there. -/
theorem Legible.exists_reread : ∃ around : Site, ∀ {d' : Document} {bs : List Branch}
    {us : List Tree}, Grafted d d' plug bs → eraseAll bs = us →
    BoundAll (plug.site.scope (d.scopeAt 0)) us → (∀ n ∈ listingAll us, LegibleLeaf n) →
    d'.Unhindered → ∀ id, ∃ r, parse id d.mode d'.toBytes = .ok r ∧
      Tree.bareAll r.trees = normalizeAll (around.fill (Tree.bareAll us)) := by
  obtain ⟨around, hread⟩ := plug.site.exists_read (d.scopeAt 0)
  refine ⟨around, ?_⟩
  rintro d' bs _ hd' rfl hbound hl hu id
  obtain ⟨r, hr, hsame⟩ := (h.grafted w hold hd' hbound hl).reread hd'.wellFormed hu id
  obtain ⟨-, hkept⟩ := @Tree.settledAll_of_bound d.mode _ (h.sound_site w hold) _ hbound
  rw [hd'.mode] at hr
  exact ⟨r, hr, by rw [hsame, hd'.scopeAt_root w, hd'.trees_eq, hread, hkept]⟩

end

/-! Joined and apart -/

/-- Grafts two fragments one after the other: the second as the edit says, and the first in front of
it. -/
def editApart (d : Document) (f g : Fragment) (e : Edit Unit) : Except StoreError Document :=
  if g.isEmpty then d.edit (e.map fun _ => f)
  else do
    let d' ← d.edit (e.map fun _ => g)
    d'.insertBefore ⟨d.id, d.nextIdent⟩ f

/-- Grafted one after the other, two fragments come to the place as they are placed one by one. -/
private theorem WellFormed.exists_apart (w : d.WellFormed) {e : Edit Unit}
    {plug : Plug (d.nextIdent ≤ ·)} (hedit : ∀ f : Fragment, f.Complete →
      ∃ d', d.edit (e.map fun _ => f) = .ok d' ∧ Grafted d d' plug
        (numberAll d.nextIdent (f.treesUnder (plug.site.scope (d.scopeAt 0)))))
    {f g : Fragment} (hf : f.Complete) (hg : g.Complete) :
    ∃ d' bs, d.editApart f g e = .ok d' ∧ Grafted d d' plug bs ∧
      eraseAll bs = f.treesUnder (plug.site.scope (d.scopeAt 0)) ++
        g.treesUnder (plug.site.scope (d.scopeAt 0)) := by
  cases htrees : g.treesUnder (plug.site.scope (d.scopeAt 0)) with
  | nil =>
    have hempty : g.isEmpty := by
      rw [Fragment.isEmpty, hg.nodes_eq, List.map_eq_nil_iff.mp htrees]
      rfl
    obtain ⟨d', hd', hgrafted⟩ := hedit f hf
    refine ⟨d', _, ?_, hgrafted, ?_⟩
    · rw [editApart, if_pos hempty, hd']
    · rw [Branch.eraseAll_numberAll, List.append_nil]
  | cons t ts =>
    have hempty : ¬g.isEmpty := by
      intro he
      have hnil : g.trees = [] := by
        rw [Fragment.trees, List.isEmpty_iff.mp he]
        rfl
      rw [Fragment.treesUnder, hnil] at htrees
      cases htrees
    obtain ⟨d', hd', hgrafted⟩ := hedit g hg
    rw [htrees] at hgrafted
    obtain ⟨d'', bs, hd'', hgrafted', htrees'⟩ := hgrafted.insertBefore w hf
    refine ⟨d'', bs, ?_, hgrafted', htrees'⟩
    rw [editApart, if_neg hempty, hd']
    exact hd''

/-- Whether documents are read back alike, with the names of the given trees at one place. -/
def RereadAlike (mode : Markup.Mode) (ts : List Tree) (documents : List Document) : Prop :=
  ∃ around : Site, ∀ d ∈ documents, d.Unhindered → ∀ id, ∃ d', parse id mode d.toBytes = .ok d' ∧
    Tree.bareAll d'.trees = normalizeAll (around.fill (Tree.bareAll ts))

/-- Bound fragments, none of whose bindings is lost when they are joined, are read back with the names
they have, whether they are grafted joined or one after the other. -/
theorem Legible.graft_append (h : d.Legible) (w : d.WellFormed) {f g : Fragment} (hf : f.Bound)
    (hg : g.Bound) (hc : f.Compatible g) {e : Edit Unit} (hcontent : e.content?.isSome) {p : Nat}
    (hp : d.locate? e.target = some p) (hs : e.supports (d.node p))
    (hxml : (d.scopeAt (e.host d p)).get? "xml" = some xmlNamespace) :
    ∃ joined apart, d.edit (e.map fun _ => f ++ g) = .ok joined ∧ d.editApart f g e = .ok apart ∧
      RereadAlike d.mode (f.trees ++ g.trees) [joined, apart] := by
  obtain ⟨plug, ⟨old, hold⟩, hscope, hedit⟩ := w.exists_grafted hcontent hp hs
  rw [← hscope] at hxml hedit
  have htrees : d.trees = plug.site.fill (eraseAll old) := by
    rw [trees, w.forest_nodes, hold, plug.erase]
  have hfg := hf.append hg hc
  obtain ⟨joined, hjoined, hgraftedJoined⟩ := hedit (f ++ g) hfg.complete
  obtain ⟨apart, bs, hapart, hgraftedApart, herase⟩ := w.exists_apart hedit hf.complete hg.complete
  obtain ⟨around, hread⟩ := h.exists_reread w htrees
  refine ⟨joined, apart, hjoined, hapart, around,
    List.forall_mem_cons.mpr ⟨fun hu id => ?_, List.forall_mem_singleton.mpr fun hu id => ?_⟩⟩
  · obtain ⟨r, hr, hsame⟩ := hread hgraftedJoined (Branch.eraseAll_numberAll _ _)
      (hfg.boundAll_treesUnder hxml) (hfg.legible_treesUnder _) hu id
    refine ⟨r, hr, ?_⟩
    rw [hsame, Fragment.treesUnder, Tree.bareAll_placed, hf.complete.trees_append hg.complete]
  · have hbound := Tree.hereditary_boundAll.append.mpr
      ⟨hf.boundAll_treesUnder hxml, hg.boundAll_treesUnder hxml⟩
    have hlegible := (Tree.hereditary_listingAll LegibleLeaf).append (s := .base).mpr
      ⟨hf.legible_treesUnder (plug.site.scope (d.scopeAt 0)),
        hg.legible_treesUnder (plug.site.scope (d.scopeAt 0))⟩
    obtain ⟨r, hr, hsame⟩ := hread hgraftedApart herase hbound hlegible hu id
    refine ⟨r, hr, ?_⟩
    rw [hsame, Tree.bareAll_append, Tree.bareAll_append, Fragment.treesUnder, Fragment.treesUnder,
      Tree.bareAll_placed, Tree.bareAll_placed]

/-- What is cut out of bound documents and joined without losing a binding is read back with the names
it had, wherever it is grafted, and so it is when the parts are grafted one after the other. -/
theorem joined_keeps_names {s₁ s₂ : Document} (w₁ : s₁.WellFormed) (w₂ : s₂.WellFormed)
    (h₁ : s₁.Bound) (h₂ : s₂.Bound) {n₁ n₂ : Handle} {q₁ q₂ : Nat}
    (hn₁ : s₁.locate? n₁ = some q₁) (hn₂ : s₂.locate? n₂ = some q₂)
    (hq₁ : s₁.node q₁ ≠ .finish) (hq₂ : s₂.node q₂ ≠ .finish) :
    ∃ f g, s₁.extract n₁ = .ok f ∧ s₂.extract n₂ = .ok g ∧
      (f.Compatible g → ∀ d : Document, d.WellFormed → d.Legible → ∀ (e : Edit Unit) (p : Nat),
        e.content?.isSome → d.locate? e.target = some p → e.supports (d.node p) →
        (d.scopeAt (e.host d p)).get? "xml" = some xmlNamespace →
          ∃ joined apart, d.edit (e.map fun _ => f ++ g) = .ok joined ∧
            d.editApart f g e = .ok apart ∧
            RereadAlike d.mode (s₁.treesAt q₁ ++ s₂.treesAt q₂) [joined, apart]) := by
  obtain ⟨f, hf, hboundf, htreesf⟩ := h₁.extract w₁ hn₁ hq₁
  obtain ⟨g, hg, hboundg, htreesg⟩ := h₂.extract w₂ hn₂ hq₂
  rw [← htreesf, ← htreesg]
  exact ⟨f, g, hf, hg, fun hc d w h e p hcontent hp hs hxml =>
    h.graft_append w hboundf hboundg hc hcontent hp hs hxml⟩

/-- An element whose prefix its parent declares. -/
def declaring (id : Nat) (mark space base : String) : Document :=
  ofTrees id [.element (.plain "a") [(⟨"xmlns", mark⟩, space)] [.element ⟨space, base⟩ [] []]]

private theorem bound_declaring (id : Nat) {mark space base : String} (hmark : Name.isColonFree mark)
    (hreserved : mark ∉ reservedMarks) (hspace : space ≠ "" ∧ space ≠ "xmlns")
    (hbase : Name.isColonFree base) :
    (declaring id mark space base).WellFormed ∧ (declaring id mark space base).Bound := by
  have hdeclares : (⟨"xmlns", mark⟩ : Name).declares? = some mark := by simp [Name.declares?]
  have hinner : Tree.declare .base [(⟨"xmlns", mark⟩, space)] = Scope.base.insert mark space := by
    simp [Tree.declare, hdeclares]
  have hne : "" ≠ mark := by
    rintro rfl
    cases hmark
  have hget : (Scope.base.insert mark space).get? mark = some space := by simp
  have hattributes : Tree.AttributesBound (Scope.base.insert mark space)
      [(⟨"xmlns", mark⟩, space)] := by
    refine ⟨?_, by simp [hdeclares], by simp⟩
    simp only [List.mem_singleton, forall_eq, hdeclares, Option.some.injEq, forall_eq']
    exact ⟨.inr (isNamePart_of_isColonFree hmark), fun he => hreserved (by simp [reservedMarks, he]),
      hspace.2⟩
  apply bound_ofTrees
  · refine ⟨⟨?_, ?_, ⟨?_, ?_, trivial⟩, trivial⟩, trivial⟩
    · refine ⟨isNamePart_of_isColonFree (by decide), ?_⟩
      simp [hinner, Name.plain, hne, Scope.get?_base]
    · rw [hinner]
      exact hattributes
    · refine ⟨isNamePart_of_isColonFree hbase, ?_⟩
      rw [if_neg hspace.1, hinner]
      exact ⟨mark, hget⟩
    · exact ⟨by simp, by simp, by simp⟩
  · simp [listingAll, Tree.listing, Tree.attributeNodes, Node.Unreserved, hdeclares, hreserved]
  · simp [listingAll, Tree.listing, Tree.attributeNodes, LegibleLeaf]

/-- An empty element, which content can come into. -/
def vacant : Document := ofTrees 1 [.element (.plain "t") [] []]

private theorem bound_vacant : vacant.WellFormed ∧ vacant.Bound := by
  apply bound_ofTrees
  · exact ⟨⟨⟨isNamePart_of_isColonFree (by decide), rfl⟩, ⟨by simp, by simp, by simp⟩, trivial⟩,
      trivial⟩
  · simp [listingAll, Tree.listing, Tree.attributeNodes, Node.Unreserved]
  · simp [listingAll, Tree.listing, Tree.attributeNodes, LegibleLeaf]

/-- What becomes of a document where copies of two nodes are grafted joined, and one after the
other. -/
def grafts (s₁ s₂ d : Document) (n₁ n₂ : Handle) (e : Edit Unit) : Option (Document × Document) := do
  let f ← (s₁.extract n₁).toOption
  let g ← (s₂.extract n₂).toOption
  let joined ← (d.edit (e.map fun _ => f ++ g)).toOption
  let apart ← (d.editApart f g e).toOption
  return (joined, apart)

private theorem grafts_eq_some {s₁ s₂ d joined apart : Document} {n₁ n₂ : Handle} {e : Edit Unit}
    {f g : Fragment} (hf : s₁.extract n₁ = .ok f) (hg : s₂.extract n₂ = .ok g)
    (hjoined : d.edit (e.map fun _ => f ++ g) = .ok joined) (hapart : d.editApart f g e = .ok apart) :
    grafts s₁ s₂ d n₁ n₂ e = some (joined, apart) := by
  simp [grafts, hf, hg, hjoined, hapart, Except.toOption]

/-- Two prefixes of one namespace are joined into one binding more than each element needs. -/
theorem joined_keeps_names_declaring :
    ∃ joined apart r r', grafts (declaring 0 "p" "urn:1" "x") (declaring 2 "q" "urn:1" "y")
        vacant ⟨0, 3⟩ ⟨2, 3⟩ (.replaceChildren ⟨1, 1⟩ ()) = some (joined, apart) ∧
      joined.markup ≠ apart.markup ∧ parse 3 .xml joined.toBytes = .ok r ∧
      parse 3 .xml apart.toBytes = .ok r' ∧ Tree.bareAll r.trees = Tree.bareAll r'.trees := by
  obtain ⟨w₁, h₁⟩ :=
    @bound_declaring 0 "p" "urn:1" "x" (by decide) (by decide) (by decide) (by decide)
  obtain ⟨w₂, h₂⟩ :=
    @bound_declaring 2 "q" "urn:1" "y" (by decide) (by decide) (by decide) (by decide)
  obtain ⟨w, h⟩ := bound_vacant
  obtain ⟨f, g, hf, hg, hgraft⟩ :=
    @joined_keeps_names _ _ w₁ w₂ h₁ h₂ ⟨0, 3⟩ ⟨2, 3⟩ 3 3 rfl rfl (by decide) (by decide)
  have hfscope : ((declaring 0 "p" "urn:1" "x").extract ⟨0, 3⟩).toOption.map
      (fun f => f.scope.bindings) = some [("p", "urn:1")] := by decide +kernel
  have hgscope : ((declaring 2 "q" "urn:1" "y").extract ⟨2, 3⟩).toOption.map
      (fun g => g.scope.bindings) = some [("q", "urn:1")] := by decide +kernel
  rw [hf] at hfscope
  rw [hg] at hgscope
  have hfget (mark : String) : f.scope.get? mark = [("p", "urn:1")].lookup mark :=
    congrArg (List.lookup mark) (Option.some.inj hfscope)
  have hgget (mark : String) : g.scope.get? mark = [("q", "urn:1")].lookup mark :=
    congrArg (List.lookup mark) (Option.some.inj hgscope)
  have hc : f.Compatible g := by
    constructor
    · intro mark space other h _ ho
      rw [hgget] at h
      rw [hfget] at ho
      simp only [List.lookup_cons, List.lookup_nil] at h ho
      split at h
      · cases h
        split at ho
        · cases ho
          rfl
        · cases ho
      · cases h
    · exact fun _ _ => by rw [hgget]; rfl
    · exact fun _ _ => by rw [hfget]; rfl
  obtain ⟨joined, apart, hjoined, hapart, around, hread⟩ :=
    hgraft hc vacant w (h.isLegible w) (.replaceChildren ⟨1, 1⟩ ()) 1 rfl rfl rfl
      (by decide +kernel)
  have hgrafts := grafts_eq_some hf hg hjoined hapart
  have hmarkup : (grafts (declaring 0 "p" "urn:1" "x") (declaring 2 "q" "urn:1" "y") vacant
      ⟨0, 3⟩ ⟨2, 3⟩ (.replaceChildren ⟨1, 1⟩ ())).map
        (fun x => (x.1.mode, x.1.markup, x.2.mode, x.2.markup)) =
      some (.xml, "<t><p:x xmlns:p=\"urn:1\" xmlns:q=\"urn:1\"></p:x>" ++
          "<p:y xmlns:p=\"urn:1\" xmlns:q=\"urn:1\"></p:y></t>",
        .xml, "<t><p:x xmlns:p=\"urn:1\"></p:x><q:y xmlns:q=\"urn:1\"></q:y></t>") := by
    decide +kernel
  rw [hgrafts, Option.map_some, Option.some.injEq, Prod.mk.injEq, Prod.mk.injEq, Prod.mk.injEq]
    at hmarkup
  obtain ⟨hmode, hjoined, hmode', hapart⟩ := hmarkup
  obtain ⟨r, hr, hsame⟩ := hread joined (by simp)
    ⟨by rw [toBytes, hjoined]; decide +kernel, by rw [hmode]; nofun⟩ 3
  obtain ⟨r', hr', hsame'⟩ := hread apart (by simp)
    ⟨by rw [toBytes, hapart]; decide +kernel, by rw [hmode']; nofun⟩ 3
  refine ⟨joined, apart, r, r', hgrafts, ?_, hr, hr', hsame.trans hsame'.symm⟩
  rw [hjoined, hapart]
  decide

/-- The nodes that are read back where copies of two nodes have been grafted joined, and one after the
other. -/
def nodesReread (s₁ s₂ d : Document) (n₁ n₂ : Handle) (e : Edit Unit) :
    Option (List Node × List Node) := do
  let (joined, apart) ← grafts s₁ s₂ d n₁ n₂ e
  let r ← (parse 3 d.mode joined.toBytes).toOption
  let r' ← (parse 3 d.mode apart.toBytes).toOption
  return (r.nodes, r'.nodes)

/-- Where both parts use one prefix for different namespaces, the second part loses its own. -/
theorem joined_loses_rebound :
    ((declaring 0 "p" "urn:1" "x").Bound ∧ (declaring 2 "p" "urn:2" "y").Bound ∧ vacant.Bound) ∧
      nodesReread (declaring 0 "p" "urn:1" "x") (declaring 2 "p" "urn:2" "y") vacant ⟨0, 3⟩ ⟨2, 3⟩
          (.replaceChildren ⟨1, 1⟩ ()) =
        some
          ([.document, .element (.plain "t"), .element ⟨"urn:1", "x"⟩,
              .attribute ⟨"xmlns", "p"⟩ "urn:1", .finish, .element (.plain "y"), .finish, .finish,
              .finish],
            [.document, .element (.plain "t"), .element ⟨"urn:1", "x"⟩,
              .attribute ⟨"xmlns", "p"⟩ "urn:1", .finish, .element ⟨"urn:2", "y"⟩,
              .attribute ⟨"xmlns", "p"⟩ "urn:2", .finish, .finish, .finish]) := by
  refine ⟨⟨?_, ?_, bound_vacant.2⟩, by decide +kernel⟩
  · exact (bound_declaring 0 (by decide) (by decide) (by decide) (by decide)).2
  · exact (bound_declaring 2 (by decide) (by decide) (by decide) (by decide)).2

end Document
end MarkupGraft
