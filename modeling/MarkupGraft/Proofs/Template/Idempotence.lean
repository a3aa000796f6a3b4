import MarkupGraft.Proofs.Template.Fixed

/-!
Running a mapping for empty targets once more. A run leaves a template as it is just when one of the
targets is filled or all outermost ones are settled; and what a run has served is filled or settled
afterwards. So a second run has nothing to do where it comes to what the first one has served, unless
there are several items and the copies for them are empty: those are repeated again.
-/

namespace MarkupGraft

/-- Whether a node of a template is one that a mapping has served, beginning with another template: a
target that it has put its selection into, or a copy that it has put into the place of a target. -/
def Mapping.Served (m : Mapping) (template : Document) (found : List Nat) (once : Document)
    (q : Nat) : Prop :=
  match m.dispatch with
  | .graft => ∃ p ∈ found, once.handleAt q = template.handleAt p
  | .multiple => ¬ template.contains (once.handleAt q) ∧
    ∃ p < once.length, template.contains (once.handleAt p) ∧ q ∈ once.children p
  | .fetch => False

/-- No empty node is around another one that queries meet. -/
theorem Document.WellFormed.isOutermost_of_unfilled {d : Document} (w : d.WellFormed)
    {found : List Nat} (hset : d.IsNodeSet found) (hempty : ∀ q ∈ found, ¬ d.IsFilled q) {q : Nat}
    (hq : q ∈ found) : d.isOutermost .content found q := by
  refine List.all_eq_true.mpr fun r hr => ?_
  rw [decide_eq_true_eq]
  intro hfound
  have hr' := (w.mem_around_iff (hset.2 r hfound).1 (hset.2 q hq)).mp hr
  exact w.not_clears_of_unfilled (hset.2 r hfound).1 (hempty r hfound) (hset.2 q hq) hr'.2

namespace Mapping
open Work
variable {m : Mapping} {env : Environment} {f : Frame} {w w' : Workspace} {node : Handle} {p : Nat}
  {target : Query} {found : List Nat} {fills : Bool} {body : Body}

/-- A mapping for empty targets can only succeed if it can look for them. -/
theorem exists_select_of_perform (honly : m.onlyIfEmpty) (htarget : m.target? = some target)
    (hp : w.template.locate? node = some p)
    (h : outcome (m.perform env fills body f node) w = (.ok (), w')) :
    ∃ found, target.select w.template.view p = .ok found := by
  cases hfound : target.select w.template.view p with
  | ok found => exact ⟨found, rfl⟩
  | error e =>
    rw [perform, honly, htarget] at h
    dsimp only at h
    obtain ⟨filled, w₁, hfilled, -⟩ := bind_eq_ok_iff.mp h
    rw [isFilled, outcome_bind, outcome_template] at hfilled
    dsimp only at hfilled
    rw [outcome_bind, outcome_find target hp, hfound] at hfilled
    cases hfilled

/-- A mapping whose targets are all empty can only succeed with a selection. -/
theorem exists_selection_of_perform (htarget : m.target? = some target)
    (hp : w.template.locate? node = some p)
    (hfound : target.select w.template.view p = .ok found)
    (hempty : ∀ q ∈ found, ¬ w.template.IsFilled q)
    (h : outcome (m.perform env fills body f node) w = (.ok (), w')) :
    ∃ selection?, f.selection? env m = .ok selection? := by
  rw [perform_letThrough (letThrough_of_unfilled htarget hp hfound hempty), perform] at h
  simp only [htarget] at h
  obtain ⟨skipped, w₁, hskipped, h⟩ := bind_eq_ok_iff.mp h
  cases hskipped
  obtain ⟨selection?, w₂, hselection, -⟩ := bind_eq_ok_iff.mp h
  rw [outcome_lift] at hselection
  exact ⟨selection?, congrArg Prod.fst hselection⟩

end Mapping

namespace Program
open Work

section
variable {m : Mapping} {env : Environment} {source template once : Document} {path : String}
  {target : Query} {found : List Nat} {keys : SortKeys} (hsource : source.WellFormed)
  (w : template.WellFormed) (htarget : m.target? = some target)
include hsource w htarget

/-- What a run has served holds what the mapping puts there, unless it is filled. -/
theorem settled_of_served (hrun : run ⟨[.map m []]⟩ env source path template = (.ok keys, once))
    (hfound : target.select template.view template.contextNode = .ok found)
    (hempty : ∀ q ∈ found, ¬ template.IsFilled q) {items : List Item}
    (hselection : Frame.selection? ⟨source, source.contextNode, path⟩ env m = .ok (some items))
    (hne : items ≠ []) (hsingle : m.dispatch = .multiple → items.length = 1) {q : Nat}
    (hq : once.IsQueried q) (hunfilled : ¬ once.IsFilled q)
    (hserved : m.Served template found once q) : m.Settled items once q := by
  have hset := w.isNodeSet_of_select w.isQueried_contextNode hfound
  have hitems := ((hsource.frame_sound path).avoids_selection? env m).of_eq_ok hselection items rfl
  have hold : ∀ h ∈ (found.filter (template.isOutermost m.clearing found)).map template.handleAt,
      h.ident < template.nextIdent := List.forall_mem_map.mpr fun p hp =>
    w.ident_lt_of_locate? (w.located (hset.2 p (List.mem_filter.mp hp).1).1)
  cases hd : m.dispatch with
  | graft =>
    obtain ⟨start, last, rfl, rfl, hdone⟩ := exists_forM_of_run w hrun hsource htarget (by simp [hd])
      hfound hempty hselection hne
    simp only [Mapping.Served, hd] at hserved
    obtain ⟨p, hp, hhandle⟩ := hserved
    obtain ⟨served, hall, hadvanced⟩ := Mapping.exists_advanced_of_graft w hold hd hitems hdone
    have houtermost := w.isOutermost_of_unfilled hset hempty hp
    have hmem : (last.template.handleAt q).ident ∈ served := by
      rw [hhandle]
      refine hall _ (List.mem_map_of_mem (List.mem_filter.mpr ⟨hp, ?_⟩))
      rwa [Mapping.clearing_graft hd]
    simp only [Mapping.Settled, hd]
    exact hadvanced.wellFormed.holdsContent_of_carries hq hunfilled hmem hadvanced.branches
  | multiple =>
    obtain ⟨start, last, rfl, rfl, hdone⟩ := exists_forM_of_run w hrun hsource htarget (by simp [hd])
      hfound hempty hselection hne
    simp only [Mapping.Served, hd] at hserved
    obtain ⟨hnew, p, hp, hparent, hchild⟩ := hserved
    obtain ⟨item, rfl⟩ := List.length_eq_one_iff.mp (hsingle hd)
    have hadvanced := Mapping.advanced_of_multiple w hold hd (hitems item List.mem_cons_self) hdone
    obtain ⟨_, _, hfollows⟩ := hadvanced.follows
    obtain ⟨p', hp'⟩ := Document.contains_iff.mp hparent
    have hfresh : start.template.nextIdent ≤ (last.template.handleAt q).ident := by
      -- What is not new has been there all along.
      by_contra hlt
      have hstale := hfollows.stale (Nat.lt_of_not_le hlt)
        (Option.not_isSome_iff_eq_none.mp (by simpa [Document.contains] using hnew))
      rw [hadvanced.wellFormed.located hq.1] at hstale
      cases hstale
    simp only [Mapping.Settled, hd]
    exact ⟨item, rfl, hadvanced.wellFormed.holdsContent_of_stocks hp hchild
      (w.ident_lt_of_locate? hp') hfresh hunfilled hadvanced.branches⟩
  | fetch => simp only [Mapping.Served, hd] at hserved

variable (honly : m.onlyIfEmpty) (hdispatch : m.dispatch ≠ .fetch)
include honly hdispatch

/-- A run for empty targets leaves a template as it is just when one of them is filled, or all the
outermost ones are settled. -/
theorem unchanged_iff :
    (∃ keys last, run ⟨[.map m []]⟩ env source path template = (.ok keys, last) ∧
        last.nodes = template.nodes) ↔
      ∃ found, target.select template.view template.contextNode = .ok found ∧
        ((∃ q ∈ found, template.IsFilled q) ∨ ∃ selection?,
          Frame.selection? ⟨source, source.contextNode, path⟩ env m = .ok selection? ∧
            ∀ items ∈ selection?, items ≠ [] → ∀ q ∈ found,
              template.isOutermost m.clearing found q → m.Settled items template q) := by
  have hqueried := w.isQueried_contextNode
  have hp := w.located hqueried.1
  constructor
  · rintro ⟨keys, last, hrun, hnodes⟩
    obtain ⟨start, done, rfl, rfl, hperform⟩ := exists_perform_of_run w hrun
    obtain ⟨found, hfound⟩ := Mapping.exists_select_of_perform honly htarget hp hperform
    refine ⟨found, hfound, or_iff_not_imp_left.mpr fun hfilled => ?_⟩
    have hempty : ∀ q ∈ found, ¬ start.template.IsFilled q := fun q hq hq' => hfilled ⟨q, hq, hq'⟩
    obtain ⟨selection?, hselection⟩ :=
      Mapping.exists_selection_of_perform htarget hp hfound hempty hperform
    refine ⟨selection?, hselection, fun items hitems hne q hq houtermost => ?_⟩
    cases hitems
    have hset := w.isNodeSet_of_select hqueried hfound
    have hsound := ((hsource.frame_sound path).avoids_selection? env m).of_eq_ok hselection items rfl
    obtain ⟨start', last', hstart, hlast, hdone⟩ := exists_forM_of_run w hrun hsource htarget hdispatch
      hfound hempty hselection hne
    rw [← hstart] at w hset hempty hdone hnodes houtermost ⊢
    rw [← hlast] at hnodes
    exact Mapping.settled_of_forM hdispatch hsound hne w hset hempty hdone hnodes hq houtermost
  · rintro ⟨found, hfound, h⟩
    exact exists_run_settled hsource w honly htarget hdispatch hfound h

/-- A second run leaves the template as the first one has left it just when one of the targets that it
finds is filled or all the outermost ones are settled. What the first run has served is filled or
settled afterwards, if it has not repeated its targets for several items. -/
theorem run_again (hrun : run ⟨[.map m []]⟩ env source path template = (.ok keys, once)) :
    let selection? := Frame.selection? ⟨source, source.contextNode, path⟩ env m
    ((∃ keys twice, run ⟨[.map m []]⟩ env source path once = (.ok keys, twice) ∧
        twice.nodes = once.nodes) ↔
      ∃ again, target.select once.view once.contextNode = .ok again ∧
        ((∃ q ∈ again, once.IsFilled q) ∨ ∀ items, selection? = .ok (some items) → items ≠ [] →
          ∀ q ∈ again, once.isOutermost m.clearing again q → m.Settled items once q)) ∧
      ∀ found items, target.select template.view template.contextNode = .ok found →
        (∀ q ∈ found, ¬ template.IsFilled q) → selection? = .ok (some items) → items ≠ [] →
        (m.dispatch = .multiple → items.length = 1) →
          ∀ q, once.IsQueried q → m.Served template found once q →
            once.IsFilled q ∨ m.Settled items once q := by
  intro selection?
  have wonce : once.WellFormed := by
    have := wellFormed_run env ⟨[.map m []]⟩ hsource w path
    rwa [hrun] at this
  refine ⟨?_, fun found items hfound hempty hselection hne hsingle q hq hserved =>
    or_iff_not_imp_left.mpr fun hunfilled => settled_of_served hsource w htarget hrun hfound hempty
      hselection hne hsingle hq hunfilled hserved⟩
  rw [unchanged_iff hsource wonce htarget honly hdispatch]
  refine exists_congr fun again => and_congr_right fun hagain => or_congr_right' fun hfilled => ?_
  constructor
  · rintro ⟨_, hselection, hsettled⟩ items hitems
    cases hselection.symm.trans hitems
    exact hsettled items rfl
  · -- The first run has made a selection, or has found a target filled and left all as it was.
    intro hsettled
    obtain ⟨selection?, hselection⟩ : ∃ s, selection? = .ok s := by
      have hp := w.located w.isQueried_contextNode.1
      obtain ⟨start, last, rfl, rfl, hperform⟩ := exists_perform_of_run w hrun
      obtain ⟨found, hfound⟩ := Mapping.exists_select_of_perform honly htarget hp hperform
      refine Mapping.exists_selection_of_perform htarget hp hfound (fun q hq hfilled' => ?_) hperform
      cases (Mapping.perform_filled htarget hp hfound honly hq hfilled').symm.trans hperform
      cases hagain.symm.trans hfound
      exact hfilled ⟨q, hq, hfilled'⟩
    refine ⟨selection?, hselection, fun items hitems => ?_⟩
    cases hitems
    exact hsettled items hselection

end

/-- An attribute never counts as filled, but it holds the text that it has got. -/
theorem run_again_attribute :
    let a : Query := ⟨"a", .path .context [.mk .child (.name "a") []]⟩
    let target : Query :=
      ⟨"p/@k", .path .context [.mk .child (.name "p") [], .mk .attribute (.name "k") []]⟩
    let m : Mapping := ⟨some a, some target, none, none, .graft, true⟩
    let env : Environment := { load := fun path => .error (.notFound path) }
    let source : Document :=
      .ofTrees 0 [.element (.plain "r") [] [.element (.plain "a") [] [.text "x"]]]
    let template (value : String) : Document :=
      .ofTrees 1 [.element (.plain "t") [] [.element (.plain "p") [(.plain "k", value)] []]]
    let once := (run ⟨[.map m []]⟩ env source "" (template "v")).2
    (run ⟨[.map m []]⟩ env source "" (template "v")).1 = .ok {} ∧
      once.nodes = (template "x").nodes ∧ m.Settled [.node source 2] once 3 ∧
      ∃ keys twice, run ⟨[.map m []]⟩ env source "" once = (.ok keys, twice) ∧
        twice.nodes = once.nodes := by
  intro a target m env source template once
  have hfacts : (run ⟨[.map m []]⟩ env source "" (template "v")).1 = .ok {} ∧
      once.nodes = (template "x").nodes ∧
      target.select (template "v").view (template "v").contextNode = .ok [3] ∧
      target.select once.view once.contextNode = .ok [3] ∧
      Frame.selection? ⟨source, source.contextNode, ""⟩ env m = .ok (some [.node source 2]) ∧
      (template "v").children 3 = [] ∧ once.children 3 = [] ∧
      once.handleAt 3 = (template "v").handleAt 3 := by
    revert a
    exact ⟨by cbv, by cbv, by cbv, by cbv, by cbv, by cbv, by cbv, by cbv⟩
  obtain ⟨hkeys, hnodes, hfound, hagain, hselection, hchildren, hchildren', hhandle⟩ := hfacts
  have hrun : run ⟨[.map m []]⟩ env source "" (template "v") = (.ok {}, once) := Prod.ext hkeys rfl
  obtain ⟨hiff, hserved⟩ := run_again (Document.wellFormed_ofNodes 0 .xml _)
    (Document.wellFormed_ofNodes 1 .xml _) rfl rfl (by decide) hrun
  have hqueried : once.IsQueried 3 :=
    (Document.isQueried_congr hnodes 3).mpr (by decide)
  have hempty : ∀ q ∈ [3], ¬ (template "v").IsFilled q := fun q hq hfilled => by
    obtain ⟨c, hc, -⟩ := List.mem_singleton.mp hq ▸ hfilled
    rw [hchildren] at hc
    cases hc
  have hsettled : m.Settled [.node source 2] once 3 := by
    refine (hserved [3] _ hfound hempty hselection (by simp) (fun h => by cases h) 3 hqueried
      ⟨3, List.mem_cons_self, hhandle⟩).resolve_left ?_
    rintro ⟨c, hc, -⟩
    rw [hchildren'] at hc
    cases hc
  refine ⟨hkeys, hnodes, hsettled, hiff.mpr ⟨[3], hagain, .inr fun items hitems _ q hq _ => ?_⟩⟩
  cases hselection.symm.trans hitems
  exact List.mem_singleton.mp hq ▸ hsettled

/-- Copies for two items stay empty, and so the second run repeats them again. -/
theorem run_again_multiplied :
    let child (name : String) : Query := ⟨name, .path .context [.mk .child (.name name) []]⟩
    let m : Mapping := ⟨some (child "a"), some (child "p"), none, none, .multiple, true⟩
    let env : Environment := { load := fun path => .error (.notFound path) }
    let empty (name : String) : Tree := .element (.plain name) [] []
    let source : Document := .ofTrees 0 [.element (.plain "r") [] [empty "a", empty "a"]]
    let template : Document := .ofTrees 1 [.element (.plain "t") [] [empty "p"]]
    let once := run ⟨[.map m []]⟩ env source "" template
    let twice := run ⟨[.map m []]⟩ env source "" once.2
    once.1 = .ok {} ∧ once.2.trees = [.element (.plain "t") [] [empty "p", empty "p"]] ∧
      twice.1 = .ok {} ∧
      twice.2.trees = [.element (.plain "t") [] [empty "p", empty "p", empty "p", empty "p"]] ∧
      ¬ ∃ keys last, run ⟨[.map m []]⟩ env source "" once.2 = (.ok keys, last) ∧
        last.nodes = once.2.nodes := by
  intro child m env empty source template once twice
  have hfacts : once.1 = .ok {} ∧
      once.2.trees = [.element (.plain "t") [] [empty "p", empty "p"]] ∧ twice.1 = .ok {} ∧
      twice.2.trees = [.element (.plain "t") [] [empty "p", empty "p", empty "p", empty "p"]] := by
    revert child
    exact ⟨by cbv, by cbv, by cbv, by cbv⟩
  obtain ⟨hkeys, honce, hkeys', htwice⟩ := hfacts
  refine ⟨hkeys, honce, hkeys', htwice, ?_⟩
  rintro ⟨keys, last, hrun, hnodes⟩
  have hlast : last = twice.2 := (congrArg Prod.snd hrun).symm
  have hsame : twice.2.trees = once.2.trees := by
    rw [← hlast, Document.trees, Document.trees, hnodes]
  rw [htwice, honce] at hsame
  cases hsame

end Program
end MarkupGraft
