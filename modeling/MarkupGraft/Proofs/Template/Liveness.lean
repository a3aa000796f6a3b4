import MarkupGraft.Host.Expansion
import MarkupGraft.Proofs.Store.Reading
import MarkupGraft.Proofs.Template.Content
import MarkupGraft.Proofs.Template.Sorting

/-!
No run trips over its own edits. Whatever a mapping works on is looked up in the template as it then
is, or known to be there still; so no step of a run fails for a handle whose node is gone.
-/

namespace MarkupGraft

/-! Reading documents -/

namespace Environment
variable (env : Environment)

theorem avoids_parse (id : Nat) (markup : Bytes) :
    Avoids (.store .staleHandle) (env.parse id markup) Document.WellFormed :=
  Avoids.mapError_of_ne (fun _ he => nomatch he) fun _ hd => (Document.wellFormed_parse hd).1

theorem avoids_loadSource (id : Nat) (path : String) :
    Avoids (.store .staleHandle) (env.loadSource id path) Document.WellFormed := by
  have hmarkup : Avoids (.store .staleHandle)
      ((env.load path).mapError (TemplateError.missingResource path)) fun _ => True :=
    Avoids.mapError_of_ne (fun _ he => nomatch he) fun _ _ => trivial
  exact hmarkup.bind fun markup _ => Avoids.mapError_of_ne (fun _ he => nomatch he)
    fun _ hd => (Document.wellFormed_parse hd).1

end Environment

/-! Selecting -/

/-- Where instructions select is a node that queries meet in a well-formed document. -/
structure Frame.Sound (f : Frame) : Prop where
  wellFormed : f.source.WellFormed
  queried : f.source.IsQueried f.node

theorem Document.WellFormed.frame_sound {source : Document} (w : source.WellFormed)
    (path : String) : Frame.Sound ⟨source, source.contextNode, path⟩ := ⟨w, w.isQueried_contextNode⟩

theorem Format.avoids_apply (format : Format) (env : Environment) (path : String)
    {items : List Item} (h : ∀ item ∈ items, item.Sound) :
    Avoids (.store .staleHandle) (format.apply env path items) fun items? =>
      ∀ items ∈ items?, ∀ item ∈ items, item.Sound := by
  have htexts {texts : List String} : ∀ item ∈ texts.map Item.text, item.Sound := by
    simp [Item.Sound]
  cases format with
  | text | debug =>
    rintro _ ⟨⟩
    exact @htexts [_]
  | split =>
    rintro _ ⟨⟩
    exact htexts
  | linkRelative =>
    refine Avoids.mapError_of_ne (fun _ he => nomatch he) fun items? hitems? => ?_
    obtain ⟨link, -, rfl⟩ := Markup.map_eq_ok_iff.mp hitems?
    rintro _ ⟨⟩
    exact @htexts [_]
  | datetime pattern? =>
    rw [Format.apply]
    split
    · rintro _ ⟨⟩
      exact @htexts [_]
    · rintro _ ⟨⟩
      exact h
  | unknown name => exact fun _ he => nomatch he

namespace Frame
variable {f : Frame} (hf : f.Sound) (env : Environment)
include hf

theorem Sound.avoids_select (q : Query) :
    Avoids (.store .staleHandle) (f.select q) fun items => ∀ item ∈ items, item.Sound := by
  have hevaluate : Avoids (.store .staleHandle)
      ((q.evaluate f.source.view f.node).mapError TemplateError.query) fun value =>
        q.evaluate f.source.view f.node = .ok value :=
    Avoids.mapError_of_ne (fun _ he => nomatch he) fun _ hvalue => hvalue
  refine hevaluate.bind fun value hvalue => ?_
  have htext (text : String) : ∀ item ∈ [Item.text text], item.Sound := by simp [Item.Sound]
  cases value with
  | nodes found =>
    have hfound :=
      (Query.nodes_of_evaluate hf.wellFormed.isClosed_isQueried q.tree hf.queried hvalue).2
    exact Avoids.pure (List.forall_mem_map.mpr fun n hn => ⟨hf.wellFormed, hfound n hn⟩)
  | boolean _ | number _ | string _ => exact Avoids.pure (htext _)

omit hf in
theorem avoids_convert (format? : Option Format) {items : List Item}
    (h : ∀ item ∈ items, item.Sound) :
    Avoids (.store .staleHandle) (f.convert env format? items) fun items? =>
      ∀ items ∈ items?, ∀ item ∈ items, item.Sound := by
  cases format? with
  | some format =>
    rw [convert]
    exact format.avoids_apply env f.path h
  | none =>
    rw [convert]
    rintro _ ⟨⟩
    exact h

theorem Sound.avoids_sortKey? (select : Query) (format? : Option Format) :
    Avoids (.store .staleHandle) (f.sortKey? env select format?) fun _ => True :=
  (hf.avoids_select select).bind fun _ hitems => (avoids_convert env format? hitems).bind
    fun _ _ => trivial

theorem Sound.avoids_selection? (m : Mapping) :
    Avoids (.store .staleHandle) (f.selection? env m) fun items? =>
      ∀ items ∈ items?, ∀ item ∈ items, item.Sound := by
  rw [selection?]
  split
  · exact (hf.avoids_select _).bind fun _ hitems => avoids_convert env m.format? hitems
  · rename_i data _ _
    refine avoids_convert env m.format? fun item hitem => ?_
    obtain rfl := List.mem_singleton.mp hitem
    cases data <;> trivial
  · exact fun _ he => nomatch he

end Frame

/-! Steps -/

/-- What inner instructions do, wherever they select and whatever node they stand for. -/
def Body.Live (body : Body) : Prop :=
  ∀ f node, f.Sound → Work.Live (fun _ => True) (body f node) fun _ _ => True

namespace Work

theorem avoids_ranked {α : Type} {good : α → Prop} {results : List (α × SortKeys)}
    (h : ∀ made ∈ results, good made.1) :
    Avoids (.store .staleHandle) (ranked results) fun l => ∀ a ∈ l, good a := by
  refine Avoids.mapError_of_ne (fun _ he => nomatch he) fun l hl a ha => ?_
  obtain ⟨sorted, hsorted, rfl⟩ := Markup.map_eq_ok_iff.mp hl
  obtain ⟨made, hmade, rfl⟩ := List.mem_map.mp ha
  exact h made ((SortKeys.perm_of_sort hsorted).mem_iff.mp hmade)

/-- Looking for targets finds nodes of the template, which stays as it is. -/
theorem live_find (q : Query) (node : Handle) :
    Live (·.contains node) (find q node) fun _ d => d.contains node := by
  refine Live.template.bind fun t => ?_
  have hlocate : Live (fun d => d.contains node ∧ t = d)
      (liftM ((t.locate node).mapError TemplateError.store)) fun _ d => d.contains node := by
    refine Live.lift fun d _ hd => ?_
    obtain ⟨hcontains, rfl⟩ := hd
    exact ((Document.avoids_locate hcontains).mapError fun _ he => TemplateError.store.inj he).mono
      fun _ _ _ => hcontains
  refine hlocate.bind fun p => Live.lift fun d _ hd => ?_
  exact Avoids.mapError_of_ne (fun _ he => nomatch he) fun _ _ => hd

theorem live_detach (target : Handle) :
    Live (·.contains target) (detach target) fun made d =>
      d.contains target ∧ (made.1.WellFormed ∧ made.1.contains made.2) := by
  refine Live.freshId.bind fun id => Live.template.bind fun t => Live.lift fun d w hd => ?_
  obtain ⟨hcontains, rfl⟩ := hd
  exact ((w.avoids_detach hcontains id).mapError fun _ he => TemplateError.store.inj he).mono
    fun _ _ hmade => ⟨hcontains, hmade⟩

end Work

namespace Mapping
open Work
variable {env : Environment} {body : Body} (hbody : body.Live)

theorem live_isFilled (target : Query) (node : Handle) :
    Live (·.contains node) (isFilled target node) fun _ d => d.contains node := by
  refine (Live.template.conseq (fun _ h => h) fun _ _ h => h.1).bind fun _ => ?_
  exact (live_find target node).bind fun _ => Live.pure fun _ hd => hd

/-- A copy as the instructions for an item find it. -/
def filled (fills : Bool) (copy : Document) (node : Handle) (item : Item) :
    Except StoreError Document :=
  if fills then copy.fill node item else .ok copy

/-- Runs instructions on a copy, with an item for a source. -/
def templated (body : Body) (path : String) (copy : Document) (node : Handle) :
    Item → Work (Document × SortKeys)
  | .node source position => aside copy (body ⟨source, position, path⟩ node)
  | .text value => do aside copy (body ⟨Document.ofText (← freshId) value, 0, path⟩ node)

theorem copyFor_eq (fills : Bool) (path : String) (target : Handle) (item : Item) :
    copyFor fills body path target item = (do
      let (copy, node) ← detach target
      let copy ← liftM ((filled fills copy node item).mapError TemplateError.store)
      templated body path copy node item) := by
  cases fills <;> cases item <;> rfl

theorem avoids_filled (fills : Bool) {copy : Document} {node : Handle} {item : Item}
    (w : copy.WellFormed) (hnode : copy.contains node) (hitem : item.Sound) :
    Avoids .staleHandle (filled fills copy node item) Document.WellFormed := by
  cases fills with
  | false => exact w
  | true => exact w.avoids_fill hnode hitem

include hbody

theorem live_aside_body {f : Frame} (hf : f.Sound) {copy : Document} (hcopy : copy.WellFormed)
    (node : Handle) (pre : Document → Prop) :
    Live pre (aside copy (body f node)) fun made d => pre d ∧ made.1.WellFormed :=
  Live.aside hcopy ((hbody f node hf).conseq (fun _ _ => trivial) fun _ _ h => h)

theorem live_copyFor (fills : Bool) (path : String) (target : Handle) {item : Item}
    (hitem : item.Sound) :
    Live (·.contains target) (copyFor fills body path target item) fun made d =>
      d.contains target ∧ made.1.WellFormed := by
  rw [copyFor_eq]
  refine (live_detach target).bind fun (copy, node) => Live.assuming fun hcopy => ?_
  have hfill : Live (·.contains target)
      (liftM ((filled fills copy node item).mapError TemplateError.store)) fun copy d =>
        d.contains target ∧ copy.WellFormed :=
    Live.lift fun d _ hd => ((avoids_filled fills hcopy.1 hcopy.2 hitem).mapError
      fun _ he => TemplateError.store.inj he).mono fun _ _ w => ⟨hd, w⟩
  refine hfill.bind fun copy => Live.assuming fun w => ?_
  cases item with
  | node source position => exact live_aside_body hbody ⟨hitem.1, hitem.2⟩ w node _
  | text value =>
    refine Live.freshId.bind fun id => live_aside_body hbody ?_ w node _
    have wtext : (Document.ofText id value).WellFormed :=
      Document.wellFormed_ofFragment id (Fragment.complete_ofText value)
    exact ⟨wtext, wtext.isQueried_zero⟩

theorem live_multiply (fills : Bool) (path : String) {items : List Item}
    (hitems : ∀ item ∈ items, item.Sound) (target : Handle) :
    Live (·.contains target) (multiply fills body path items target) fun _ _ => True := by
  refine (Live.mapM fun item hitem => live_copyFor hbody fills path target
    (hitems item hitem)).bind fun results => Live.assuming fun hresults => ?_
  have hranked : Live (·.contains target) (liftM (ranked results)) fun copies d =>
      d.contains target ∧ ∀ copy ∈ copies, copy.WellFormed :=
    Live.lift fun d _ hd => (avoids_ranked hresults).mono fun _ _ hcopies => ⟨hd, hcopies⟩
  refine hranked.bind fun copies => Live.assuming fun hcopies => Live.edit fun d w hd => ?_
  exact (w.avoids_substitute hd hcopies).mono fun _ _ w' => ⟨w', trivial⟩

theorem live_contentFor (f : Frame) (node : Handle) (item : Item) :
    Live (·.contains node) (contentFor env body f node item) fun made d =>
      d.contains node ∧ made.1.Complete := by
  refine Live.freshId.bind fun id => ?_
  have hload : Live (·.contains node) (liftM (env.loadSource id (f.linkedPath item.toText)))
      fun source d => d.contains node ∧ source.WellFormed :=
    Live.lift fun d _ hd => (env.avoids_loadSource id _).mono fun _ _ wsource => ⟨hd, wsource⟩
  refine hload.bind fun source => Live.assuming fun wsource => ?_
  refine (live_detach node).bind fun (copy, inner) => Live.assuming fun hcopy => ?_
  refine (live_aside_body hbody (wsource.frame_sound _) hcopy.1 inner _).bind fun (copy, keys) =>
    Live.assuming fun w => ?_
  have hcontent : Live (·.contains node)
      (liftM ((copy.contentsOf inner).mapError TemplateError.store)) fun content d =>
        d.contains node ∧ content.Complete :=
    Live.lift fun d _ hd => ((w.avoids_contentsOf inner).mapError
      fun _ he => TemplateError.store.inj he).mono fun _ _ hcontent => ⟨hd, hcontent⟩
  exact hcontent.bind fun _ => Live.pure fun _ hd => hd

theorem live_fetch (f : Frame) (node : Handle) (items : List Item) :
    Live (·.contains node) (fetch env body f node items) fun _ _ => True := by
  refine (Live.mapM fun item _ => live_contentFor hbody f node item).bind fun results =>
    Live.assuming fun hresults => ?_
  have hranked : Live (·.contains node) (liftM (ranked results)) fun contents d =>
      d.contains node ∧ ∀ content ∈ contents, content.Complete :=
    Live.lift fun d _ hd => (avoids_ranked hresults).mono fun _ _ hcontents => ⟨hd, hcontents⟩
  refine hranked.bind fun contents => Live.assuming fun hcontents => Live.edit fun d w hd => ?_
  exact (w.avoids_replaceChildren hd (Fragment.complete_join hcontents)).mono
    fun _ _ w' => ⟨w', trivial⟩

omit hbody in
/-- Each target is looked for again before anything is done with it. -/
theorem live_forTargets {step : Handle → Work Unit}
    (hstep : ∀ target, Live (·.contains target) (step target) fun _ _ => True) (target : Query)
    (node : Handle) : Live (·.contains node) (forTargets target node step) fun _ _ => True := by
  refine (live_find target node).bind fun found => Live.template.bind fun before => ?_
  refine (Live.forM fun target _ => ?_).conseq (fun _ _ => trivial) fun _ _ h => h
  refine Live.template.bind fun t => ?_
  split
  · rename_i hcontains
    exact (hstep target).conseq (fun d hd => hd.2 ▸ hcontains) fun _ _ h => h
  · exact Live.pure fun _ _ => trivial

theorem live_perform (m : Mapping) (env : Environment) (fills : Bool) {f : Frame} (hf : f.Sound)
    (node : Handle) :
    Live (·.contains node) (m.perform env fills body f node) fun _ _ => True := by
  have hselection : Live (·.contains node) (liftM (f.selection? env m)) fun items? d =>
      d.contains node ∧ ∀ items ∈ items?, ∀ item ∈ items, item.Sound :=
    Live.lift fun d _ hd => (hf.avoids_selection? env m).mono fun _ _ hitems => ⟨hd, hitems⟩
  have hunskipped : Live (·.contains node) (pure false) fun _ d => d.contains node :=
    Live.pure fun _ hd => hd
  rw [perform]
  split
  case' h_1 => refine (live_isFilled _ node).bind fun skipped => ?_
  case' h_2 => refine hunskipped.bind fun skipped => ?_
  all_goals
    dsimp only
    split
    · exact Live.pure fun _ _ => trivial
    refine hselection.bind fun items? => Live.assuming fun hitems => ?_
    split
    · exact Live.pure fun _ _ => trivial
    · exact live_fetch hbody f node _
    · exact live_forTargets (live_multiply hbody fills f.path (hitems _ rfl)) _ node
    · refine live_forTargets (fun target => Live.edit fun d w hd => ?_) _ node
      exact (w.avoids_graft hd (hitems _ rfl)).mono fun _ _ w' => ⟨w', trivial⟩
    · exact Live.pure fun _ _ => trivial

end Mapping

/-! Runs -/

namespace Program
open Work
variable (env : Environment)

mutual

theorem live_execute {f : Frame} (hf : f.Sound) (node : Handle) (instruction : Instruction) :
    Live (fun _ => True) (execute env f node instruction) fun _ _ => True := by
  match instruction with
  | .sort order select format? =>
    rw [execute]
    refine (Live.lift fun _ _ _ => hf.avoids_sortKey? env select format?).bind fun key? => ?_
    split
    · exact (Live.modify fun _ => rfl)
    · exact Live.pure fun _ _ => trivial
  | .map mapping body =>
    have hbody : Body.Live fun f node => executeAll env f node body :=
      fun _ node hf => live_executeAll hf node body
    rw [execute]
    refine Live.template.bind fun t => ?_
    split
    · rename_i hcontains
      have hperform := Mapping.live_perform hbody mapping env (!body.any Instruction.isMap) hf node
      have hcontained (d : Document) (hd : True ∧ t = d) : d.contains node := hd.2 ▸ hcontains
      refine (hperform.conseq hcontained fun _ _ h => h).bind fun _ => ?_
      split
      · exact hbody f node hf
      · exact Live.pure fun _ _ => trivial
    · exact Live.pure fun _ _ => trivial

theorem live_executeAll {f : Frame} (hf : f.Sound) (node : Handle)
    (instructions : List Instruction) :
    Live (fun _ => True) (executeAll env f node instructions) fun _ _ => True := by
  match instructions with
  | [] => exact Live.pure fun _ _ => trivial
  | instruction :: instructions =>
    rw [executeAll]
    exact (live_execute hf node instruction).bind fun _ => live_executeAll hf node instructions

end

theorem avoids_run (p : Program) {source template : Document} (hsource : source.WellFormed)
    (htemplate : template.WellFormed) (path : String) :
    Avoids (.store .staleHandle) (p.run env source path template).1 fun _ => True := by
  obtain ⟨-, hresult⟩ := live_executeAll env (hsource.frame_sound path)
    (template.handleAt template.contextNode) p.instructions
    { template, nextId := max source.id template.id + 1 } htemplate trivial
  exact Avoids.map hresult

theorem wellFormed_run (p : Program) {source template : Document} (hsource : source.WellFormed)
    (htemplate : template.WellFormed) (path : String) :
    (p.run env source path template).2.WellFormed :=
  (live_executeAll env (hsource.frame_sound path) (template.handleAt template.contextNode)
    p.instructions { template, nextId := max source.id template.id + 1 } htemplate trivial).1

/-! Reading programs -/

theorem avoids_query? (attributes : Attributes) (name : String) :
    Avoids (.store .staleHandle) (query? attributes name) fun _ => True := by
  rw [query?]
  split
  · exact Avoids.mapError_of_ne (fun _ he => by cases he) fun _ _ => trivial
  · trivial

theorem avoids_decodeSort (attributes : Attributes) :
    Avoids (.store .staleHandle) (decodeSort attributes) fun _ => True := by
  rw [decodeSort]
  split
  · exact Avoids.mapError_of_ne (fun _ he => nomatch he) fun _ _ => trivial
  · exact Avoids.mapError_of_ne (fun _ he => nomatch he) fun _ _ => trivial
  · trivial

mutual

theorem avoids_decodeTree (t : Tree) :
    Avoids (.store .staleHandle) (decodeTree t) fun _ => True := by
  match t with
  | .element name attributes children =>
    rw [decodeTree]
    split
    · exact avoids_decodeSort attributes
    · have hmapping : Avoids (.store .staleHandle) (decodeMapping attributes) fun _ => True :=
        (avoids_query? attributes "to").bind fun _ _ =>
          (avoids_query? attributes "from").bind fun _ _ => Avoids.pure trivial
      exact hmapping.bind fun _ _ => (avoids_decodeForest children).bind fun _ _ => trivial
    · trivial
    · exact avoids_decodeForest children
  | .text _ | .comment _ | .instruction _ | .doctype _ => trivial

theorem avoids_decodeForest (ts : List Tree) :
    Avoids (.store .staleHandle) (decodeForest ts) fun _ => True := by
  match ts with
  | [] => trivial
  | t :: ts =>
    rw [decodeForest]
    exact (avoids_decodeTree t).bind fun _ _ => (avoids_decodeForest ts).bind fun _ _ => trivial

end

theorem avoids_parse (markup : Bytes) :
    Avoids (.store .staleHandle) (parse markup) fun _ => True := by
  have hdocument : Avoids (.store .staleHandle)
      ((Document.parse 0 .html markup).mapError TemplateError.parse) fun _ => True :=
    Avoids.mapError_of_ne (fun _ he => nomatch he) fun _ _ => trivial
  exact hdocument.bind fun d _ => (avoids_decodeForest d.trees).map

end Program

/-! Hosts -/

theorem Instance.avoids_expand? (i : Instance) (env : Environment) (host : Bytes) (r : Registry) :
    Avoids (.store .staleHandle) (i.expand? env host r) fun _ => True := by
  have hbody : Avoids (.store .staleHandle) (i.templateBody r) fun _ => True := by
    rw [templateBody]
    split
    · trivial
    · have hown : Avoids (.store .staleHandle) (i.ownTemplate?.mapError TemplateError.parse)
          fun _ => True := Avoids.mapError_of_ne (fun _ he => by cases he) fun _ _ => trivial
      refine hown.bind fun body? _ => ?_
      cases body? with
      | some body => trivial
      | none => exact fun he => by cases he
  have hwanted (source : Document) :
      Avoids (.store .staleHandle) (i.isWanted source) fun _ => True := by
    rw [isWanted]
    split
    · exact Avoids.mapError_of_ne (fun _ he => by cases he) fun _ _ => trivial
    · trivial
  refine hbody.bind fun body _ => ?_
  split
  case' isTrue => refine (env.avoids_parse 0 host).bind fun source wsource => ?_
  case' isFalse => refine (env.avoids_loadSource 0 i.source).bind fun source wsource => ?_
  all_goals
    refine (hwanted source).bind fun wanted _ => ?_
    split
    · refine (Program.avoids_parse i.mapping).bind fun program _ => ?_
      refine (env.avoids_parse 1 body).bind fun template wtemplate => ?_
      exact (program.avoids_run env wsource wtemplate i.source).bind fun _ _ => trivial
    · trivial

theorem avoids_expandPassages (env : Environment) (host : Bytes) (r : Registry)
    (passages : List Passage) :
    Avoids (.store .staleHandle) (expandPassages env host r passages) fun _ => True := by
  induction passages generalizing r with
  | nil => trivial
  | cons p passages ih =>
    have hpassage : Avoids (.store .staleHandle) (p.expand env host r) fun _ => True := by
      rw [Passage.expand]
      split
      · rename_i content _
        exact (content.avoids_expand? env host r).bind fun _ _ => trivial
      · trivial
    exact hpassage.bind fun _ _ => (ih _).bind fun _ _ => trivial

/-- No run of a program on a template fails for a stale handle, whatever its mappings have removed
before, and neither does the expansion of a host. -/
theorem run_never_stale :
    (∀ (p : Program) (env : Environment) (source template : Document) (path : String),
      source.WellFormed → template.WellFormed →
        (p.run env source path template).1 ≠ .error (.store .staleHandle)) ∧
      ∀ (env : Environment) (host : Bytes), expand env host ≠ .error (.store .staleHandle) := by
  refine ⟨fun p env source template path hsource htemplate =>
    (p.avoids_run env hsource htemplate path).ne_error, fun env host => ?_⟩
  have hexpand : Avoids (.store .staleHandle) (expand env host) fun _ => True := by
    refine (avoids_expandPassages env host {} _).bind fun output _ => ?_
    split
    · exact fun he => nomatch he
    · trivial
  exact hexpand.ne_error

/-- A mapping replaces the node that it and the one behind it stand for. -/
theorem run_never_stale_replaced :
    let d (id : Nat) : Document := .ofNodes id .xml [.document, .element ⟨"", "a"⟩, .finish, .finish]
    let self : Query := ⟨".", .path .context [.mk .self .node []]⟩
    let m : Mapping := ⟨some self, some self, none, none, .multiple, false⟩
    let p : Program := ⟨[.map m [], .map m []]⟩
    let env : Environment := { load := fun path => .error (.notFound path) }
    (d 0).WellFormed ∧ (d 1).WellFormed ∧
      (p.run env (d 0) "" (d 1)).2.contains ((d 1).handleAt 1) = false ∧
      (p.run env (d 0) "" (d 1)).1 ≠ .error (.store .staleHandle) := by
  intro d self m p env
  have w (id : Nat) : (d id).WellFormed :=
    Document.wellFormed_ofNodes id .xml [.element ⟨"", "a"⟩ [] []]
  have hgone : (p.run env (d 0) "" (d 1)).2.contains ((d 1).handleAt 1) = false := by cbv
  exact ⟨w 0, w 1, hgone, run_never_stale.1 p env (d 0) (d 1) "" (w 0) (w 1)⟩

end MarkupGraft
