import MarkupGraft.Store.View
import MarkupGraft.Template.Graft
import MarkupGraft.Template.Program

/-!
Runs of mapping programs. A run changes a template by what it selects from a source. What is inside
a mapping that repeats is run once for each item, on a copy of its own, with the item for a source;
the copies are then put in the order of the keys that were emitted for them.
-/

namespace MarkupGraft

/-- Where instructions select: a node of a source document, and the path of that document. -/
structure Frame where
  source : Document
  node : Nat
  path : String

namespace Frame

/-- What a query selects; a result that is no set of nodes is one text. -/
def select (f : Frame) (q : Query) : Except TemplateError (List Item) := do
  match ← (q.evaluate f.source.view f.node).mapError .query with
  | .nodes found => pure (found.map (.node f.source))
  | value => pure [.text (value.toText f.source.view)]

/-- Converts a selection, if a format asks for it. -/
def convert (f : Frame) (env : Environment) (format? : Option Format) (items : List Item) :
    Except TemplateError (Option (List Item)) :=
  match format? with
  | some format => format.apply env f.path items
  | none => .ok (some items)

/-- The key that a sorting instruction emits. -/
def sortKey? (f : Frame) (env : Environment) (select : Query) (format? : Option Format) :
    Except TemplateError (Option String) := do
  let items? ← f.convert env format? (← f.select select)
  pure (items?.map Item.concat)

def dataItem (f : Frame) : DataSource → Item
  | .relativeUrl => .text f.path
  | .relativeDir => .text (Path.dir f.path ++ "/")

/-- The selection of a mapping, unless there is nothing to select or no way to convert it. -/
def selection? (f : Frame) (env : Environment) (m : Mapping) :
    Except TemplateError (Option (List Item)) :=
  match m.source?, m.data? with
  | some query, _ => do f.convert env m.format? (← f.select query)
  | none, some data => f.convert env m.format? [f.dataItem data]
  | none, none => .ok none

/-- The path of a document that a link in the source leads to. -/
def linkedPath (f : Frame) (link : String) : String :=
  if Path.isRooted link then Path.clean link else Path.join (Path.dir f.path) link

end Frame

/-- What a run works on. -/
structure Workspace where
  template : Document
  keys : SortKeys := {}
  /-- All document identities used so far are smaller. -/
  nextId : Nat

/-- A step of a run. When it fails, the template stays as it was left. -/
abbrev Work := ExceptT TemplateError (StateM Workspace)

namespace Work

def freshId : Work Nat := modifyGet fun w => (w.nextId, { w with nextId := w.nextId + 1 })

def template : Work Document := do pure (← get).template

/-- Applies an edit to the template. -/
def edit (f : Document → Except StoreError Document) : Work Unit := do
  let template ← ((f (← template)).mapError .store : Except TemplateError Document)
  modify fun w => { w with template }

/-- The nodes of the template that a query finds from a node. -/
def find (q : Query) (node : Handle) : Work (List Nat) := do
  let template ← template
  let position ← ((template.locate node).mapError .store : Except TemplateError Nat)
  ((q.select template.view position).mapError .query : Except TemplateError (List Nat))

/-- Runs a step on another template and without keys so far, and gives back what it has made of it
and the keys it has emitted. -/
def aside (template : Document) (step : Work Unit) : Work (Document × SortKeys) := fun outer =>
  let (result, inner) := step { template, nextId := outer.nextId }
  (result.map fun _ => (inner.template, inner.keys), { outer with nextId := inner.nextId })

/-- A detached copy of a node of the template, and the handle of the copy there. -/
def detach (node : Handle) : Work (Document × Handle) := do
  let id ← freshId
  (((← template).detach node id).mapError .store : Except TemplateError (Document × Handle))

def ranked {α : Type} (results : List (α × SortKeys)) : Except TemplateError (List α) :=
  ((SortKeys.sort results).map fun sorted => sorted.map (·.1)).mapError .sortConflict

end Work

/-- What instructions do, given where they select and the node of the template they stand for. -/
abbrev Body := Frame → Handle → Work Unit

namespace Mapping
open Work
variable (m : Mapping) (env : Environment)

/-- Whether a target has content. -/
def isFilled (target : Query) (node : Handle) : Work Bool := do
  let view := (← template).view
  pure ((← find target node).any fun found => !(view.children found).isEmpty)

/-- The copy for one item. It is filled with the item unless the mappings inside do that. -/
def copyFor (fills : Bool) (body : Body) (path : String) (target : Handle) (item : Item) :
    Work (Document × SortKeys) := do
  let (copy, node) ← detach target
  let copy ←
    if fills then ((copy.fill node item).mapError .store : Except TemplateError Document)
    else pure copy
  match item with
  | .node source position => aside copy (body ⟨source, position, path⟩ node)
  | .text value => do
    let source := Document.ofText (← freshId) value
    aside copy (body ⟨source, 0, path⟩ node)

/-- Puts a copy for each item in the place of a target. -/
def multiply (fills : Bool) (body : Body) (path : String) (items : List Item) (target : Handle) :
    Work Unit := do
  let copies ← ranked (← items.mapM (copyFor fills body path target))
  edit fun template => template.substitute target copies

/-- The content made for the document that an item names. -/
def contentFor (body : Body) (f : Frame) (node : Handle) (item : Item) :
    Work (Fragment × SortKeys) := do
  let path := f.linkedPath item.toText
  let source ← env.loadSource (← freshId) path
  let (copy, inner) ← detach node
  let (copy, keys) ← aside copy (body ⟨source, source.contextNode, path⟩ inner)
  let content ← ((copy.contentsOf inner).mapError .store : Except TemplateError Fragment)
  pure (content, keys)

/-- Puts the contents made for all items in the place of what the node holds. -/
def fetch (body : Body) (f : Frame) (node : Handle) (items : List Item) : Work Unit := do
  let contents ← ranked (← items.mapM (contentFor env body f node))
  edit fun template => template.replaceChildren node (Fragment.join contents)

/-- Does something with each target that the ones before have not removed. -/
def forTargets (target : Query) (node : Handle) (step : Handle → Work Unit) : Work Unit := do
  let found ← find target node
  let before ← template
  (found.map before.handleAt).forM fun target => do
    if (← template).contains target then step target

/-- Does what a mapping asks for, apart from what stands inside one that does not repeat. Nothing
happens without a selection; without a target or an item only documents are fetched. -/
def perform (fills : Bool) (body : Body) (f : Frame) (node : Handle) : Work Unit := do
  let skipped ←
    match m.onlyIfEmpty, m.target? with
    | true, some target => isFilled target node
    | _, _ => pure false
  if skipped then return
  match ← f.selection? env m, m.dispatch, m.target? with
  | none, _, _ => pure ()
  | some items, .fetch, _ => fetch env body f node items
  | some (item :: items), .multiple, some target =>
    forTargets target node (multiply fills body f.path (item :: items))
  | some (item :: items), .graft, some target =>
    forTargets target node fun target => edit fun template => template.graft target (item :: items)
  | some _, _, _ => pure ()

end Mapping

namespace Program
open Work

mutual

/-- Executes one instruction. A mapping is passed over when its node in the template is gone. -/
def execute (env : Environment) (f : Frame) (node : Handle) : Instruction → Work Unit
  | .sort order select format? => do
    match ← f.sortKey? env select format? with
    | some key => modify fun w => { w with keys := w.keys.push order key }
    | none => pure ()
  | .map mapping body => do
    if (← template).contains node then
      mapping.perform env (!body.any Instruction.isMap)
        (fun f node => executeAll env f node body) f node
      if !mapping.repeats then executeAll env f node body

def executeAll (env : Environment) (f : Frame) (node : Handle) : List Instruction → Work Unit
  | [] => pure ()
  | instruction :: instructions => do
    execute env f node instruction
    executeAll env f node instructions

end

/-- Runs a program on a whole template. The result is the keys emitted outside of all repetitions,
or an error; with it comes the template as the run has left it. -/
def run (p : Program) (env : Environment) (source : Document) (path : String)
    (template : Document) : Except TemplateError SortKeys × Document :=
  let (result, last) :=
    executeAll env ⟨source, source.contextNode, path⟩ (template.handleAt template.contextNode)
      p.instructions { template, nextId := max source.id template.id + 1 }
  (result.map fun _ => last.keys, last.template)

end Program
end MarkupGraft
