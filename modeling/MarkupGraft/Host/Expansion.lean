import MarkupGraft.Host.Passage
import MarkupGraft.Host.Registry
import MarkupGraft.Template.Run

/-!
Expansion of host documents. Each instance of a template is replaced by the template as its program
fills it; all else is copied as it stands. The program of an instance is what is written inside it.
-/

namespace MarkupGraft

namespace Instance
variable (i : Instance) (env : Environment)

/-- The markup of the template: the one registered by name, or else the one inside. -/
def templateBody (r : Registry) : Except TemplateError Bytes := do
  match i.template?.bind r.get? with
  | some body => pure body
  | none =>
    match ← i.ownTemplate?.mapError .parse with
    | some body => pure body
    | none => throw (.missingTemplate i.template?)

/-- Whether the condition of an instance holds in its source; no condition holds. -/
def isWanted (source : Document) : Except TemplateError Bool :=
  match i.condition? with
  | some condition =>
    (do (← Query.compile condition).holds source.view source.contextNode).mapError .query
  | none => .ok true

/-- What an instance is replaced by, if it is. -/
def expand? (host : Bytes) (r : Registry) : Except TemplateError (Option Bytes) := do
  let body ← i.templateBody r
  let source ← if i.source = "" then env.parse 0 host else env.loadSource 0 i.source
  if ← i.isWanted source then
    let program ← Program.parse i.mapping
    let (result, filled) := program.run env source i.source (← env.parse 1 body)
    let _ ← result
    pure (some filled.toBytes)
  else pure none

end Instance

namespace Registry

/-- Takes in the definition of a named template. -/
def learn (r : Registry) : PassageKind → Registry
  | .definition (some name) body => r.register name body
  | _ => r

end Registry

/-- What stands for a passage in the output. -/
def Passage.expand (p : Passage) (env : Environment) (host : Bytes) (r : Registry) :
    Except TemplateError Bytes :=
  match p.kind with
  | .occurrence content => do pure ((← content.expand? env host r).getD (p.span.cut host))
  | _ => .ok (p.span.cut host)

/-- The output for a run of passages, given the templates defined before it. -/
def expandPassages (env : Environment) (host : Bytes) : Registry → List Passage →
    Except TemplateError Bytes
  | _, [] => .ok []
  | r, p :: passages => do
    let written ← p.expand env host r
    pure (written ++ (← expandPassages env host (r.learn p.kind) passages))

/-- Expands all instances in a host document. -/
def expand (env : Environment) (host : Bytes) : Except TemplateError Bytes := do
  let (passages, error?) := passages host
  let output ← expandPassages env host {} passages
  match error? with
  | some e => throw (.parse e)
  | none => pure output

end MarkupGraft
