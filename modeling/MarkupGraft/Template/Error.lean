import MarkupGraft.Link.Relative
import MarkupGraft.Markup.Error
import MarkupGraft.Query.Error
import MarkupGraft.Resource.Error
import MarkupGraft.Store.Document
import MarkupGraft.Template.SortKeys

/-! What ends the evaluation of a template. -/

namespace MarkupGraft

inductive TemplateError where
  | parse (cause : Markup.ParseError)
  /-- A document that was read from `path` is no valid markup. -/
  | invalidSource (path : String) (cause : Markup.ParseError)
  | query (cause : QueryError)
  | store (cause : StoreError)
  | missingResource (path : String) (cause : ResourceError)
  | sortConflict (cause : SortConflict)
  /-- There is no template in an instance, and none of the name it asks for. -/
  | missingTemplate (name? : Option String)
  | invalidLink (link : String) (cause : LinkError)
  deriving DecidableEq, Repr

def SortConflict.message (c : SortConflict) : String :=
  s!"sort direction conflict at key {c.position}"

def TemplateError.message : TemplateError → String
  | .parse cause => "markup parse error: " ++ cause.message
  | .invalidSource path cause => s!"cannot parse source document '{path}': " ++ cause.message
  | .query cause => "query error: " ++ cause.message
  | .store cause => "template tree error: " ++ cause.message
  | .missingResource path cause => s!"missing resource '{path}': " ++ cause.message
  | .sortConflict cause => cause.message
  | .missingTemplate none => "no template found for <template-instance>"
  | .missingTemplate (some name) =>
    "no template found for <template-instance using=\"" ++ name ++ "\">"
  | .invalidLink link cause => s!"cannot resolve link '{link}': " ++ cause.message

end MarkupGraft
