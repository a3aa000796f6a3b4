import MarkupGraft.Store.Reading
import MarkupGraft.Template.Error

/-! All that the evaluation of a template takes from its surroundings. -/

namespace MarkupGraft

structure Environment where
  /-- The document at a path, as it is written in a program or in an instance. -/
  load : String → Except ResourceError Bytes
  /-- The directory that links are made relative to. -/
  baseDir : String := ""
  /-- How templates and documents are read. -/
  mode : Markup.Mode := .xml
  /-- How points in time are written by programs that do not say it. -/
  datetimePattern : String := "%c"

namespace Environment

def parse (env : Environment) (id : Nat) (markup : Bytes) : Except TemplateError Document :=
  (Document.parse id env.mode markup).mapError .parse

/-- Loads and reads the document at a path. -/
def loadSource (env : Environment) (id : Nat) (path : String) : Except TemplateError Document := do
  let markup ← (env.load path).mapError (.missingResource path)
  (Document.parse id env.mode markup).mapError (.invalidSource path)

end Environment
end MarkupGraft
