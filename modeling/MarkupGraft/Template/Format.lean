import MarkupGraft.Calendar.Pattern
import MarkupGraft.Template.Environment
import MarkupGraft.Template.Item
import MarkupGraft.Text.Blank

/-! Conversions of a selection as a whole, for grafting and for sorting. -/

namespace MarkupGraft

inductive Format where
  | text
  /-- One item for each part between two spaces. -/
  | split
  /-- Fits a link of the source to the base directory. -/
  | linkRelative
  /-- Writes a point in time in another way. -/
  | datetime (pattern? : Option String)
  | debug
  | unknown (name : String)
  deriving DecidableEq, Repr

namespace Format

def ofName (name : String) (pattern? : Option String) : Format :=
  match name with
  | "text" => .text
  | "split" => .split
  | "link-relative" => .linkRelative
  | "datetime" => .datetime pattern?
  | "debug" => .debug
  | _ => .unknown name

def splitAtSpaces (text : String) : List String :=
  (text.toList.splitOn ' ').map String.ofList

/-- A point in time, written as a pattern says. -/
def reformat? (text pattern : String) : Option String := do
  let time ← Timestamp.parse? (Text.trim text)
  Calendar.format? time pattern

/-- Converts a selection from the document at `path`. A conversion that is not known gives no
selection at all. What is no point in time, or is to be written as no pattern can say, stays as it
is. -/
def apply (f : Format) (env : Environment) (path : String) (items : List Item) :
    Except TemplateError (Option (List Item)) :=
  let text := Item.concat items
  match f with
  | .text => .ok (some [.text text])
  | .split => .ok (some ((splitAtSpaces text).map .text))
  | .linkRelative =>
    ((Link.relative (Path.dir path) text env.baseDir).map fun link =>
      some [Item.text link]).mapError (.invalidLink text)
  | .datetime pattern? =>
    match reformat? text (pattern?.getD env.datetimePattern) with
    | some written => .ok (some [.text written])
    | none => .ok (some items)
  | .debug => .ok (some [.text ("DEBUG[" ++ text ++ "]")])
  | .unknown _ => .ok none

end Format
end MarkupGraft
