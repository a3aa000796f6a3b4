import MarkupGraft.Markup.Reference
import MarkupGraft.Text.Utf8
import MarkupGraft.Store.Edit

/-! The markup that a document is written as. -/

namespace MarkupGraft

namespace Tree

/-- The scope inside an element, given the scope around it. -/
def declare (s : Scope) (attributes : List (Name × String)) : Scope :=
  attributes.foldl (fun s a =>
    match a.1.declares? with
    | some mark => s.insert mark a.2
    | none => s) s

def writeAttribute (s : Scope) (name : Name) (value : String) : String :=
  name.written s .attribute ++ "=\"" ++ Markup.escape value ++ "\""

/-- Whether the text inside an element is written as it stands. -/
def isVerbatim (mode : Markup.Mode) (name : Name) : Bool :=
  mode = .html && Markup.isRawTextElement name.base

mutual

/-- The markup of a tree where `s` is in scope; `verbatim` tells that text is not escaped. A void
element without children has no end tag. -/
def write (mode : Markup.Mode) (verbatim : Bool) (s : Scope) : Tree → String
  | .element name attributes children =>
    let inner := declare s attributes
    let tag := name.written inner .element
    let head := "<" ++ tag ++
      "".intercalate (attributes.map fun (name, value) => " " ++ writeAttribute inner name value)
    if children.isEmpty && Markup.isVoidElement name.base then head ++ "/>"
    else
      head ++ ">" ++ writeAll mode (isVerbatim mode name) inner children ++ "</" ++ tag ++ ">"
  | .text value => if verbatim then value else Markup.escape value
  | .comment value => "<!--" ++ value ++ "-->"
  | .instruction value => "<?" ++ value ++ "?>"
  | .doctype value => "<!DOCTYPE" ++ value ++ ">"

def writeAll (mode : Markup.Mode) (verbatim : Bool) (s : Scope) : List Tree → String
  | [] => ""
  | tree :: trees => write mode verbatim s tree ++ writeAll mode verbatim s trees

end

end Tree

namespace Document

/-- The trees at the top of a document. -/
def trees (d : Document) : List Tree := Tree.forest d.nodes

/-- The markup of one node with all that belongs to it, written where it stands. -/
def markupAt (d : Document) (position : Nat) : String :=
  let scope := ((d.parent? position).map d.scopeAt).getD .base
  match d.node position with
  | .attribute name value => Tree.writeAttribute scope name value
  | _ => Tree.writeAll d.mode false scope (Tree.forest (d.extent position))

/-- The markup of the whole document. A detached copy declares on its top elements what it has taken
from its former place. -/
def markup (d : Document) : String :=
  if d.inherited.isEmpty then Tree.writeAll d.mode false .base d.trees
  else Tree.writeAll d.mode false .base (Tree.forest (d.contents.placedUnder .base))

def toBytes (d : Document) : Bytes := Text.encode d.markup

end Document
end MarkupGraft
