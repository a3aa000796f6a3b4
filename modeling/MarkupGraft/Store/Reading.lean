import MarkupGraft.Markup.Tokenizer
import MarkupGraft.Store.Document

/-! Documents read from markup: the node sequence of a token sequence. -/

namespace MarkupGraft

namespace Reading
open Markup

/-- The name and the attributes of an element that stands where `s` is in scope. -/
def elementNodes (s : Scope) (name : String) (attributes : List Attribute) : List Node :=
  .element (Name.resolve s .element name) ::
    attributes.map fun a => .attribute (Name.resolve s .attribute a.key) a.value

/-- The scope inside an element with the given attributes. -/
def declare (s : Scope) (attributes : List Attribute) : Scope :=
  s.declare (attributes.map fun a => (a.key, a.value))

/-- The nodes that a token adds. The scopes of the open elements come innermost first. -/
def tokenNodes (opened : List Scope) (token : Token) : List Node × List Scope :=
  let outer := opened.headD .base
  match token.form with
  | .startTag name attributes =>
    let inner := declare outer attributes
    (elementNodes inner name attributes, inner :: opened)
  | .emptyTag name attributes =>
    (elementNodes (declare outer attributes) name attributes ++ [.finish], opened)
  | .endTag _ closes => (List.replicate (min closes opened.length) .finish, opened.drop closes)
  | .text value => ([.text value], opened)
  | .comment value => ([.comment value], opened)
  | .instruction value => ([.instruction value], opened)
  | .doctype value => ([.doctype value], opened)

/-- The nodes of the remaining tokens. At the end all that is open is closed, the document too. -/
def nodesFrom (opened : List Scope) : List Token → List Node
  | [] => List.replicate (opened.length + 1) .finish
  | token :: tokens =>
    let (nodes, opened) := tokenNodes opened token
    nodes ++ nodesFrom opened tokens

end Reading

/-- Reads a document. -/
def Document.parse (id : Nat) (mode : Markup.Mode) (input : Bytes) :
    Except Markup.ParseError Document :=
  (Markup.tokenize mode input).map fun tokens =>
    .ofNodes id mode (.document :: Reading.nodesFrom [] tokens)

end MarkupGraft
