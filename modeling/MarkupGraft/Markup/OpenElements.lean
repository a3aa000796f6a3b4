import MarkupGraft.Markup.Error

/-! The elements that are open at a place of a document. -/

namespace MarkupGraft.Markup

/-- The names of the open elements, innermost first. -/
structure OpenElements where
  names : List String := []
  deriving DecidableEq, Repr

namespace OpenElements

def depth (o : OpenElements) : Nat := o.names.length

def innermost? (o : OpenElements) : Option String := o.names.head?

def outermostFirst (o : OpenElements) : List String := o.names.reverse

def push (o : OpenElements) (name : String) : OpenElements := ⟨name :: o.names⟩

/-- How many elements an end tag closes, and those still open. XML admits the end tag of the
innermost element only. In HTML an end tag closes the nearest element of its name, whatever the case
of its letters, with all that is open inside it, and one that names no open element is ignored. -/
def close (o : OpenElements) (mode : Mode) (name : String) :
    Except ParseError (Nat × OpenElements) :=
  match mode with
  | .xml =>
    if o.innermost? = some name then .ok (1, ⟨o.names.drop 1⟩)
    else .error (.mismatchedEnd o.outermostFirst name)
  | .html =>
    match o.names.findIdx? fun openName => foldCase openName = foldCase name with
    | some i => .ok (i + 1, ⟨o.names.drop (i + 1)⟩)
    | none => .ok (0, o)

end OpenElements
end MarkupGraft.Markup
