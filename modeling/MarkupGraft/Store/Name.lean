import MarkupGraft.Store.Scope
import MarkupGraft.Text.Letter

/-!
Names of elements and attributes. A name is kept with its namespace; a prefix is read through the
bindings in scope and chosen anew from them when the name is written.
-/

namespace MarkupGraft

/-- A name in a namespace. The empty namespace is none, and an undeclared prefix stands for
itself. -/
structure Name where
  space : String
  base : String
  deriving DecidableEq, Repr, Inhabited

/-- Elements without a prefix are in the default namespace, attributes without one are in none. -/
inductive NameRole where
  | element
  | attribute
  deriving DecidableEq, Repr

namespace Name

/-- A name in no namespace. -/
def plain (base : String) : Name := ⟨"", base⟩

/-- The parts before and after the first colon. -/
def splitColon? (written : String) : Option (String × String) :=
  let chars := written.toList
  let before := chars.takeWhile (· ≠ ':')
  match chars.drop before.length with
  | [] => none
  | _ :: after => some (String.ofList before, String.ofList after)

def resolve (s : Scope) (role : NameRole) (written : String) : Name :=
  match splitColon? written, role with
  | some ("xmlns", base), .attribute => ⟨"xmlns", base⟩
  | some (mark, base), _ => ⟨(s.get? mark).getD mark, base⟩
  | none, .attribute => plain written
  | none, .element => ⟨(s.get? "").getD "", written⟩

/-- Whether a text is a name without a colon. -/
def isColonFree (text : String) : Bool :=
  match text.toList with
  | [] => false
  | c :: rest =>
    (Text.isAlphabetic c || c = '_') &&
      rest.all fun c => Text.isAlphanumeric c || c = '_' || c = '-' || c = '.'

/-- The prefix to write for a namespace: the first one bound to it, where an attribute has no use
for the empty one, or the namespace itself when it is bound to none and can be a prefix. -/
def prefixFor? (s : Scope) (role : NameRole) (space : String) : Option String :=
  if space = "" then none
  else
    match s.bindings.find? fun b => b.2 = space && !(role = .attribute && b.1 = "") with
    | some (mark, _) => if mark = "" then none else some mark
    | none => if isColonFree space then some space else none

def written (s : Scope) (role : NameRole) (n : Name) : String :=
  match prefixFor? s role n.space with
  | some mark => mark ++ ":" ++ n.base
  | none => n.base

/-- The prefix that an attribute of this name declares. -/
def declares? (n : Name) : Option String :=
  if n.space = "" ∧ n.base = "xmlns" then some ""
  else if n.space = "xmlns" then some n.base
  else none

/-- The name of the attribute that declares a prefix. -/
def declaring (mark : String) : Name :=
  if mark = "" then plain "xmlns" else ⟨"xmlns", mark⟩

end Name

/-- The prefix that an attribute key declares, as written. -/
def declaredPrefix? (key : String) : Option String :=
  if key = "xmlns" then some ""
  else ("xmlns:".toList.isPrefixOf? key.toList).map String.ofList

/-- Adds the bindings that attributes of the given keys and values declare. -/
def Scope.declare (s : Scope) (attributes : List (String × String)) : Scope :=
  attributes.foldl (fun s a =>
    match declaredPrefix? a.1 with
    | some mark => s.insert mark a.2
    | none => s) s

end MarkupGraft
