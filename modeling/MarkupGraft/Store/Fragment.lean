import MarkupGraft.Store.Node

/-!
Detached runs of complete subtrees, and what they need in order to stand elsewhere: a fragment
remembers the bindings it was cut out under, and its elements declare those that their new place
lacks.
-/

namespace MarkupGraft

structure Fragment where
  nodes : List Node
  /-- The bindings in scope where the nodes were cut out, the base bindings apart. -/
  scope : Scope

namespace Fragment

def empty : Fragment := ⟨[], {}⟩

instance : EmptyCollection Fragment := ⟨empty⟩

instance : Inhabited Fragment := ⟨empty⟩

instance : BEq Fragment := ⟨fun f g => f.nodes == g.nodes && f.scope == g.scope⟩

/-- A single text node. -/
def ofText (text : String) : Fragment := ⟨[.text text], {}⟩

/-- Both runs, one after the other. Where they were cut out under different bindings of one prefix,
the binding of the first is kept. -/
protected def append (f g : Fragment) : Fragment :=
  ⟨f.nodes ++ g.nodes, f.scope.orElse g.scope⟩

instance : Append Fragment := ⟨Fragment.append⟩

def join (fragments : List Fragment) : Fragment := fragments.foldl (· ++ ·) {}

def isEmpty (f : Fragment) : Bool := f.nodes.isEmpty

/-- The number of nodes, attributes and end markers included. -/
def length (f : Fragment) : Nat := f.nodes.length

end Fragment

namespace Placement

/-- The beginning of a sequence through the end marker that closes the last of `depth` open
elements. -/
def throughFinish? (depth : Nat) : List Node → Option (List Node)
  | [] => none
  | node :: nodes =>
    match node, depth with
    | .element _, _ => (throughFinish? (depth + 1) nodes).map (node :: ·)
    | .finish, 0 | .finish, 1 => some [node]
    | .finish, depth + 2 => (throughFinish? (depth + 1) nodes).map (node :: ·)
    | _, _ => (throughFinish? depth nodes).map (node :: ·)

/-- The attributes and content of the element in front of a sequence, through its end marker. -/
def inside (nodes : List Node) : List Node := (throughFinish? 1 nodes).getD []

/-- The prefixes declared by the attributes at the head of a sequence. -/
def ownPrefixes (nodes : List Node) : List String :=
  (nodes.takeWhile Node.isAttribute).filterMap fun node => node.name?.bind Name.declares?

/-- Whether a name uses the binding of a prefix to a namespace. An attribute uses no binding of the
empty prefix. -/
def uses (mark space : String) : Node → Bool
  | .element name => name.space = space
  | .attribute name _ => name.space = space && mark ≠ ""
  | _ => false

/-- An element in no namespace. -/
def isUnqualified : Node → Bool
  | .element name => name.space = ""
  | _ => false

/-- The declarations that an element needs in order to keep the names of its subtree: one for each
binding it uses that `target` lacks, and one that undoes a default namespace of `target`. -/
def declarations (scope target : Scope) (name : Name) (following : List Node) : List Node :=
  let own := ownPrefixes following
  let subtree := .element name :: inside following
  let used := scope.bindings.filter fun (mark, space) =>
    !own.contains mark && target.get? mark != some space && subtree.any (uses mark space)
  let declared : List Node := used.map fun (mark, space) => .attribute (Name.declaring mark) space
  let undo := subtree.any isUnqualified && (target.get? "").any (· ≠ "") && !own.contains "" &&
    !scope.contains ""
  if undo then declared ++ [.attribute (Name.declaring "") ""] else declared

/-- The nodes of a run at the given depth, its outermost elements with the declarations they
need. -/
def place (scope target : Scope) (depth : Nat) : List Node → List Node
  | [] => []
  | node :: nodes =>
    match node with
    | .element name =>
      if depth = 0 then
        node :: declarations scope target name nodes ++ place scope target 1 nodes
      else node :: place scope target (depth + 1) nodes
    | .finish => node :: place scope target (depth - 1) nodes
    | _ => node :: place scope target depth nodes

end Placement

/-- The nodes, ready to stand where `target` is in scope. -/
def Fragment.placedUnder (f : Fragment) (target : Scope) : List Node :=
  Placement.place f.scope target 0 f.nodes

end MarkupGraft
