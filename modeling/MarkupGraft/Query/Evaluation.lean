import MarkupGraft.Query.Comparison
import MarkupGraft.Query.Function
import MarkupGraft.Query.Grammar

/-!
Evaluation of queries. The steps of a path are taken one after the other, each from all nodes that
the one before has reached. Predicates filter along the axis, before nodes found from different
places are put in document order.
-/

namespace MarkupGraft.Query
variable (v : View)

mutual

def Expression.evaluate (e : Expression) (context : Context) : Except QueryError Value :=
  match e with
  | .literal text => .ok (.string text)
  | .number x => .ok (.number x)
  | .path origin steps => do
    let start ← origin.evaluate context
    pure (.nodes (← followSteps steps start))
  | .call function arguments => do
    callFunction v context function (← evaluateAll arguments context)
  | .negate operand => do
    let value ← operand.evaluate context
    pure (.number (-(value.toNumber v)))
  | .binary operator left right => do
    let l ← left.evaluate context
    match operator, l.toBool with
    | .or, true => pure (.boolean true)
    | .and, false => pure (.boolean false)
    | _, _ =>
      let r ← right.evaluate context
      applyOperator v operator l r

def evaluateAll (arguments : List Expression) (context : Context) :
    Except QueryError (List Value) :=
  match arguments with
  | [] => .ok []
  | e :: arguments => do
    let value ← e.evaluate context
    pure (value :: (← evaluateAll arguments context))

/-- The nodes at which a path begins. -/
def Origin.evaluate (o : Origin) (context : Context) : Except QueryError (List Nat) :=
  match o with
  | .context => .ok [context.node]
  | .root => .ok [v.root context.node]
  | .nodes e => do
    match ← e.evaluate context with
    | .nodes found => pure found
    | value => throw (.type (.pathFromValue (value.toText v)))

def followSteps (steps : List Step) (nodes : List Nat) : Except QueryError (List Nat) :=
  match steps with
  | [] => .ok nodes
  | step :: steps => do followSteps steps (← step.follow nodes)

/-- The nodes that one step reaches from the given ones. -/
def Step.follow (s : Step) (nodes : List Nat) : Except QueryError (List Nat) :=
  match s with
  | .mk axis test predicates => do
    let found ← nodes.mapM fun n =>
      filterAll predicates ((v.collect axis n).filter (v.passes axis test))
    pure (inDocumentOrder found.flatten)

/-- The candidates that pass all predicates, one predicate after the other. -/
def filterAll (predicates : List Expression) (candidates : List Nat) :
    Except QueryError (List Nat) :=
  match predicates with
  | [] => .ok candidates
  | e :: predicates => do
    let size := candidates.length
    let kept ← candidates.zipIdx.filterM fun (n, i) => do
      match ← e.evaluate ⟨n, i + 1, size⟩ with
      | .number x => pure (x == Float.ofNat (i + 1))
      | value => pure value.toBool
    filterAll predicates (kept.map (·.1))

end

end MarkupGraft.Query

namespace MarkupGraft

/-- A query that has been read, with its text. -/
structure Query where
  source : String
  tree : Query.Expression

namespace Query

def compile (source : String) : Except QueryError Query := do
  pure ⟨source, ← parse source⟩

/-- The result of a query for one node. -/
def evaluate (q : Query) (v : View) (node : Nat) : Except QueryError Value :=
  q.tree.evaluate v { node }

/-- The nodes that a query finds; a query for anything else is an error. -/
def select (q : Query) (v : View) (node : Nat) : Except QueryError (List Nat) := do
  match ← q.evaluate v node with
  | .nodes found => pure found
  | value => throw (.type (.notNodes q.source (value.toText v)))

/-- Whether the result of a query counts as true. -/
def holds (q : Query) (v : View) (node : Nat) : Except QueryError Bool := do
  pure (← q.evaluate v node).toBool

end Query
end MarkupGraft
