/-! Why a query cannot be read or evaluated. -/

namespace MarkupGraft

namespace Query

inductive ReadingError where
  | empty
  /-- The query is understood up to the given rest. -/
  | unexpected (rest : String)
  /-- Not even the beginning of the query is understood. -/
  | unreadable
  deriving DecidableEq, Repr

inductive CallError where
  | unknown
  | notNodes
  | arity (least most given : Nat)
  | tooFew (least : Nat)
  deriving DecidableEq, Repr

inductive TypeError where
  /-- Steps apply to nodes only; the text of the other value is given. -/
  | pathFromValue (value : String)
  | unionOfValues
  | notNodes (query value : String)
  deriving DecidableEq, Repr

end Query

inductive QueryError where
  | reading (query : String) (cause : Query.ReadingError)
  | call (function : String) (cause : Query.CallError)
  | type (cause : Query.TypeError)
  deriving DecidableEq, Repr

namespace Query

def ReadingError.message : ReadingError → String
  | .empty => "empty expression"
  | .unexpected rest => s!"unexpected input at '{rest}'"
  | .unreadable => "<parser error>"

def CallError.message : CallError → String
  | .unknown => "unknown function"
  | .notNodes => "argument must be a node-set"
  | .arity least most given =>
    let expected := if least = most then toString least else s!"{least} to {most}"
    s!"expected {expected} arguments, got {given}"
  | .tooFew least => s!"expected at least {least} arguments"

def TypeError.message : TypeError → String
  | .pathFromValue value => s!"cannot apply a path to a non-node value '{value}'"
  | .unionOfValues => "the '|' operator requires node-sets on both sides"
  | .notNodes query value => s!"query '{query}' evaluated to '{value}', not a node-set"

end Query

def QueryError.message : QueryError → String
  | .reading query cause => s!"invalid path query '{query}': {cause.message}"
  | .call function cause => s!"function '{function}': {cause.message}"
  | .type cause => s!"type error: {cause.message}"

end MarkupGraft
