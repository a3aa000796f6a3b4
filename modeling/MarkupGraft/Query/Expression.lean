/-! Path queries as trees. -/

namespace MarkupGraft.Query

inductive Operator where
  | or
  | and
  | equal
  | notEqual
  | less
  | lessOrEqual
  | greater
  | greaterOrEqual
  | plus
  | minus
  | times
  | divide
  | modulo
  | union
  deriving DecidableEq, Repr

inductive Axis where
  | child
  | descendant
  | descendantOrSelf
  | attribute
  | parent
  | ancestor
  | ancestorOrSelf
  | self
  | followingSibling
  | precedingSibling
  | following
  | preceding
  deriving DecidableEq, Repr

/-- Whether positions along the axis count from the context node backward. -/
def Axis.isReverse : Axis → Bool
  | .parent | .ancestor | .ancestorOrSelf | .precedingSibling | .preceding => true
  | _ => false

inductive NodeTest where
  /-- A name without its prefix. -/
  | name (base : String)
  | any
  | text
  | node
  | comment
  | instruction
  deriving DecidableEq, Repr

mutual

inductive Expression where
  | literal (value : String)
  | number (value : Float)
  | path (origin : Origin) (steps : List Step)
  | call (function : String) (arguments : List Expression)
  | binary (operator : Operator) (left right : Expression)
  | negate (operand : Expression)

/-- Where a path begins. -/
inductive Origin where
  | context
  | root
  | nodes (of : Expression)

inductive Step where
  | mk (axis : Axis) (test : NodeTest) (predicates : List Expression)

end

/-- A step to nodes of every kind. -/
def Step.anyNode (axis : Axis) : Step := .mk axis .node []

end MarkupGraft.Query
