import MarkupGraft.Store.Edit

/-! What a program selects: nodes of a source document, and texts made along the way. -/

namespace MarkupGraft

inductive Item where
  | node (document : Document) (position : Nat)
  | text (value : String)

namespace Item

def toText : Item → String
  | .node document position => document.stringValue position
  | .text value => value

/-- A detached copy. -/
def toFragment : Item → Except StoreError Fragment
  | .node document position => document.extract (document.handleAt position)
  | .text value => .ok (.ofText value)

/-- The texts of a selection in one. -/
def concat (items : List Item) : String := "".intercalate (items.map toText)

/-- Detached copies of a selection in one. -/
def gather (items : List Item) : Except StoreError Fragment :=
  Fragment.join <$> items.mapM toFragment

end Item
end MarkupGraft
