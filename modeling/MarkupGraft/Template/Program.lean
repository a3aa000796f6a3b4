import MarkupGraft.Query.Evaluation
import MarkupGraft.Store.Writing
import MarkupGraft.Template.Format

/-!
Mapping programs, and how they are read from markup. The instructions of a level are its mapping and
sorting elements; other elements around them do not count, and what is inside a template or a
sorting element is no part of the program.
-/

namespace MarkupGraft

/-- What a mapping takes when it does not select from the source. -/
inductive DataSource where
  /-- The path of the source. -/
  | relativeUrl
  /-- The directory of the source, with a slash behind it. -/
  | relativeDir
  deriving DecidableEq, Repr

/-- What a mapping does with its selection. -/
inductive Dispatch where
  /-- Puts it into each target. -/
  | graft
  /-- Makes a copy of each target for each item. -/
  | multiple
  /-- Makes a copy of the template for each document that an item names. -/
  | fetch
  deriving DecidableEq, Repr

structure Mapping where
  /-- What is selected from the source. -/
  source? : Option Query
  /-- The targets in the template. -/
  target? : Option Query
  data? : Option DataSource
  format? : Option Format
  dispatch : Dispatch
  /-- Nothing is done when a target has content already. -/
  onlyIfEmpty : Bool

/-- Whether what stands inside is done once for each copy, and not once in place. -/
def Mapping.repeats (m : Mapping) : Bool := m.dispatch != .graft

inductive Instruction where
  | sort (order : SortOrder) (select : Query) (format? : Option Format)
  | map (mapping : Mapping) (body : List Instruction)

def Instruction.isMap : Instruction → Bool
  | .sort _ _ _ => false
  | .map _ _ => true

structure Program where
  instructions : List Instruction

namespace Program

def isEmpty (p : Program) : Bool := p.instructions.isEmpty

/-! Reading -/

abbrev Attributes := List (Name × String)

/-- The value of an attribute without a prefix, unless it is empty. -/
def value? (attributes : Attributes) (name : String) : Option String :=
  match attributes.lookup (Name.plain name) with
  | some "" => none
  | value? => value?

def query? (attributes : Attributes) (name : String) : Except TemplateError (Option Query) :=
  match value? attributes name with
  | some source => ((Query.compile source).map some).mapError .query
  | none => .ok none

def format? (attributes : Attributes) : Option Format :=
  (value? attributes "format").map fun name => .ofName name (value? attributes "strftime")

/-- A sorting element takes exactly one direction; others are left out. -/
def decodeSort (attributes : Attributes) : Except TemplateError (List Instruction) :=
  let sort (order : SortOrder) (source : String) : Except TemplateError (List Instruction) :=
    ((Query.compile source).map fun q =>
      [Instruction.sort order q (format? attributes)]).mapError .query
  match value? attributes "asc", value? attributes "desc" with
  | some source, none => sort .ascending source
  | none, some source => sort .descending source
  | _, _ => .ok []

def data? (attributes : Attributes) : Option DataSource :=
  match value? attributes "data" with
  | some "relative-url" => some .relativeUrl
  | some "relative-dir" => some .relativeDir
  | _ => none

def dispatch (attributes : Attributes) : Dispatch :=
  if value? attributes "fetch" = some "resource" then .fetch
  else if value? attributes "multiple" = some "true" then .multiple
  else .graft

def decodeMapping (attributes : Attributes) : Except TemplateError Mapping := do
  let target? ← query? attributes "to"
  let source? ← query? attributes "from"
  pure
    { source?, target?
      data? := data? attributes
      format? := format? attributes
      dispatch := dispatch attributes
      onlyIfEmpty := value? attributes "only-if" = some "empty" }

mutual

/-- The instructions of one tree. -/
def decodeTree : Tree → Except TemplateError (List Instruction)
  | .element name attributes children =>
    match name.base with
    | "sort" => decodeSort attributes
    | "map" => do
      let mapping ← decodeMapping attributes
      pure [.map mapping (← decodeForest children)]
    | "template" => .ok []
    | _ => decodeForest children
  | _ => .ok []

def decodeForest : List Tree → Except TemplateError (List Instruction)
  | [] => .ok []
  | tree :: trees => do
    let instructions ← decodeTree tree
    pure (instructions ++ (← decodeForest trees))

end

def decode (d : Document) : Except TemplateError Program :=
  Program.mk <$> decodeForest d.trees

/-- Reads a program; it need not be well-formed. -/
def parse (markup : Bytes) : Except TemplateError Program := do
  decode (← (Document.parse 0 .html markup).mapError .parse)

end Program
end MarkupGraft
