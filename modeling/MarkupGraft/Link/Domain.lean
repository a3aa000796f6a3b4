import MarkupGraft.Link.DomainCharacter
import MarkupGraft.Text.Direction
import MarkupGraft.Text.Joining
import MarkupGraft.Text.Punycode

/-!
Domains in ASCII. A label is a part of a domain between points. Labels with other characters are
written in ASCII behind a mark, and labels with that mark are read.
-/

namespace MarkupGraft.Domain

/-- What a label in ASCII begins with that stands for another one. -/
def codeMark : List Char := "xn--".toList

/-- The most characters behind the mark of a label that is read. -/
def readLimit : Nat := 2000

/-- The most characters of a label that is written behind the mark. -/
def writeLimit : Nat := 1000

def isForbidden (c : Char) : Bool :=
  c.toNat ≤ 0x20 || c.toNat = 0x7F || "%#/:<>?@[\\]^|".toList.contains c

/-- The label that stands behind the mark. It has to be one that is read as it is. -/
def readMarked? (code : List Char) : Option (List Char) := do
  guard (code.all Text.Punycode.isBasic && code.length ≤ readLimit)
  guard (code.getLast?.any (· ≠ '-'))
  let label ← Text.Punycode.decode? code
  guard (foldText? label = some label)
  pure label

def readLabel? (label : List Char) : Option (List Char) :=
  match codeMark.isPrefixOf? label with
  | some code => readMarked? code
  | none => some label

def isLabel (label : List Char) : Bool :=
  !label.any isForbidden && !label.head?.any Text.isMark && Text.joinersFit [] label &&
    (label.all Text.Punycode.isBasic || label.length ≤ writeLimit)

/-- A label in ASCII. -/
def asciiLabel (label : List Char) : List Char :=
  if label.all Text.Punycode.isBasic then label else codeMark ++ Text.Punycode.encode label

/-- A domain in ASCII. Where one label runs from right to left, all have to be clear. -/
def ascii? (text : List Char) : Option (List Char) := do
  let labels ← ((← foldText? text).splitOn '.').mapM readLabel?
  guard (labels.all isLabel)
  guard (labels.all (!·.any Text.turns) || labels.all Text.isClear)
  pure (['.'].intercalate (labels.map asciiLabel))

end MarkupGraft.Domain
