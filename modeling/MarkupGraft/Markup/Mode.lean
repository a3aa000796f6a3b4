import MarkupGraft.Text.Blank

/-! The two readings of markup, and the element names that HTML treats specially. -/

namespace MarkupGraft.Markup

inductive Mode where
  /-- Well-formed markup only; a structural mistake is an error. -/
  | xml
  /-- Void elements, stray end tags, unclosed elements, bare attributes and unknown references are
  accepted. -/
  | html
  deriving DecidableEq, Repr, Inhabited

/-- ASCII letters in lower case, every other character unchanged. -/
def foldCase (name : String) : String := name.map Char.toLower

/-- Elements that never have content or an end tag. -/
def voidElements : List String :=
  ["area", "base", "br", "col", "embed", "hr", "img", "input", "link", "meta", "param", "source",
    "track", "wbr"]

/-- Elements whose content is text up to their end tag, whatever it looks like. -/
def rawTextElements : List String := ["script", "style"]

def isVoidElement (name : String) : Bool := voidElements.contains (foldCase name)

def isRawTextElement (name : String) : Bool := rawTextElements.contains (foldCase name)

end MarkupGraft.Markup
