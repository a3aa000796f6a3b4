import MarkupGraft.Markup.Attribute
import MarkupGraft.Markup.Reference

/-! What is wrong with markup that cannot be read, and where. -/

namespace MarkupGraft.Markup

inductive Malformation where
  | openTag
  | openQuote (quote : Char)
  | openComment
  | openCharacterData
  | openDoctype
  | openInstruction
  | openDeclaration
  | unknownMarkup
  | openReference
  | namelessDoctype
  | inAttribute (cause : AttributeError)
  | inReference (cause : ReferenceError)
  deriving DecidableEq, Repr

def Malformation.message : Malformation → String
  | openTag => "syntax error: tag not closed: `>` not found before end of input"
  | openQuote quote =>
    s!"syntax error: attribute value not closed: `{quote}` not found before end of input"
  | openComment => "syntax error: comment not closed: `-->` not found before end of input"
  | openCharacterData => "syntax error: CDATA not closed: `]]>` not found before end of input"
  | openDoctype => "syntax error: DOCTYPE not closed: `>` not found before end of input"
  | openInstruction =>
    "syntax error: processing instruction not closed: `?>` not found before end of input"
  | openDeclaration =>
    "syntax error: XML declaration not closed: `?>` not found before end of input"
  | unknownMarkup => "syntax error: unknown or missed symbol in markup"
  | openReference => "ill-formed document: entity or character reference not closed: " ++
      "`;` not found before end of input"
  | namelessDoctype => "ill-formed document: `<!DOCTYPE>` declaration does not contain " ++
      "a name of a document type"
  | inAttribute cause => cause.message
  | inReference cause => cause.message

inductive ParseError where
  /-- An end tag that does not close the innermost of the open elements, outermost first. -/
  | mismatchedEnd (openElements : List String) (name : String)
  | unclosed (name : String)
  | malformed (position : Nat) (cause : Malformation)
  | invalidText (position : Nat)
  deriving DecidableEq, Repr

def ParseError.message : ParseError → String
  | mismatchedEnd openElements name =>
    "/".intercalate openElements ++ ": non matching close tag </" ++ name ++ ">"
  | unclosed name => s!"unclosed element <{name}> at end of input"
  | malformed position cause => s!"malformed markup at byte {position}: " ++ cause.message
  | invalidText position => s!"invalid UTF-8 at byte {position}"

end MarkupGraft.Markup
