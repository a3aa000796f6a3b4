/-! Why a document that was asked for cannot be had. -/

namespace MarkupGraft

inductive ResourceError where
  | notFound (path : String)
  | unreadable (path reason : String)
  deriving DecidableEq, Repr

def ResourceError.message : ResourceError → String
  | .notFound path => "resource not found: " ++ path
  | .unreadable path reason => s!"failed to load resource '{path}': {reason}"

end MarkupGraft
