/-!
Paths as texts, without a look at any file system. A path is cleaned by dropping what does not
change where it leads: empty segments, single dots, and double dots together with the segment before
them.
-/

namespace MarkupGraft.Path

def isRooted (path : String) : Bool := path.toList.head? = some '/'

def segments (path : String) : List String :=
  (path.toList.splitOn '/').map String.ofList

/-- Takes one more segment onto a cleaned path, whose last segment comes first. -/
def push (rooted : Bool) (taken : List String) (segment : String) : List String :=
  if segment = "" ∨ segment = "." then taken
  else if segment = ".." then
    match taken with
    | last :: rest => if last = ".." then ".." :: taken else rest
    | [] => if rooted then [] else [".."]
  else segment :: taken

/-- The segments of a cleaned path, in order. -/
def cleanSegments (rooted : Bool) (segments : List String) : List String :=
  (segments.foldl (push rooted) []).reverse

/-- The path with the given cleaned segments; one without segments is a slash or a dot. -/
def ofSegments (rooted : Bool) (segments : List String) : String :=
  let joined := "/".intercalate segments
  if rooted then "/" ++ joined else if segments.isEmpty then "." else joined

def clean (path : String) : String :=
  ofSegments (isRooted path) (cleanSegments (isRooted path) (segments path))

/-- What stands after the last slash. -/
def fileName (path : String) : String :=
  String.ofList (path.toList.reverse.takeWhile (· ≠ '/')).reverse

/-- What stands before the last slash, cleaned, or a dot without a slash. -/
def dir (path : String) : String :=
  match path.toList.reverse.dropWhile (· ≠ '/') with
  | [] => "."
  | [_] => "/"
  | _ :: before => clean (String.ofList before.reverse)

/-- The cleaned path that leads through `base`, if it is not empty, and on along `path`. -/
def join (base path : String) : String :=
  if base = "" then clean path else clean (base ++ "/" ++ path)

/-- A path as it is meant from a directory; a rooted path stays as it is. -/
def under (base path : String) : String :=
  if isRooted path then path
  else if base = "" ∨ base.toList.getLast? = some '/' then base ++ path
  else base ++ "/" ++ path

/-- Whether a segment leads nowhere. -/
def isIdle (segment : String) : Bool := segment = "" || segment = "."

/-- The directory part of the path of a file, as written. It keeps a slash or a dot at the beginning
and nothing that leads nowhere at its end. -/
def parent (path : String) : String :=
  let outer := (((segments path).reverse.dropWhile isIdle).drop 1).dropWhile isIdle
  if !outer.isEmpty then "/".intercalate outer.reverse
  else if isRooted path then "/"
  else if (segments path).head? = some "." then "."
  else ""

/-- The segments that say where a cleaned path leads. -/
def trail (path : String) : List String :=
  (segments path).filter (!isIdle ·)

/-- Both lists without their longest common beginning. -/
def dropCommon : List String → List String → List String × List String
  | a :: l, b :: m => if a = b then dropCommon l m else (a :: l, b :: m)
  | l, m => (l, m)

/-- The path that leads from one cleaned directory to a cleaned path. There is none between a rooted
path and one that is not, or out of a directory that is reached by going up. -/
def relative? (source target : String) : Option String :=
  if isRooted source ≠ isRooted target then none
  else
    let (up, down) := dropCommon (trail source) (trail target)
    if up.contains ".." then none
    else some (ofSegments false (List.replicate up.length ".." ++ down))

end MarkupGraft.Path
