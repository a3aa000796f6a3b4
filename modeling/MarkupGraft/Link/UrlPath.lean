import MarkupGraft.Link.Escape

/-!
Paths of URLs, read segment by segment. Segments of dots lead nowhere or to the outer directory. In
the file scheme a path may begin with the letter of a drive, and nothing leads out of a drive.
-/

namespace MarkupGraft

inductive UrlPath where
  /-- A path that nothing can be resolved against. -/
  | opaquePath (text : String)
  | segments (segments : List String)
  deriving DecidableEq, Repr

def UrlPath.text : UrlPath → String
  | .opaquePath text => text
  | .segments names => "".intercalate (names.map ("/" ++ ·))

namespace Url

/-- How paths are read: whether backslashes count as slashes, and whether there are drives. -/
structure PathRules where
  web : Bool
  drives : Bool
  deriving DecidableEq, Repr

def isSlash (web : Bool) (c : Char) : Bool := c = '/' || (web && c = '\\')

def isDrive (segment : List Char) : Bool :=
  match segment with
  | [letter, mark] => letter.isAlpha && (mark = ':' || mark = '|')
  | _ => false

/-- Whether a drive is written with a colon. -/
def isPlainDrive (segment : List Char) : Bool := isDrive segment && segment.getLast? = some ':'

/-- Whether a text begins with a drive that is a whole segment. -/
def beginsWithDrive (text : List Char) : Bool :=
  isDrive (text.take 2) && (text.drop 2).head?.all "/\\?#".toList.contains

/-- The number of dots that a segment consists of, or zero. -/
def dots (segment : List Char) : Nat :=
  let rec count : List Char → Option Nat
    | [] => some 0
    | '.' :: rest => (count rest).map (· + 1)
    | '%' :: '2' :: 'e' :: rest | '%' :: '2' :: 'E' :: rest => (count rest).map (· + 1)
    | _ => none
  (count segment).getD 0

/-- A path that is being written: its segments, the innermost first. The first of them is still
open; it is empty behind a slash. -/
abbrev Draft := List (List Char)

namespace Draft

def root : Draft := [[]]

/-- Writes a slash, unless there is one. -/
def close (d : Draft) : Draft := if d.head? = some [] then d else [] :: d

/-- Goes to the outer directory, but not out of a drive. -/
def leave (d : Draft) : Draft :=
  match d with
  | [] :: outer :: rest => if beginsWithDrive outer then d else [] :: rest
  | _ => d

/-- Appends a segment. The first one is written with a colon if it is a drive. -/
def append (rules : PathRules) (d : Draft) (segment : List Char) : Draft :=
  match d with
  | [[]] => [if rules.drives && isDrive segment then segment.take 1 ++ [':'] else segment]
  | [] => [segment]
  | written :: rest => (written ++ segment) :: rest

/-- Goes along one more segment. Behind dots the path ends in a slash. -/
def push (rules : PathRules) (d : Draft) (segment : List Char) (isLast : Bool) : Draft :=
  match dots segment with
  | 1 => d.close
  | 2 => if d.head? = some [] then d.leave else if isLast then d else [] :: d
  | _ =>
    let d := d.append rules (percentEncode inPath segment)
    if isLast then d else [] :: d

def follow (rules : PathRules) (d : Draft) (path : List Char) : Draft :=
  let segments := path.splitOnP (isSlash rules.web)
  let last := segments.length - 1
  segments.zipIdx.foldl (fun d (segment, i) => d.push rules segment (i = last)) d

/-- Whether the path begins with a drive. -/
def hasDrive (d : Draft) : Bool := d.getLast?.any isPlainDrive

/-- All but the last of the empty segments at the beginning are dropped. -/
def dropIdle : List String → List String
  | a :: b :: rest => if a = "" then dropIdle (b :: rest) else a :: b :: rest
  | segments => segments

def finish (rules : PathRules) (d : Draft) : UrlPath :=
  let segments := d.reverse.map String.ofList
  .segments (if rules.drives then dropIdle segments else segments)

/-- The draft from which a reference is followed that is meant from a path: its directory. A drive
at the end is no file in that directory. -/
def ofBase (rules : PathRules) (segments : List String) : Draft :=
  match segments.reverse.map String.toList with
  | [] => root
  | last :: rest =>
    if rules.drives && isPlainDrive last then if rest.isEmpty then [[], last] else last :: rest
    else [] :: rest

end Draft
end Url
end MarkupGraft
