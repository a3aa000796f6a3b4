import MarkupGraft.Link.Path
import MarkupGraft.Link.Url

/-!
Links fitted to another place. A link in a document is meant from the directory of that document; it
is changed so that it leads to the same place from a directory of reference.
-/

namespace MarkupGraft

inductive LinkError where
  /-- The target cannot be reached from the directory of reference. -/
  | unreachable (target cwd : String)
  | url (cause : UrlError)
  deriving DecidableEq, Repr

def LinkError.message : LinkError → String
  | .unreachable target cwd => s!"'{target}' is not reachable from '{cwd}'"
  | .url cause => cause.message

namespace Link

/-- The path of a link, and its query and fragment with their marks. -/
def splitSuffix (link : String) : String × String :=
  let chars := link.toList
  let path := chars.takeWhile fun c => c ≠ '?' && c ≠ '#'
  (String.ofList path, String.ofList (chars.drop path.length))

/-- Where a path leads that is meant from `sourceDir`, itself meant from `cwd` unless rooted. -/
def target (sourceDir path cwd : String) : String :=
  let base := if Path.isRooted sourceDir then Path.clean sourceDir else Path.join cwd sourceDir
  Path.join base path

/-- A link in a document of `sourceDir`, fitted to `cwd`. Absolute URLs, rooted paths and links
without a path stay as they are, and a link in a document of the web becomes an absolute URL. -/
def relative (sourceDir link cwd : String) : Except LinkError String :=
  if Url.isAbsolute link || Path.isRooted link then .ok link
  else
    match Url.parse sourceDir with
    | .ok base => ((base.join link).map Url.toText).mapError .url
    | .error _ =>
      let (path, suffix) := splitSuffix link
      if path = "" then .ok link
      else if cwd = "" then .ok (Path.join sourceDir path ++ suffix)
      else
        let destination := target sourceDir path cwd
        match Path.relative? (Path.clean cwd) destination with
        | some way => .ok (way ++ suffix)
        | none => .error (.unreachable destination cwd)

end Link
end MarkupGraft
