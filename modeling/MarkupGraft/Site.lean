import MarkupGraft.Host.Expansion
import MarkupGraft.Resource.Directory

/-!
Expansion of host documents that stand in files. The documents that a host refers to are read from
its directory, which also is the directory that links are made relative to.
-/

namespace MarkupGraft

inductive SiteError where
  | template (cause : TemplateError)
  | io (path : String) (cause : FileError)
  deriving DecidableEq, Repr

def SiteError.message : SiteError → String
  | .template cause => "Template expansion failed: " ++ cause.message
  | .io path cause => s!"I/O error on {path}: " ++ cause.message

namespace Site

/-- A directory as it is meant from the working directory. -/
def baseDir (cwd directory : String) : String :=
  if directory = "" then cwd else Path.under cwd directory

/-- Expands a host whose documents are read from `directory`. -/
def expandIn (read : String → Except FileError Bytes) (mode : Markup.Mode) (cwd directory : String)
    (host : Bytes) : Except SiteError Bytes :=
  let base := baseDir cwd directory
  (expand { load := loadUnder read base, baseDir := base, mode } host).mapError .template

/-- The file at a path meant from the working directory. -/
def readFile (read : String → Except FileError Bytes) (cwd path : String) :
    Except SiteError Bytes :=
  (if path = "" then .error .notFound else read (Path.under cwd path)).mapError (.io path)

/-- Expands the host in a file. -/
def expandFile (read : String → Except FileError Bytes) (mode : Markup.Mode) (cwd path : String) :
    Except SiteError Bytes := do
  expandIn read mode cwd (Path.parent path) (← readFile read cwd path)

end Site
end MarkupGraft
