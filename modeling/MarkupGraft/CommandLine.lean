import MarkupGraft.Site

/-!
The command line. It asks for one host document to be expanded; the result goes to the standard
output, and what went wrong to the standard error.
-/

namespace MarkupGraft.CommandLine

structure Options where
  /-- The directory to change to before anything else. -/
  directory? : Option String := none
  html : Bool := false
  /-- The host; without one, or with a hyphen for one, it is the standard input. -/
  file? : Option String := none
  deriving DecidableEq, Repr

namespace Options

def mode (o : Options) : Markup.Mode := if o.html then .html else .xml

/-- The path of the host, unless it is the standard input. -/
def path? (o : Options) : Option String := o.file?.filter (· ≠ "-")

def setDirectory? (o : Options) (directory : String) : Option Options :=
  if o.directory?.isSome || directory = "" then none
  else some { o with directory? := some directory }

def setHtml? (o : Options) : Option Options := if o.html then none else some { o with html := true }

def setFile? (o : Options) (file : String) : Option Options :=
  if o.file?.isSome || file = "" then none else some { o with file? := some file }

end Options

inductive Request where
  | expand (options : Options)
  | version
  | help
  deriving DecidableEq, Repr

/-- What one argument amounts to. -/
inductive Argument where
  | endOfOptions
  | file (path : String)
  | html
  /-- Asks for more messages. -/
  | verbose
  /-- The directory to change to; without one it is the next argument. -/
  | directory (attached? : Option String)
  | request (r : Request)
  deriving DecidableEq, Repr

/-- Reads the letters behind a hyphen. The value of an option may be attached, also with a sign of
equality. -/
def shortOptions? : List Char → Option Argument
  | [] => some .verbose
  | 'v' :: letters => shortOptions? letters
  | 'V' :: _ => some (.request .version)
  | 'h' :: _ => some (.request .help)
  | ['C'] => some (.directory none)
  | 'C' :: '=' :: value => some (.directory (some (String.ofList value)))
  | 'C' :: value => some (.directory (some (String.ofList value)))
  | _ :: _ => none

/-- What an argument is while options are allowed. -/
def argument? (text : String) : Option Argument :=
  match text with
  | "--" => some .endOfOptions
  | "--html" => some .html
  | "--verbose" => some .verbose
  | "--version" => some (.request .version)
  | "--help" => some (.request .help)
  | _ =>
    match text.toList with
    | '-' :: '-' :: _ => none
    | '-' :: letter :: letters => shortOptions? (letter :: letters)
    | _ => some (.file text)

/-- What has been read of the arguments. -/
structure Reading where
  options : Options := {}
  optionsEnded : Bool := false
  awaitsDirectory : Bool := false

/-- Reads one argument. The result is an answer that ends the reading, or what has been read
then. -/
def Reading.take? (r : Reading) (text : String) : Option (Request ⊕ Reading) :=
  match if r.optionsEnded then some (.file text) else argument? text with
  | none => none
  | some (.file value) =>
    if r.awaitsDirectory then
      if r.optionsEnded then none
      else (r.options.setDirectory? value).map fun options =>
        .inr { r with options, awaitsDirectory := false }
    else (r.options.setFile? value).map fun options => .inr { r with options }
  | some argument =>
    if r.awaitsDirectory then none
    else
      match argument with
      | .html => r.options.setHtml?.map fun options => .inr { r with options }
      | .directory (some value) =>
        (r.options.setDirectory? value).map fun options => .inr { r with options }
      | .directory none => some (.inr { r with awaitsDirectory := true })
      | .endOfOptions => some (.inr { r with optionsEnded := true })
      | .request request => some (.inl request)
      | .verbose | .file _ => some (.inr r)

/-- Reads arguments from left to right. -/
def Reading.finish? (r : Reading) : List String → Option Request
  | [] => if r.awaitsDirectory then none else some (.expand r.options)
  | text :: rest =>
    match r.take? text with
    | none => none
    | some (.inl request) => some request
    | some (.inr r) => r.finish? rest

/-- Reads the arguments, unless they are wrong. -/
def parse? (arguments : List String) : Option Request := Reading.finish? {} arguments

/-- What a run of the program leaves behind. -/
structure Outcome where
  status : Nat
  output : Bytes
  messages : String

def Outcome.ofText (text : String) : Outcome := ⟨0, Text.encode text, ""⟩

/-- Output is written as a whole or not at all. -/
def Outcome.ofResult (r : Except SiteError Bytes) : Outcome :=
  match r with
  | .ok output => ⟨0, output, ""⟩
  | .error e => ⟨1, [], "markweave: " ++ e.message ++ "\n"⟩

def usage : String := "Usage: markweave [OPTIONS] [FILE]\n"

def versionText : String := "markweave 0.1.0\n"

def helpText : String :=
  "Markup templating: expand <template-instance> elements with declarative <map>/<sort> " ++
  "programs\n\n" ++
  usage ++ "\n" ++
  "Arguments:\n" ++
  "  [FILE]  Host document; standard input when absent or `-`\n\n" ++
  "Options:\n" ++
  "  -C <DIR>          Change to DIR before doing anything else\n" ++
  "  -v, --verbose...  More log output (-v debug, -vv trace); RUST_LOG takes precedence\n" ++
  "      --html        Parse sources and templates leniently, as HTML\n" ++
  "  -h, --help        Print help\n" ++
  "  -V, --version     Print version\n"

/-- Wrong arguments. -/
def Outcome.misuse : Outcome := ⟨2, [], "error: invalid arguments\n\n" ++ usage⟩

/-- The directory of the host, as it is meant from the working directory. -/
def Options.hostDirectory (o : Options) : String :=
  match o.path? with
  | some path => Path.parent path
  | none => "."

/-- Expands the host that is asked for, once the working directory is the right one. -/
def Options.expand (o : Options) (read : String → Except FileError Bytes) (cwd : String)
    (input : Bytes) : Except SiteError Bytes :=
  match o.path? with
  | some path => Site.expandFile read o.mode cwd path
  | none => Site.expandIn read o.mode cwd o.hostDirectory input

/-- The rooted path of the file for want of which an expansion has failed. -/
def Options.wanted? (o : Options) (cwd : String) (result : Except SiteError Bytes) :
    Option String :=
  match result with
  | .error (.io path .notFound) => some (Path.under cwd path)
  | .error (.template (.missingResource path _)) =>
    some (Path.under (Site.baseDir cwd o.hostDirectory) path)
  | _ => none

/-- Runs the program among the files of a tree. -/
def run (files : FileTree) (cwd : String) (arguments : List String) (input : Bytes) : Outcome :=
  match parse? arguments with
  | none => .misuse
  | some .version => .ofText versionText
  | some .help => .ofText helpText
  | some (.expand o) => .ofResult do
    let cwd ←
      match o.directory? with
      | some directory => (files.enter cwd directory).mapError (SiteError.io directory)
      | none => pure cwd
    o.expand files.read cwd input

end MarkupGraft.CommandLine
