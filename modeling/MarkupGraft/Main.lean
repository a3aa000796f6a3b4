import MarkupGraft.CommandLine

/-!
The program. An expansion that fails for want of a file is tried again once the file has been read,
so the files are read in the order in which they are asked for, and each of them once.
-/

namespace MarkupGraft.CommandLine

/-- The number of an error of the system, which may be given with a negative sign. -/
def errorNumber (code : UInt32) : Nat := if code < 0x80000000 then code.toNat else (-code).toNat

def describe (code : UInt32) (details : String) : FileError :=
  match errorNumber code with
  | 2 => .notFound
  | 20 => .notDirectory
  | 21 => .isDirectory
  | 36 => .nameTooLong
  | number => .other s!"{details.capitalize} (os error {number})"

def fileErrorOf : IO.Error → FileError
  | .noFileOrDirectory _ code details | .interrupted _ code details
  | .inappropriateType _ code details | .permissionDenied _ code details
  | .resourceExhausted _ code details | .invalidArgument _ code details
  | .noSuchThing _ code details | .alreadyExists _ code details
  | .otherError code details | .hardwareFault code details
  | .resourceBusy code details | .unsupportedOperation code details => describe code details
  | e => .other (toString e)

def readFile (path : String) : IO (Except FileError Bytes) := do
  if path.toList.contains '\x00' then pure (.error .nameWithNul)
  else
    try
      let data ← IO.FS.readBinFile path
      pure (.ok data.toList)
    catch e => pure (.error (fileErrorOf e))

def enterDirectory (cwd directory : String) : IO (Except FileError String) := do
  try
    let place ← IO.FS.realPath (Path.under cwd directory)
    if ← place.isDir then pure (.ok place.toString) else pure (.error .notDirectory)
  catch e => pure (.error (fileErrorOf e))

/-- Expands with the files read so far, and reads what is wanted. -/
partial def expandReading (o : Options) (cwd : String) (input : Bytes)
    (known : List (String × Except FileError Bytes)) : IO (Except SiteError Bytes) := do
  let read (path : String) : Except FileError Bytes := (known.lookup path).getD (.error .notFound)
  let result := o.expand read cwd input
  match o.wanted? cwd result with
  | some path =>
    if (known.lookup path).isSome then pure result
    else expandReading o cwd input ((path, ← readFile path) :: known)
  | none => pure result

def expandHost (o : Options) : IO (Except SiteError Bytes) := do
  let start := (← IO.currentDir).toString
  let place ←
    match o.directory? with
    | some directory => do
      pure ((← enterDirectory start directory).mapError (SiteError.io directory))
    | none => pure (.ok start)
  match place with
  | .error e => pure (.error e)
  | .ok cwd =>
    let input ← if o.path?.isSome then pure .empty else (← IO.getStdin).readBinToEnd
    expandReading o cwd input.toList []

def respond (arguments : List String) : IO Outcome := do
  match parse? arguments with
  | none => pure .misuse
  | some .version => pure (.ofText versionText)
  | some .help => pure (.ofText helpText)
  | some (.expand o) => do pure (.ofResult (← expandHost o))

end MarkupGraft.CommandLine

def main (arguments : List String) : IO UInt32 := do
  let outcome ← MarkupGraft.CommandLine.respond arguments
  IO.eprint outcome.messages
  try
    let output ← IO.getStdout
    output.write (ByteArray.mk outcome.output.toArray)
    output.flush
    pure (UInt32.ofNat outcome.status)
  catch e =>
    IO.eprintln s!"markweave: writing output: {e}"
    pure 1
