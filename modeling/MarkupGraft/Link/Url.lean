import MarkupGraft.Link.Server
import MarkupGraft.Link.UrlPath

/-!
Absolute URLs and the resolution of relative references against them. The schemes of the web demand
a host, take one slash or many before it, and admit backslashes for slashes; a file need not have a
host.
-/

namespace MarkupGraft

structure Url where
  scheme : String
  /-- The user, the server and the service number as they are written. -/
  authority? : Option String
  path : UrlPath
  query? : Option String
  fragment? : Option String
  deriving DecidableEq, Repr

namespace Url

/-- Schemes whose URLs name a host, with the service numbers they need not name. -/
def hostSchemes : List (String × Nat) :=
  [("http", 80), ("https", 443), ("ws", 80), ("wss", 443), ("ftp", 21)]

def hasHostScheme (scheme : String) : Bool := (hostSchemes.lookup scheme).isSome

def rulesOf (scheme : String) : PathRules :=
  ⟨scheme = "file" || hasHostScheme scheme, scheme = "file"⟩

/-! Parts of the text -/

def isControlOrSpace (c : Char) : Bool := c.toNat ≤ 0x20

/-- The text without surrounding spaces and without tabs and line ends. -/
def trimmed (text : String) : List Char :=
  let inner := (text.toList.dropWhile isControlOrSpace).reverse.dropWhile isControlOrSpace
  inner.reverse.filter fun c => c ≠ '\t' && c ≠ '\n' && c ≠ '\r'

/-- The scheme in front of a colon, in lower case, and what follows the colon. -/
def splitScheme? (text : List Char) : Option (String × List Char) :=
  let scheme := text.takeWhile fun c => c.isAlphanum || c = '+' || c = '-' || c = '.'
  match scheme, text.drop scheme.length with
  | c :: _, ':' :: rest =>
    if c.isAlpha then some (String.ofList (scheme.map Char.toLower), rest) else none
  | _, _ => none

/-- The query and the fragment of a URL. -/
structure Tail where
  query? : Option String
  fragment? : Option String
  deriving DecidableEq, Repr

def Tail.isEmpty (t : Tail) : Bool := t.query?.isNone && t.fragment?.isNone

/-- The path, and the query and the fragment that follow it. -/
def splitTail (web : Bool) (text : List Char) : List Char × Tail :=
  let beforeFragment := text.takeWhile (· ≠ '#')
  let fragment? := (text.drop beforeFragment.length).tail?
  let path := beforeFragment.takeWhile (· ≠ '?')
  let query? := (beforeFragment.drop path.length).tail?
  (path, ⟨query?.map fun q => String.ofList (percentEncode (inQuery web) q),
    fragment?.map fun f => String.ofList (percentEncode inFragment f)⟩)

def make (scheme : String) (authority? : Option String) (path : UrlPath) (t : Tail) : Url :=
  ⟨scheme, authority?, path, t.query?, t.fragment?⟩

/-! The authority -/

/-- The user and the password with their mark, or nothing if both are empty. -/
def userText (text : List Char) : List Char :=
  let name := text.takeWhile (· ≠ ':')
  let password := text.drop (name.length + 1)
  let shown := percentEncode inUser name ++
    if password.isEmpty then [] else ':' :: percentEncode inUser password
  if shown.isEmpty then [] else shown ++ ['@']

/-- The length of the server in front of a colon, which does not end it between brackets. -/
def serverLength : (bracketed : Bool) → List Char → Nat
  | _, [] => 0
  | bracketed, c :: rest =>
    if c = ':' ∧ !bracketed then 0
    else serverLength (if c = '[' then true else if c = ']' then false else bracketed) rest + 1

/-- The service number with its mark; nothing is written if the scheme implies it. -/
def serviceText (scheme : String) (digits : List Char) : Except UrlError String :=
  if digits.any (!·.isDigit) then .error .serviceNumber
  else
    match Address.numberIn? 10 digits with
    | some n =>
      if 0xFFFF < n then .error .serviceNumber
      else if digits.isEmpty ∨ hostSchemes.lookup scheme = some n then .ok ""
      else .ok s!":{n}"
    | none => .error .serviceNumber

/-- The authority as it is written, with the server in lower case. `isLast` says that nothing
follows it. -/
def authority (scheme : String) (text : List Char) (isLast : Bool) : Except UrlError String := do
  let web := (rulesOf scheme).web
  let place := (text.reverse.takeWhile (· ≠ '@')).reverse
  let user := text.take (text.length - place.length - 1)
  let marked := place.length < text.length
  if marked ∧ user.isEmpty ∧ place.isEmpty ∧ !isLast then throw .emptyHost
  let server := place.take (serverLength false place)
  if web ∧ server.isEmpty then throw .emptyHost
  let serverText ← Server.parse web server
  let hasNumber := server.length < place.length
  let shownUser := userText user
  if serverText = "" ∧ (hasNumber ∨ !shownUser.isEmpty) then throw .emptyHost
  let number ← serviceText scheme (place.drop (server.length + 1))
  pure (String.ofList shownUser ++ serverText ++ number)

/-- The authority in front of a path. A slash ends it, and a backslash ends its service number. -/
def splitAuthority (web : Bool) (text : List Char) : List Char × List Char :=
  let whole := text.takeWhile (!isSlash web ·)
  let place := (whole.reverse.takeWhile (· ≠ '@')).reverse
  let number := place.drop (serverLength false place)
  text.splitAt (whole.length - (number.dropWhile (· ≠ '\\')).length)

/-- Reads what follows two slashes. -/
def afterSlashes (scheme : String) (text : List Char) : Except UrlError Url := do
  let rules := rulesOf scheme
  let (hierarchy, tail) := splitTail rules.web text
  let (place, rest) := splitAuthority rules.web hierarchy
  let authority ← authority scheme place (rest.isEmpty && tail.isEmpty)
  let path :=
    if rest.isEmpty && !rules.web then .segments []
    else
      let names := if rest.head?.any (isSlash rules.web) then rest.drop 1 else rest
      (Draft.root.follow rules names).finish rules
  pure (make scheme (some authority) path tail)

/-! Files -/

/-- Reads what follows the two slashes of a file. A drive at the beginning of the path stands for
the host. -/
private def fileOnHost (text : List Char) : Except UrlError Url := do
  let rules := rulesOf "file"
  let (hierarchy, tail) := splitTail rules.web text
  let place := hierarchy.takeWhile (!isSlash rules.web ·)
  let host ← if place.isEmpty ∨ isDrive place then pure "" else Server.parse true place
  if host = "" ∨ host = "localhost" then
    let rest := if isDrive place then hierarchy else hierarchy.drop place.length
    pure (make "file" (some "") ((Draft.root.follow rules rest).finish rules) tail)
  else
    let draft := Draft.root.follow rules (hierarchy.drop (place.length + 1))
    pure (make "file" (some (if draft.hasDrive then "" else host)) (draft.finish rules) tail)

/-- What a rooted path keeps of the file in which it stands: the host, or the drive. -/
private def rootOfBase (base? : Option Url) (rest : List Char) : String × Draft :=
  match base? with
  | some ⟨_, authority?, .segments (first :: _), _, _⟩ =>
    if beginsWithDrive rest then ("", Draft.root)
    else if isPlainDrive first.toList then ("", [[], first.toList])
    else (authority?.getD "", Draft.root)
  | _ => ("", Draft.root)

/-- Reads what follows the scheme of a file, where `base?` is another file. -/
def file (base? : Option Url) (text : List Char) : Except UrlError Url :=
  let rules := rulesOf "file"
  let (path, tail) := splitTail rules.web text
  let slashes := path.takeWhile (isSlash rules.web)
  let fromRoot (host : String) (draft : Draft) (path : List Char) : Url :=
    make "file" (some host) ((draft.follow rules path).finish rules) tail
  match slashes, base? with
  | _ :: _ :: _, _ => fileOnHost (text.drop 2)
  | [_], _ =>
    let (host, draft) := rootOfBase base? (text.drop 1)
    .ok (fromRoot host draft (path.drop 1))
  | [], none => .ok (fromRoot "" Draft.root path)
  | [], some base =>
    match base.path with
    | .opaquePath _ => .ok (fromRoot "" Draft.root path)
    | .segments segments =>
      if path.isEmpty then
        .ok { base with query? := tail.query?.or base.query?, fragment? := tail.fragment? }
      else if beginsWithDrive text then .ok (fromRoot "" Draft.root path)
      else .ok (fromRoot (base.authority?.getD "") (Draft.ofBase rules segments) path)

/-! Reading and writing -/

/-- Reads what follows the colon of a scheme. -/
def afterScheme (scheme : String) (text : List Char) : Except UrlError Url :=
  if scheme = "file" then file none text
  else if hasHostScheme scheme then afterSlashes scheme (text.dropWhile (isSlash true))
  else
    let (hierarchy, tail) := splitTail false text
    match hierarchy with
    | '/' :: '/' :: _ => afterSlashes scheme (text.drop 2)
    | '/' :: path =>
      let rules := rulesOf scheme
      .ok (make scheme none ((Draft.root.follow rules path).finish rules) tail)
    | _ =>
      let text := String.ofList (percentEncode (fun _ => false) hierarchy)
      .ok (make scheme none (.opaquePath text) tail)

/-- Reads an absolute URL. -/
def parse (text : String) : Except UrlError Url :=
  match splitScheme? (trimmed text) with
  | some (scheme, rest) => afterScheme scheme rest
  | none => .error .noBase

/-- Whether a text is an absolute URL. -/
def isAbsolute (text : String) : Bool := (parse text).isOk

/-- Where there is no authority, a path that begins with two slashes has a dot in front. -/
def toText (u : Url) : String :=
  let authority :=
    match u.authority?, u.path with
    | some authority, _ => "//" ++ authority
    | none, .segments ("" :: _ :: _) => "/."
    | none, _ => ""
  u.scheme ++ ":" ++ authority ++ u.path.text ++ ((u.query?.map ("?" ++ ·)).getD "") ++
    ((u.fragment?.map ("#" ++ ·)).getD "")

/-! References -/

/-- Resolves a reference without a scheme against a URL that is not a file. -/
def resolveOnServer (base : Url) (segments : List String) (text : List Char) :
    Except UrlError Url :=
  let rules := rulesOf base.scheme
  let (path, tail) := splitTail rules.web text
  let onBase (draft : Draft) (path : List Char) : Except UrlError Url :=
    .ok (make base.scheme base.authority? ((draft.follow rules path).finish rules) tail)
  match path.takeWhile (isSlash true) with
  | [] =>
    if path.isEmpty then
      .ok { base with query? := tail.query?.or base.query?, fragment? := tail.fragment? }
    else onBase (Draft.ofBase rules segments) path
  | [_] => onBase Draft.root (path.drop 1)
  | _ =>
    if ['/', '/'].isPrefixOf path then afterSlashes base.scheme (text.drop 2)
    else afterSlashes base.scheme (text.dropWhile (isSlash true))

/-- Resolves a reference without a scheme. -/
def resolve (base : Url) (text : List Char) : Except UrlError Url :=
  match base.path with
  | .opaquePath _ =>
    if text.head? = some '#' then .ok { base with fragment? := (splitTail false text).2.fragment? }
    else .error .opaqueBase
  | .segments segments =>
    if base.scheme = "file" then file (some base) text else resolveOnServer base segments text

/-- Resolves a reference. A scheme may stand in front of a relative one when it is that of the base:
of a file, or of the web if at most one slash follows. -/
def join (base : Url) (link : String) : Except UrlError Url :=
  let text := trimmed link
  match splitScheme? text with
  | some (scheme, rest) =>
    let isRelative := scheme = "file" || hasHostScheme scheme &&
      (rest.takeWhile (isSlash true)).length < 2
    if scheme = base.scheme && isRelative then base.resolve rest else afterScheme scheme rest
  | none => base.resolve text

end Url
end MarkupGraft
