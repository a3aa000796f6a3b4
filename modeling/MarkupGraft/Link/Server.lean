import MarkupGraft.Link.Address
import MarkupGraft.Link.Domain
import MarkupGraft.Link.UrlError

/-!
The server that a URL names: a domain, or an address. Domains of the web are read without regard to
case and written in ASCII; in other URLs a server is any text without certain marks.
-/

namespace MarkupGraft.Server

private def forbiddenInText (c : Char) : Bool :=
  "\x00\t\n\r #/:<>?@[\\]^|".toList.contains c

/-- A domain, or the short address that it has to be because of its last part. -/
def domain (text : List Char) : Except UrlError String := do
  let decoded ← (Text.decode (Url.percentDecode text)).mapError fun _ => .internationalName
  let name ← (Domain.ascii? decoded.toList).elim (throw .internationalName) pure
  if name.isEmpty then throw .emptyHost
  if Address.endsInNumber name then
    match Address.short? name with
    | some bytes => pure (Address.shortText bytes)
    | none => throw .shortAddress
  else pure (String.ofList name)

/-- A long address stands between brackets. -/
def bracketed (text : List Char) : Except UrlError String :=
  match text.reverse with
  | ']' :: inner =>
    match Address.long? inner.reverse with
    | some groups => .ok ("[" ++ Address.longText groups ++ "]")
    | none => .error .longAddress
  | _ => .error .longAddress

/-- The server as it is written in a URL. -/
def parse (web : Bool) (text : List Char) : Except UrlError String :=
  match text with
  | '[' :: rest => bracketed rest
  | _ =>
    if web then domain text
    else if text.any forbiddenInText then .error .domainCharacter
    else .ok (String.ofList (Url.percentEncode (fun _ => false) text))

end MarkupGraft.Server
