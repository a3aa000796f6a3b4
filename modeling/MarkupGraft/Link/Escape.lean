import MarkupGraft.Text.Utf8

/-!
Escapes in URLs: a percent sign and two hexadecimal digits stand for a byte. Which characters have
to be escaped depends on the part of the URL in which they stand.
-/

namespace MarkupGraft.Url

def upperHex (n : Nat) : Char := Char.ofNat (if n < 10 then 48 + n else 55 + n)

/-- The value of a digit up to base sixteen. -/
def digitValue? (c : Char) : Option Nat :=
  if c.isDigit then some (c.toNat - 48)
  else if 'a' ≤ c.toLower ∧ c.toLower ≤ 'f' then some (c.toLower.toNat - 87)
  else none

/-- Escapes controls, characters above ASCII and those that are asked for. -/
def percentEncode (needsEscape : Char → Bool) (text : List Char) : List Char :=
  text.flatMap fun c =>
    if needsEscape c || c.toNat < 0x20 || 0x7E < c.toNat then
      (String.utf8EncodeChar c).flatMap fun b =>
        ['%', upperHex (b.toNat / 16), upperHex (b.toNat % 16)]
    else [c]

/-- The bytes that a text stands for. A percent sign without two digits stands for itself. -/
def percentDecode : List Char → Bytes
  | [] => []
  | '%' :: a :: b :: rest =>
    match digitValue? a, digitValue? b with
    | some high, some low => UInt8.ofNat (16 * high + low) :: percentDecode rest
    | _, _ => 0x25 :: percentDecode (a :: b :: rest)
  | c :: rest => String.utf8EncodeChar c ++ percentDecode rest

def inFragment (c : Char) : Bool := " \"<>`".toList.contains c

/-- A web scheme escapes apostrophes as well. -/
def inQuery (web : Bool) (c : Char) : Bool :=
  " \"#<>".toList.contains c || (web && c = '\'')

def inPath (c : Char) : Bool := inFragment c || "#?\x7b\x7d".toList.contains c

def inUser (c : Char) : Bool := inPath c || "/:;=@[\\]^|".toList.contains c

end MarkupGraft.Url
