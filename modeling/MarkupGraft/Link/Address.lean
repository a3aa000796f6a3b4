import MarkupGraft.Link.Escape
import MarkupGraft.Text.Occurrence

/-!
Addresses of servers. The short ones have four bytes, written as up to four numbers between points,
the last of which fills the bytes that are left; the long ones have eight groups of sixteen bits,
where a double colon stands for a run of zeros.
-/

namespace MarkupGraft.Address

def numberIn? (base : Nat) (digits : List Char) : Option Nat :=
  digits.foldlM (fun n c => do
    let d ← Url.digitValue? c
    if d < base then pure (base * n + d) else none) 0

/-- A number is hexadecimal behind `0x`, octal behind another zero and else decimal. -/
def number? : List Char → Option Nat
  | [] => none
  | '0' :: 'x' :: digits | '0' :: 'X' :: digits => numberIn? 16 digits
  | '0' :: d :: digits => numberIn? 8 (d :: digits)
  | digits => numberIn? 10 digits

/-- The parts of a domain, without an empty one at the end. -/
private def partsOf (domain : List Char) : List (List Char) :=
  match (domain.splitOn '.').reverse with
  | [] :: rest => rest.reverse
  | parts => parts.reverse

/-- Whether a domain has to be a short address, because its last part is a number. -/
def endsInNumber (domain : List Char) : Bool :=
  match (partsOf domain).getLast? with
  | some part => !part.isEmpty && (part.all Char.isDigit || (number? part).isSome)
  | none => false

private def readDigits (base : Nat) (digits : List Nat) : Nat := digits.foldl (base * · + ·) 0

/-- The bytes of a short address. -/
def short? (domain : List Char) : Option (List Nat) := do
  let numbers ← (partsOf domain).mapM number?
  let last ← numbers.getLast?
  let leading := numbers.dropLast
  let left := 4 - leading.length
  let bytes := [last / 0x1000000, last / 0x10000 % 0x100, last / 0x100 % 0x100, last % 0x100]
  if leading.length < 4 ∧ leading.all (· < 0x100) ∧ last < 0x100000000 ∧
      (bytes.take (4 - left)).all (· = 0) then
    some (leading ++ bytes.drop (4 - left))
  else none

def shortText (bytes : List Nat) : String := ".".intercalate (bytes.map toString)

/-- A group has one to four hexadecimal digits. -/
private def group? (text : List Char) : Option Nat :=
  if text.isEmpty ∨ 4 < text.length then none else numberIn? 16 text

/-- Four decimal bytes without leading zeros make two groups. -/
private def embedded? (text : List Char) : Option (List Nat) := do
  let bytes ← (text.splitOn '.').mapM fun part =>
    if part.isEmpty ∨ (part.head? = some '0' ∧ part ≠ ['0']) then none
    else (numberIn? 10 part).filter (· < 0x100)
  match bytes with
  | [a, b, c, d] => some [readDigits 0x100 [a, b], readDigits 0x100 [c, d]]
  | _ => none

/-- Groups between colons. The last two may be written as a short address. -/
private def groups? (text : List Char) : Option (List Nat) := do
  let parts := text.splitOn ':'
  let last := parts.getLast?.getD []
  let leading ← parts.dropLast.mapM group?
  let rest ← if last.contains '.' then embedded? last else (group? last).map ([·])
  pure (leading ++ rest)

/-- The eight groups of a long address. -/
def long? (text : List Char) : Option (List Nat) :=
  match Text.breakOn? [':', ':'] text with
  | none => (groups? text).filter (·.length = 8)
  | some (before, behind) => do
    let side (text : List Char) := if text.isEmpty then some [] else groups? text
    let first ← if before.contains '.' then none else side before
    let last ← side behind
    let given := first.length + last.length
    if given < 8 then pure (first ++ List.replicate (8 - given) 0 ++ last) else none

/-- Where the first of the longest runs of zeros begins, and its length. -/
def longestZeros : (start : Nat) → List Nat → Nat × Nat
  | _, [] => (0, 0)
  | start, n :: groups =>
    let here := ((n :: groups).takeWhile (· = 0)).length
    let later := longestZeros (start + 1) groups
    if later.2 ≤ here then (start, here) else later

private def joinGroups (groups : List Nat) : List Char :=
  [':'].intercalate (groups.map (Nat.toDigits 16))

/-- The text of a long address. A run of at least two zeros is left out. -/
def longText (groups : List Nat) : String :=
  let (start, length) := longestZeros 0 groups
  String.ofList <|
    if length < 2 then joinGroups groups
    else joinGroups (groups.take start) ++ [':', ':'] ++ joinGroups (groups.drop (start + length))

end MarkupGraft.Address
