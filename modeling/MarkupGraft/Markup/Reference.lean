import MarkupGraft.Markup.NamedCharacter

/-!
Character and entity references. A strict reading refuses what it cannot resolve and says where; a
lenient reading leaves it as it stands. Escaping writes five characters as references, which both
readings undo.
-/

namespace MarkupGraft.Markup

/-- Why the number of a character reference denotes no character. -/
inductive CharacterReferenceError where
  | sign
  | empty
  | invalidDigit
  | tooLarge
  | null
  | notScalar (code : Nat)
  deriving DecidableEq, Repr

/-- Why a reference is refused. Offsets count bytes from the beginning of the text read. -/
inductive ReferenceError where
  | unterminated (start stop : Nat)
  | unknown (start stop : Nat) (name : String)
  | character (cause : CharacterReferenceError)
  deriving DecidableEq, Repr

def CharacterReferenceError.message : CharacterReferenceError → String
  | sign => "unexpected number sign"
  | empty => "cannot parse integer from empty string"
  | invalidDigit => "invalid digit found in string"
  | tooLarge => "number too large to fit in target type"
  | null => "0x0 character is not permitted in XML"
  | notScalar code => "`" ++ toString code ++ "` is not a valid codepoint"

def ReferenceError.message : ReferenceError → String
  | unterminated start stop =>
    s!"Error while escaping character at range {start}..{stop}: Cannot find ';' after '&'"
  | unknown start stop name => s!"at {start}..{stop}: unrecognized entity `{name}`"
  | character cause => "invalid character reference: " ++ cause.message

/-- The five entities that every document may refer to. -/
def predefined? : List Char → Option Char
  | ['a', 'm', 'p'] => some '&'
  | ['l', 't'] => some '<'
  | ['g', 't'] => some '>'
  | ['q', 'u', 'o', 't'] => some '"'
  | ['a', 'p', 'o', 's'] => some '\''
  | _ => none

def namedReference? (name : List Char) : Option (List Char) :=
  match predefined? name with
  | some c => some [c]
  | none => namedCharacters? name

def digitValue? (radix : Nat) (c : Char) : Option Nat :=
  let value? :=
    if c.isDigit then some (c.toNat - 48)
    else if 'a' ≤ c ∧ c ≤ 'f' then some (c.toNat - 87)
    else if 'A' ≤ c ∧ c ≤ 'F' then some (c.toNat - 55)
    else none
  value?.filter (· < radix)

/-- Reads on a number of at most thirty-two bits; the leftmost offence is the one reported. -/
def codeFrom (radix : Nat) : (code : Nat) → List Char → Except CharacterReferenceError Nat
  | code, [] => .ok code
  | code, c :: digits =>
    match digitValue? radix c with
    | none => .error .invalidDigit
    | some d =>
      if 0x100000000 ≤ radix * code + d then .error .tooLarge
      else codeFrom radix (radix * code + d) digits

def code (radix : Nat) (digits : List Char) : Except CharacterReferenceError Nat :=
  if digits.isEmpty then .error .empty else codeFrom radix 0 digits

def scalar? (code : Nat) : Option Char :=
  if h : code.isValidChar then some (Char.ofNatAux code h) else none

/-- The character with the number written after the number sign. -/
def strictCharacter (number : List Char) : Except CharacterReferenceError Char := do
  let (radix, digits) :=
    match number with
    | 'x' :: digits => (16, digits)
    | digits => (10, digits)
  if digits.head? = some '+' ∨ digits.head? = some '-' then throw .sign
  let n ← code radix digits
  if n = 0 then throw .null
  match scalar? n with
  | some c => pure c
  | none => throw (.notScalar n)

/-- Like `strictCharacter`, with a capital radix sign and the null character accepted as well. -/
def lenientCharacter? (number : List Char) : Option Char :=
  let (radix, digits) :=
    match number with
    | 'x' :: digits | 'X' :: digits => (16, digits)
    | digits => (10, digits)
  (code radix digits).toOption.bind scalar?

def byteLength (text : List Char) : Nat := text.foldr (fun c n => c.utf8Size + n) 0

/-- What a reference stands for; its name begins at `offset`. -/
def strictReference (offset : Nat) : List Char → Except ReferenceError (List Char)
  | '#' :: number => ((strictCharacter number).mapError .character).map ([·])
  | name =>
    match namedReference? name with
    | some value => .ok value
    | none => .error (.unknown offset (offset + byteLength name) (String.ofList name))

private theorem length_dropWhile_le {α : Type} (p : α → Bool) (l : List α) :
    (l.dropWhile p).length ≤ l.length :=
  (List.dropWhile_suffix p).length_le

/-- Resolves every reference of the text, which begins at `offset` and ends at `stop`. -/
def resolveStrictly (stop : Nat) (offset : Nat) : List Char → Except ReferenceError (List Char)
  | [] => .ok []
  | c :: text =>
    if c = '&' then
      let name := text.takeWhile fun c => c ≠ '&' && c ≠ ';'
      match _h : text.dropWhile fun c => c ≠ '&' && c ≠ ';' with
      | ';' :: rest => do
        let value ← strictReference (offset + 1) name
        let rest ← resolveStrictly stop (offset + 1 + byteLength name + 1) rest
        pure (value ++ rest)
      | _ => .error (.unterminated offset stop)
    else do
      let rest ← resolveStrictly stop (offset + c.utf8Size) text
      pure (c :: rest)
termination_by text => text.length
decreasing_by
  · have := length_dropWhile_le (fun c => c ≠ '&' && c ≠ ';') text
    rw [_h] at this
    simp only [List.length_cons] at this ⊢
    omega
  · simp

/-- The text with all references resolved, or the first reference that cannot be. -/
def unescape (text : String) : Except ReferenceError String :=
  (resolveStrictly text.utf8ByteSize 0 text.toList).map String.ofList

/-- Only letters, digits and number signs make a name worth looking up. -/
def isReferenceCharacter (c : Char) : Bool := c.isAlphanum || c = '#'

def lenientReference? : List Char → Option (List Char)
  | [] => none
  | '#' :: number => (lenientCharacter? number).map ([·])
  | name => namedReference? name

/-- Resolves the references that can be resolved and keeps every other character. -/
def resolveLeniently : List Char → List Char
  | [] => []
  | c :: text =>
    if c = '&' then
      let name := text.takeWhile isReferenceCharacter
      match _h : text.dropWhile isReferenceCharacter, lenientReference? name with
      | ';' :: rest, some value => value ++ resolveLeniently rest
      | _, _ => '&' :: resolveLeniently text
    else c :: resolveLeniently text
termination_by text => text.length
decreasing_by
  · have := length_dropWhile_le isReferenceCharacter text
    rw [_h] at this
    simp only [List.length_cons] at this ⊢
    omega
  all_goals simp

def unescapeLeniently (text : String) : String :=
  String.ofList (resolveLeniently text.toList)

def escapeChar : Char → List Char
  | '<' => ['&', 'l', 't', ';']
  | '>' => ['&', 'g', 't', ';']
  | '&' => ['&', 'a', 'm', 'p', ';']
  | '\'' => ['&', 'a', 'p', 'o', 's', ';']
  | '"' => ['&', 'q', 'u', 'o', 't', ';']
  | c => [c]

/-- Writes angle brackets, ampersands and quotes as references. -/
def escape (text : String) : String :=
  String.ofList (text.toList.flatMap escapeChar)

end MarkupGraft.Markup
