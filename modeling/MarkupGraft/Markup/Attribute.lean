import MarkupGraft.Text.Utf8
import MarkupGraft.Text.Blank
import MarkupGraft.Markup.Mode

/-!
The attributes of a tag, as bytes. Offsets count from the first byte of the tag's name. HTML admits
attributes without a value and values without quotes, and the same key twice.
-/

namespace MarkupGraft.Markup

structure RawAttribute where
  key : Bytes
  value : Bytes
  deriving DecidableEq, Repr

inductive AttributeError where
  | missingEquals (offset : Nat)
  | missingValue (offset : Nat)
  | missingQuotes (offset : Nat)
  | openQuote (offset : Nat) (quote : Char)
  | duplicate (offset previous : Nat)
  deriving DecidableEq, Repr

def AttributeError.message : AttributeError → String
  | missingEquals offset =>
    s!"position {offset}: attribute key must be directly followed by `=` or space"
  | missingValue offset => s!"position {offset}: `=` must be followed by an attribute value"
  | missingQuotes offset => s!"position {offset}: attribute value must be enclosed in `\"` or `'`"
  | openQuote offset quote =>
    s!"position {offset}: missing closing quote `{quote}` in attribute value"
  | duplicate offset previous =>
    s!"position {offset}: duplicated attribute, previous declaration at position {previous}"

/-- The rest of a tag and the offset at which it begins. -/
structure TagRest where
  offset : Nat
  bytes : Bytes

namespace TagRest

def dropWhile (r : TagRest) (p : UInt8 → Bool) : TagRest :=
  let dropped := r.bytes.takeWhile p
  ⟨r.offset + dropped.length, r.bytes.drop dropped.length⟩

def skipBlank (r : TagRest) : TagRest := r.dropWhile Text.isBlankByte

theorem length_dropWhile (r : TagRest) (p : UInt8 → Bool) :
    (r.dropWhile p).bytes.length ≤ r.bytes.length := by
  simp [dropWhile]

theorem length_skipBlank (r : TagRest) : r.skipBlank.bytes.length ≤ r.bytes.length :=
  r.length_dropWhile _

def isQuote (b : UInt8) : Bool := b = 0x22 || b = 0x27

def endsKey (b : UInt8) : Bool := b = 0x3D || Text.isBlankByte b

/-- The value after an equals sign, and what follows it. -/
def readValue (mode : Mode) (r : TagRest) : Except AttributeError (Bytes × TagRest) :=
  let start := r.skipBlank
  match start.bytes with
  | [] => .error (.missingValue start.offset)
  | b :: bytes =>
    if isQuote b then
      let inner := bytes.takeWhile (· ≠ b)
      match bytes.drop inner.length with
      | [] => .error (.openQuote (start.offset + 1 + inner.length) (Char.ofNat b.toNat))
      | _ :: bytes => .ok (inner, ⟨start.offset + inner.length + 2, bytes⟩)
    else
      match mode with
      | .xml => .error (.missingQuotes start.offset)
      | .html =>
        let inner := start.bytes.takeWhile (!Text.isBlankByte ·)
        .ok (inner, ⟨start.offset + inner.length, start.bytes.drop inner.length⟩)

theorem length_of_readValue {mode : Mode} {r rest : TagRest} {inner : Bytes}
    (h : readValue mode r = .ok (inner, rest)) : rest.bytes.length ≤ r.bytes.length := by
  have := r.length_skipBlank
  simp only [readValue] at h
  split at h
  · cases h
  · rename_i b bytes e
    split at h
    · rw [e] at this
      split at h
      · cases h
      · rename_i hd
        cases h
        have := congrArg List.length hd
        simp only [List.length_drop, List.length_cons] at *
        omega
    · split at h
      · cases h
      · cases h
        simp only [List.length_drop]
        omega

/-- The offset of an earlier occurrence of the key, where that is a mistake. -/
def previous? (mode : Mode) (seen : List (Bytes × Nat)) (key : Bytes) : Option Nat :=
  if mode = .xml then seen.lookup key else none

/-- The attribute whose key begins with `first`, and what follows it. The keys seen so far come
with their offsets. -/
def readAttribute (mode : Mode) (seen : List (Bytes × Nat)) (offset : Nat) (first : UInt8)
    (bytes : Bytes) : Except AttributeError (RawAttribute × TagRest) :=
  let key := first :: bytes.takeWhile (!endsKey ·)
  let next := ((TagRest.mk (offset + 1) bytes).dropWhile (!endsKey ·)).skipBlank
  match next.bytes with
  | 0x3D :: bytes =>
    match previous? mode seen key with
    | some previous => .error (.duplicate offset previous)
    | none =>
      (readValue mode ⟨next.offset + 1, bytes⟩).map fun (value, rest) => (⟨key, value⟩, rest)
  | _ => if mode = .html then .ok (⟨key, []⟩, next) else .error (.missingEquals next.offset)

theorem length_of_readAttribute {mode : Mode} {seen : List (Bytes × Nat)} {offset : Nat}
    {first : UInt8} {bytes : Bytes} {found : RawAttribute} {rest : TagRest}
    (h : readAttribute mode seen offset first bytes = .ok (found, rest)) :
    rest.bytes.length ≤ bytes.length := by
  have h₁ : _ ≤ bytes.length := (TagRest.mk (offset + 1) bytes).length_dropWhile (!endsKey ·)
  have h₂ := ((TagRest.mk (offset + 1) bytes).dropWhile (!endsKey ·)).length_skipBlank
  simp only [readAttribute] at h
  split at h
  · rename_i tail e
    rw [e, List.length_cons] at h₂
    split at h
    · cases h
    · cases hv : readValue mode ⟨_, tail⟩ with
      | error => rw [hv] at h; cases h
      | ok v =>
        rw [hv] at h
        cases h
        have : v.2.bytes.length ≤ tail.length := length_of_readValue hv
        omega
  · split at h
    · cases h
      omega
    · cases h

end TagRest

/-- The attributes up to the first mistake, and that mistake. -/
def attributesFrom (mode : Mode) (seen : List (Bytes × Nat)) (r : TagRest) :
    List RawAttribute × Option AttributeError :=
  match _h : r.skipBlank.bytes with
  | [] => ([], none)
  | first :: bytes =>
    match _h' : TagRest.readAttribute mode seen r.skipBlank.offset first bytes with
    | .error e => ([], some e)
    | .ok (found, rest) =>
      let (others, mistake) := attributesFrom mode ((found.key, r.skipBlank.offset) :: seen) rest
      (found :: others, mistake)
termination_by r.bytes.length
decreasing_by
  have := r.length_skipBlank
  have := TagRest.length_of_readAttribute _h'
  simp only [_h, List.length_cons] at *
  omega

/-- The attributes of a tag whose inside is `content`, of which the name takes `nameLength`
bytes. -/
def attributes (mode : Mode) (content : Bytes) (nameLength : Nat) :
    List RawAttribute × Option AttributeError :=
  attributesFrom mode [] ⟨nameLength, content.drop nameLength⟩

end MarkupGraft.Markup
