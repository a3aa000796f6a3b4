import MarkupGraft.Text.Occurrence
import MarkupGraft.Markup.Error

/-!
How a byte sequence divides into pieces: runs of text, references, tags, comments and the like. A
piece is cut where its form ends, before its inside is looked at.
-/

namespace MarkupGraft.Markup

inductive PieceKind where
  | text
  | reference
  | characterData
  | comment
  | instruction
  | doctype
  | startTag
  | emptyTag
  | endTag
  deriving DecidableEq, Repr

/-- A piece with its delimiters. -/
structure Piece where
  kind : PieceKind
  bytes : Bytes
  deriving DecidableEq, Repr

/-- A mistake and its offset from the first byte of the piece. -/
abbrev PieceError := Nat × Malformation

namespace Piece

/-- The bytes of an ASCII text. -/
def ascii (text : String) : Bytes := text.toList.map fun c => UInt8.ofNat c.toNat

/-- The number of bytes through the first occurrence of `mark` that begins at or after `skip`. -/
def lengthThrough? (mark : Bytes) (skip : Nat) (bytes : Bytes) : Option Nat :=
  (Text.splitWhere? mark.isPrefixOf (bytes.drop skip)).map fun (before, _) =>
    skip + before.length + mark.length

/-- The number of bytes through the first `>` outside quotes, or the quote left open at the end. -/
def tagLength : (quote : Option UInt8) → Bytes → Except (Option UInt8) Nat
  | quote, [] => .error quote
  | some q, b :: bytes => (tagLength (if b = q then none else some q) bytes).map (· + 1)
  | none, b :: bytes =>
    if b = 0x3E then .ok 1
    else (tagLength (if b = 0x22 ∨ b = 0x27 then some b else none) bytes).map (· + 1)

/-- Where a reading of a document type declaration stands. -/
inductive DoctypeState where
  | outside
  | quoted (quote : UInt8)
  | subset
  /-- The given number of bytes still belongs to the opening mark. -/
  | subsetComment (skip : Nat)
  | subsetInstruction (skip : Nat)
  /-- Inside markup that ends at its first `>`. -/
  | subsetMarkup
  | subsetDeclaration (quote : Option UInt8)
  | afterSubset

/-- The state after an opening angle bracket inside the internal subset. Only in some declarations
do quotes protect a `>`. -/
def enterSubsetMarkup (bytes : Bytes) : DoctypeState :=
  if (ascii "!--").isPrefixOf bytes then .subsetComment 3
  else if (ascii "?").isPrefixOf bytes then .subsetInstruction 1
  else if (ascii "!ENTITY").isPrefixOf bytes || (ascii "!ATTLIST").isPrefixOf bytes ||
      (ascii "!NOTATION").isPrefixOf bytes then .subsetDeclaration none
  else .subsetMarkup

/-- The state after the first byte of a sequence; nothing when that byte ends the declaration. A
comment and an instruction end where their closing mark begins, its last byte being harmless in the
subset. -/
def DoctypeState.next? : DoctypeState → UInt8 → Bytes → Option DoctypeState
  | .outside, b, _ =>
    if b = 0x3E then none
    else if b = 0x5B then some .subset
    else if b = 0x22 ∨ b = 0x27 then some (.quoted b)
    else some .outside
  | .quoted q, b, _ => some (if b = q then .outside else .quoted q)
  | .subset, b, bytes =>
    some (if b = 0x5D then .afterSubset
      else if b = 0x3C then enterSubsetMarkup bytes
      else .subset)
  | .subsetComment (skip + 1), _, _ => some (.subsetComment skip)
  | .subsetComment 0, b, bytes =>
    some (if b = 0x2D ∧ (ascii "->").isPrefixOf bytes then .subset else .subsetComment 0)
  | .subsetInstruction (skip + 1), _, _ => some (.subsetInstruction skip)
  | .subsetInstruction 0, b, bytes =>
    some (if b = 0x3F ∧ (ascii ">").isPrefixOf bytes then .subset else .subsetInstruction 0)
  | .subsetMarkup, b, _ => some (if b = 0x3E then .subset else .subsetMarkup)
  | .subsetDeclaration (some q), b, _ => some (.subsetDeclaration (if b = q then none else some q))
  | .subsetDeclaration none, b, _ =>
    some (if b = 0x3E then .subset
      else .subsetDeclaration (if b = 0x22 ∨ b = 0x27 then some b else none))
  | .afterSubset, b, _ => if b = 0x3E then none else some .afterSubset

def doctypeLength? : DoctypeState → Bytes → Option Nat
  | _, [] => none
  | state, b :: bytes =>
    match state.next? b bytes with
    | none => some 1
    | some state => (doctypeLength? state bytes).map (· + 1)

/-- Letters compare without regard to case. -/
def startsIgnoringCase (start bytes : Bytes) : Bool :=
  start.isPrefixOf ((bytes.take start.length).map fun b =>
    if 0x61 ≤ b ∧ b ≤ 0x7A then b - 0x20 else b)

/-- The length of a piece of a given form, provided that it begins as the form demands. -/
def closed (kind : PieceKind) (begins : Bool) (length? : Option Nat)
    (mistake : Malformation) : Except PieceError (PieceKind × Nat) :=
  match length? with
  | some length => if begins then .ok (kind, length) else .error (0, mistake)
  | none => .error (0, mistake)

def measureDoctype (bytes : Bytes) : Except PieceError (PieceKind × Nat) := do
  let (kind, length) ← closed .doctype (startsIgnoringCase (ascii "<!DOCTYPE") bytes)
    ((doctypeLength? .outside (bytes.drop 1)).map (· + 1)) .openDoctype
  if (((bytes.take (length - 1)).drop 9).all Text.isBlankByte) then
    throw (length - 1, .namelessDoctype)
  pure (kind, length)

def measureInstruction (bytes : Bytes) : Except PieceError (PieceKind × Nat) :=
  match lengthThrough? (ascii "?>") 1 bytes with
  | some length => closed .instruction (length ≠ 3) (some length) .openInstruction
  | none =>
    let afterName := bytes.drop 5
    if (ascii "<?xml").isPrefixOf bytes ∧
        (afterName.head?.all fun b => Text.isBlankByte b || b = 0x3F) then
      .error (0, .openDeclaration)
    else .error (0, .openInstruction)

def measureTag (bytes : Bytes) : Except PieceError (PieceKind × Nat) :=
  match tagLength none (bytes.drop 1) with
  | .error none => .error (0, .openTag)
  | .error (some q) => .error (0, .openQuote (Char.ofNat q.toNat))
  | .ok length =>
    let kind : PieceKind :=
      if (ascii "</").isPrefixOf bytes then .endTag
      else if (bytes.drop (length - 1)).head? = some 0x2F then .emptyTag
      else .startTag
    .ok (kind, length + 1)

/-- The kind and length of the piece that begins with an opening angle bracket. -/
def measureMarkup (bytes : Bytes) : Except PieceError (PieceKind × Nat) :=
  match bytes.drop 1 with
  | 0x21 :: 0x5B :: _ =>
    closed .characterData ((ascii "<![CDATA[").isPrefixOf bytes)
      (lengthThrough? (ascii "]]>") 1 bytes) .openCharacterData
  | 0x21 :: 0x2D :: _ =>
    closed .comment ((ascii "<!--").isPrefixOf bytes)
      (lengthThrough? (ascii "-->") 4 bytes) .openComment
  | 0x21 :: 0x44 :: _ | 0x21 :: 0x64 :: _ => measureDoctype bytes
  | 0x21 :: _ => .error (0, .unknownMarkup)
  | 0x3F :: _ => measureInstruction bytes
  | _ => measureTag bytes

def endsReference (b : UInt8) : Bool := b = 0x3B || b = 0x26 || b = 0x3C

/-- The kind and length of the piece that begins with an ampersand. HTML takes an ampersand that
begins no reference for text. -/
def measureReference (mode : Mode) (bytes : Bytes) : Except PieceError (PieceKind × Nat) :=
  let body := (bytes.drop 1).takeWhile (!endsReference ·)
  match (bytes.drop (body.length + 1)).head?, mode with
  | some 0x3B, _ => .ok (.reference, body.length + 2)
  | _, .html => .ok (.text, body.length + 1)
  | _, .xml => .error (0, .openReference)

/-- The kind and length of the piece at the head of a sequence that is not empty. -/
def measure (mode : Mode) (bytes : Bytes) : Except PieceError (PieceKind × Nat) :=
  match bytes.head? with
  | some 0x3C => measureMarkup bytes
  | some 0x26 => measureReference mode bytes
  | _ => .ok (.text, (bytes.takeWhile fun b => b ≠ 0x3C && b ≠ 0x26).length)

/-- Cuts off the first piece, to which the first byte always belongs; nothing is left of an empty
sequence. -/
def read? (mode : Mode) : Bytes → Except PieceError (Option (Piece × Bytes))
  | [] => .ok none
  | b :: bytes =>
    (measure mode (b :: bytes)).map fun (kind, length) =>
      some (⟨kind, b :: bytes.take (length - 1)⟩, bytes.drop (length - 1))

theorem append_of_read? {mode : Mode} {bytes rest : Bytes} {piece : Piece}
    (h : read? mode bytes = .ok (some (piece, rest))) :
    piece.bytes ++ rest = bytes ∧ piece.bytes ≠ [] := by
  cases bytes with
  | nil => cases h
  | cons b bytes =>
    cases hm : measure mode (b :: bytes) with
    | error => rw [read?, hm] at h; cases h
    | ok m =>
      rw [read?, hm] at h
      cases h
      simp

theorem length_of_read? {mode : Mode} {bytes rest : Bytes} {piece : Piece}
    (h : read? mode bytes = .ok (some (piece, rest))) : rest.length < bytes.length := by
  obtain ⟨rfl, hne⟩ := append_of_read? h
  have := List.length_pos_iff.mpr hne
  simp only [List.length_append]
  omega

end Piece
end MarkupGraft.Markup
