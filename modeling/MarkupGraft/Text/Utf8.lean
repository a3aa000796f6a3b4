/-!
UTF-8 text in byte sequences: the longest valid beginning, strict reading that reports where the
first invalid sequence begins, and lossy reading.
-/

namespace MarkupGraft

/-- A sequence of octets. -/
abbrev Bytes := List UInt8

namespace Text

/-- The character whose encoding begins the sequence. -/
def firstChar? (bytes : Bytes) : Option Char :=
  ByteArray.utf8DecodeChar? (bytes.take 4).toByteArray 0

/-- The characters of the longest valid beginning and what follows it: nothing, or an invalid
sequence. -/
def validBeginning (bytes : Bytes) : List Char × Bytes :=
  match bytes with
  | [] => ([], [])
  | byte :: bytes =>
    match firstChar? (byte :: bytes) with
    | none => ([], byte :: bytes)
    | some c =>
      let (chars, rest) := validBeginning ((byte :: bytes).drop c.utf8Size)
      (c :: chars, rest)
termination_by bytes.length
decreasing_by
  have := c.utf8Size_pos
  simp only [List.length_drop, List.length_cons]
  omega

theorem length_validBeginning_le (bytes : Bytes) :
    (validBeginning bytes).2.length ≤ bytes.length := by
  fun_induction validBeginning bytes with
  | case1 => simp
  | case2 => simp
  | case3 byte bytes c _ chars rest h ih =>
    rw [h] at ih
    exact Nat.le_trans ih (by simp)

/-- The text of a valid sequence, or the offset at which the first invalid sequence begins. -/
def decode (bytes : Bytes) : Except Nat String :=
  match validBeginning bytes with
  | (chars, []) => .ok (String.ofList chars)
  | (_, rest) => .error (bytes.length - rest.length)

def encode (text : String) : Bytes :=
  text.toList.flatMap String.utf8EncodeChar

/-- How many continuation bytes follow a lead byte, and the range of the first of them. -/
def continuation? (lead : UInt8) : Option (Nat × UInt8 × UInt8) :=
  if lead < 0xC2 then none
  else if lead ≤ 0xDF then some (1, 0x80, 0xBF)
  else if lead = 0xE0 then some (2, 0xA0, 0xBF)
  else if lead = 0xED then some (2, 0x80, 0x9F)
  else if lead ≤ 0xEF then some (2, 0x80, 0xBF)
  else if lead = 0xF0 then some (3, 0x90, 0xBF)
  else if lead ≤ 0xF3 then some (3, 0x80, 0xBF)
  else if lead = 0xF4 then some (3, 0x80, 0x8F)
  else none

/-- The length of the longest beginning of an invalid sequence that begins some valid sequence, at
least one byte. -/
def invalidLength : Bytes → Nat
  | [] => 0
  | lead :: rest =>
    match continuation? lead, rest with
    | some (count, low, high), second :: rest =>
      if low ≤ second && second ≤ high then
        2 + ((rest.take (count - 1)).takeWhile fun b => 0x80 ≤ b && b ≤ 0xBF).length
      else 1
    | _, _ => 1

/-- Reads any sequence, with one replacement character for each maximal invalid part. -/
def decodeLossyChars (bytes : Bytes) : List Char :=
  match _h : validBeginning bytes with
  | (chars, []) => chars
  | (chars, byte :: rest) =>
    let skipped := max 1 (invalidLength (byte :: rest))
    chars ++ '\uFFFD' :: decodeLossyChars ((byte :: rest).drop skipped)
termination_by bytes.length
decreasing_by
  have := length_validBeginning_le bytes
  simp only [_h, List.length_cons] at this
  simp only [List.length_drop, List.length_cons]
  omega

def decodeLossy (bytes : Bytes) : String :=
  String.ofList (decodeLossyChars bytes)

end Text
end MarkupGraft
