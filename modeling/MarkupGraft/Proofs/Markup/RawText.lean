import MarkupGraft.Markup.Tokenizer
import MarkupGraft.Proofs.Markup.Printing
import MarkupGraft.Proofs.Markup.Truncation

/-!
The inside of raw-text elements, which HTML writes and reads as it stands. It ends where the end tag of
its element begins, so a text can stand there in which no such end tag begins.
-/

namespace MarkupGraft

namespace Text

section
variable {α : Type} {p : List α → Bool} {l before rest : List α}

theorem splitWhere?_of_pos (h : p l) : splitWhere? p l = some ([], l) := by
  cases l <;> rw [splitWhere?, if_pos h]

private theorem splitWhere?_cons_iff {a b : α} :
    splitWhere? p (a :: l) = some (b :: before, rest) ↔
      a = b ∧ ¬p (a :: l) ∧ splitWhere? p l = some (before, rest) := by
  rw [splitWhere?]
  split
  · simp_all
  · rename_i hp
    simp only [Option.map_eq_some_iff, Prod.exists, Prod.mk.injEq, List.cons.injEq]
    constructor
    · rintro ⟨_, _, h, ⟨rfl, rfl⟩, rfl⟩
      exact ⟨rfl, hp, h⟩
    · rintro ⟨rfl, -, h⟩
      exact ⟨before, rest, h, ⟨rfl, rfl⟩, rfl⟩

/-- A place that is found nowhere in a sequence is found behind it, unless what follows makes one of
its ends such a place. -/
theorem splitWhere?_append (hl : splitWhere? p l = none) (hrest : p rest)
    (hends : ∀ a l', p (a :: l' ++ rest) = p (a :: l')) :
    splitWhere? p (l ++ rest) = some (l, rest) := by
  induction l with
  | nil => exact splitWhere?_of_pos hrest
  | cons a l ih =>
    rw [splitWhere?] at hl
    split at hl
    · cases hl
    · rename_i hp
      refine splitWhere?_cons_iff.mpr ⟨rfl, ?_, ih (Option.map_eq_none_iff.mp hl)⟩
      exact fun h => hp ((hends a l).symm.trans h)

section
variable (hp : ∀ l l', p l → p (l ++ l'))
include hp

/-- What follows the first place has no part in finding it, if the place can be told without it. -/
theorem splitWhere?_truncate {others : List α}
    (h : splitWhere? p (before ++ (rest ++ others)) = some (before, rest ++ others))
    (hrest : p rest) : splitWhere? p (before ++ rest) = some (before, rest) := by
  induction before with
  | nil => exact splitWhere?_of_pos hrest
  | cons b before ih =>
    obtain ⟨-, hno, h⟩ := splitWhere?_cons_iff.mp h
    refine splitWhere?_cons_iff.mpr ⟨rfl, fun hb => hno ?_, ih h⟩
    have hb : p (b :: before ++ rest ++ others) := hp _ others hb
    rwa [List.append_assoc] at hb

theorem splitWhere?_before (hnil : ¬p [])
    (h : splitWhere? p (before ++ rest) = some (before, rest)) : splitWhere? p before = none := by
  induction before with
  | nil => rw [splitWhere?, if_neg hnil]
  | cons b before ih =>
    obtain ⟨-, hno, h⟩ := splitWhere?_cons_iff.mp h
    rw [splitWhere?, if_neg fun hb => hno (hp _ rest hb), ih h]
    rfl

end
end

end Text

namespace Markup
open Text (encode encode_append)

/-! The letters of names -/

/-- The small form of a letter, and every other byte. -/
private def small (b : UInt8) : UInt8 := if 0x41 ≤ b ∧ b ≤ 0x5A then b + 0x20 else b

private theorem small_of_le {b : UInt8} (h : 128 ≤ b.toNat) : small b = b := by
  refine if_neg fun hb => ?_
  have := UInt8.le_iff_toNat_le.mp hb.2
  have hz : (0x5A : UInt8).toNat = 90 := rfl
  omega

private theorem eq_of_small {b c : UInt8} (h : small b = c) (hc : c.toNat < 0x61) : b = c := by
  unfold small at h
  split at h
  · rename_i hcapital
    have hfirst := UInt8.le_iff_toNat_le.mp hcapital.1
    have hlast := UInt8.le_iff_toNat_le.mp hcapital.2
    have hsum := congrArg UInt8.toNat h
    simp only [UInt8.toNat_add, UInt8.reduceToNat] at hfirst hlast hsum
    omega
  · exact h

private theorem encodeChar_toLower (c : Char) :
    String.utf8EncodeChar c.toLower = (String.utf8EncodeChar c).map small := by
  by_cases hc : c.toNat < 128
  · have hall : ∀ n < 128, String.utf8EncodeChar (Char.ofNat n).toLower =
        (String.utf8EncodeChar (Char.ofNat n)).map small := by decide +kernel
    have := hall c.toNat hc
    rwa [Char.ofNat_toNat] at this
  · have hlower : c.toLower = c := by
      refine dif_neg ?_
      rintro ⟨-, hz⟩
      have : c.toNat ≤ 90 := UInt32.le_iff_toNat_le.mp hz
      omega
    have hsmall : ∀ b ∈ String.utf8EncodeChar c, small b = id b := fun b hb =>
      small_of_le (Text.le_of_mem_encodeChar (by omega) hb)
    rw [hlower, List.map_congr_left hsmall, List.map_id]

private theorem encode_foldCase (name : String) :
    encode (foldCase name) = (encode name).map small := by
  simp [encode, foldCase, List.flatMap_map, List.map_flatMap, encodeChar_toLower]

/-! End tags -/

namespace Tokenizer

/-- The beginning of the end tag of the element named `name`, in lower case. -/
private def endMark (name : String) : Bytes := 0x3C :: 0x2F :: encode name

theorem beginsEndTag_iff {name : String} {bytes : Bytes} :
    beginsEndTag name bytes ↔ (bytes.take (endMark name).length).map small = endMark name := by
  have heq : beginsEndTag name bytes =
      (endMark name).isPrefixOf ((bytes.take (endMark name).length).map small) := rfl
  have hlength : ((bytes.take (endMark name).length).map small).length ≤ (endMark name).length := by
    rw [List.length_map, List.length_take]
    exact Nat.min_le_left _ _
  rw [heq, List.isPrefixOf_iff_prefix]
  constructor
  · intro h
    exact (h.eq_of_length_le hlength).symm
  · intro h
    exact h.symm ▸ List.prefix_rfl

theorem head?_of_beginsEndTag {name : String} {bytes : Bytes} (h : beginsEndTag name bytes) :
    bytes.head? = some 0x3C := by
  rw [beginsEndTag_iff] at h
  cases bytes with
  | nil => cases h
  | cons b bytes => rw [List.head?_cons, eq_of_small (List.cons.inj h).1 (by decide)]

/-- An end tag begins as the end tag of its element, whatever follows. -/
theorem beginsEndTag_endTag (name : String) (closes : Nat) (rest : Bytes) :
    beginsEndTag (foldCase name) (encode (TokenForm.markup (.endTag name closes)) ++ rest) := by
  rw [beginsEndTag_iff]
  have hmark : endMark (foldCase name) = (0x3C :: 0x2F :: encode name).map small := by
    rw [endMark, encode_foldCase]
    rfl
  have hbytes : encode (TokenForm.markup (.endTag name closes)) ++ rest =
      (0x3C :: 0x2F :: encode name) ++ ([0x3E] ++ rest) := by
    simp [TokenForm.encode_endTag]
  rw [hbytes, hmark, List.length_map, List.take_left]

/-- Whether an end tag begins in front of markup does not depend on the markup. -/
private theorem beginsEndTag_append {name : String} (hn : 0x3C ∉ encode name) {bytes rest : Bytes}
    (hne : bytes ≠ []) (hrest : rest.head? = some 0x3C) :
    beginsEndTag name (bytes ++ rest) = beginsEndTag name bytes := by
  by_cases hle : (endMark name).length ≤ bytes.length
  · rw [Bool.eq_iff_iff, beginsEndTag_iff, beginsEndTag_iff, List.take_append_of_le_length hle]
  · have hlt : bytes.length < (endMark name).length := by omega
    obtain ⟨b, bytes, rfl⟩ := List.exists_cons_of_ne_nil hne
    obtain ⟨rest, rfl⟩ : ∃ others, rest = 0x3C :: others := by
      cases rest with
      | nil => cases hrest
      | cons c others =>
        cases hrest
        exact ⟨others, rfl⟩
    have hno : ¬beginsEndTag name (b :: bytes) := by
      rw [beginsEndTag_iff]
      intro he
      have := congrArg List.length he
      rw [List.length_map, List.length_take] at this
      omega
    have hno' : ¬beginsEndTag name ((b :: bytes) ++ 0x3C :: rest) := by
      rw [beginsEndTag_iff]
      intro he
      obtain ⟨k, hk⟩ : ∃ k, (endMark name).length = (b :: bytes).length + (k + 1) :=
        ⟨(endMark name).length - (b :: bytes).length - 1, by omega⟩
      have hmem : (0x3C : UInt8) ∈ (endMark name).tail := by
        rw [← he, hk, List.take_length_add_append, List.take_succ_cons]
        simp [small]
      simp [endMark, hn] at hmem
    rw [Bool.eq_false_iff.mpr hno, Bool.eq_false_iff.mpr hno']

private theorem not_beginsEndTag {bytes : Bytes} (h : Reader.startsWithMark bytes) (name : String) :
    ¬beginsEndTag name bytes := by
  unfold Reader.startsWithMark at h
  split at h
  · simp [beginsEndTag, List.isPrefixOf]
  · cases h

/-- Behind raw text an end tag begins, if anything is left. -/
theorem beginsEndTag_splitRawText (name : String) (bytes : Bytes) :
    (splitRawText name bytes).2 = [] ∨
      beginsEndTag (foldCase name) (splitRawText name bytes).2 := by
  unfold splitRawText
  cases h : Text.splitWhere? (beginsEndTag (foldCase name)) bytes with
  | none => exact .inl rfl
  | some split => exact .inr (Text.of_splitWhere? h)

theorem startsWithMark_splitRawText (name : String) (bytes : Bytes) :
    ¬Reader.startsWithMark (splitRawText name bytes).2 := by
  rcases beginsEndTag_splitRawText name bytes with hnil | hbegins
  · rw [hnil]
    exact Bool.false_ne_true
  · exact fun hm => not_beginsEndTag hm _ hbegins

end Tokenizer

/-! Raw text -/

namespace Tokenizer

/-- Raw text ends in the same place when what follows is cut off, unless the mark that ends it is cut
apart. -/
theorem splitRawText_take {name : String} {bytes raw behind : Bytes} {n : Nat}
    (h : splitRawText name bytes = (raw, behind))
    (hn : n = raw.length ∨ raw.length + (endMark (foldCase name)).length ≤ n) :
    splitRawText name (bytes.take n) = (raw, behind.take (n - raw.length)) := by
  have happend := append_splitRawText name bytes
  rw [h] at happend
  obtain rfl : raw ++ behind = bytes := happend
  have hle : raw.length ≤ n := by omega
  have hp (l l' : Bytes) (hl : beginsEndTag (foldCase name) l) :
      beginsEndTag (foldCase name) (l ++ l') := by
    rw [beginsEndTag_iff] at hl ⊢
    have hlength := congrArg List.length hl
    rw [List.length_map, List.length_take] at hlength
    rwa [List.take_append_of_le_length (by omega)]
  have hnil : ¬beginsEndTag (foldCase name) [] := by simp [beginsEndTag]
  rw [List.take_append, List.take_of_length_le hle]
  rw [splitRawText] at h ⊢
  cases hsplit : Text.splitWhere? (beginsEndTag (foldCase name)) (raw ++ behind) with
  | none =>
    rw [hsplit] at h
    obtain ⟨hraw, rfl⟩ : raw ++ behind = raw ∧ [] = behind := Prod.mk.inj h
    rw [List.append_nil] at hsplit
    rw [List.take_nil, List.append_nil, hsplit]
    rfl
  | some split =>
    rw [hsplit] at h
    obtain rfl : split = (raw, behind) := h
    rcases hn with rfl | hn
    · rw [Nat.sub_self, List.take_zero, List.append_nil, Text.splitWhere?_before hp hnil hsplit]
      rfl
    · have hmark : beginsEndTag (foldCase name) (behind.take (n - raw.length)) := by
        have hbehind := Text.of_splitWhere? hsplit
        rw [beginsEndTag_iff] at hbehind ⊢
        rwa [List.take_take, Nat.min_eq_left (by omega)]
      have hwhole := hsplit
      rw [← List.take_append_drop (n - raw.length) behind] at hwhole
      rw [Text.splitWhere?_truncate hp hwhole hmark]
      rfl

/-- The tag behind raw text is read no further than it reaches, but all of the mark it begins with is
read. -/
theorem length_endMark_le {mode : Mode} {name : String} {bytes rest : Bytes} {piece : Piece}
    (hname : isRawTextElement name) (hbegins : beginsEndTag (foldCase name) bytes)
    (h : Piece.read? mode bytes = .ok (some (piece, rest))) :
    (endMark (foldCase name)).length ≤ piece.bytes.length := by
  have hmark := beginsEndTag_iff.mp hbegins
  refine Nat.le_of_not_lt fun hlt => ?_
  have hclose : (0x3E : UInt8) ∈ piece.bytes := by
    match bytes, hmark with
    | [], hmark => cases hmark
    | [b], hmark => simp [endMark] at hmark
    | b :: c :: bytes, hmark =>
      simp only [endMark, List.length_cons, List.take_succ_cons, List.map_cons,
        List.cons.injEq] at hmark
      obtain rfl := eq_of_small hmark.1 (by decide)
      obtain rfl := eq_of_small hmark.2.1 (by decide)
      exact Piece.mem_of_read?_tag (by decide) h
  have hprefix : piece.bytes <+: bytes.take (endMark (foldCase name)).length := by
    refine List.prefix_take_iff.mpr ⟨⟨rest, (Piece.append_of_read? h).1⟩, Nat.le_of_lt hlt⟩
  have hmem : (0x3E : UInt8) ∈ endMark (foldCase name) := by
    rw [← hmark]
    exact List.mem_map.mpr ⟨0x3E, hprefix.subset hclose, by decide⟩
  have hraw : foldCase name = "script" ∨ foldCase name = "style" := by
    simpa [isRawTextElement, rawTextElements] using hname
  rcases hraw with hfold | hfold <;> rw [hfold] at hmem <;> exact absurd hmem (by decide)

end Tokenizer

/-- Whether the end tag of the element named `name` begins nowhere in a text. -/
def IsRawText (name text : String) : Prop :=
  Text.splitWhere? (Tokenizer.beginsEndTag (foldCase name)) (encode text) = none

instance (name text : String) : Decidable (IsRawText name text) :=
  inferInstanceAs (Decidable (_ = none))

theorem isRawText_empty (name : String) : IsRawText name "" := by
  simp [IsRawText, Text.splitWhere?, Tokenizer.beginsEndTag]

/-- Raw text is cut off in front of the end tag of its element. -/
theorem splitRawText_encode {name text : String} (hn : IsWord name) (ht : IsRawText name text)
    (closes : Nat) (rest : Bytes) :
    Tokenizer.splitRawText name
        (encode text ++ (encode (TokenForm.markup (.endTag name closes)) ++ rest)) =
      (encode text, encode (TokenForm.markup (.endTag name closes)) ++ rest) := by
  have hless : 0x3C ∉ encode (foldCase name) := by
    rw [encode_foldCase]
    intro hm
    obtain ⟨b, hb, hs⟩ := List.mem_map.mp hm
    obtain rfl := eq_of_small hs (by decide)
    exact hn.not_mem_tagMarkBytes _ hb (by decide)
  have hhead : (encode (TokenForm.markup (.endTag name closes)) ++ rest).head? = some 0x3C := by
    rw [TokenForm.encode_endTag]
    rfl
  rw [Tokenizer.splitRawText, Text.splitWhere?_append ht
    (Tokenizer.beginsEndTag_endTag name closes rest) fun a l =>
      Tokenizer.beginsEndTag_append hless (List.cons_ne_nil a l) hhead]
  rfl

end Markup
end MarkupGraft
