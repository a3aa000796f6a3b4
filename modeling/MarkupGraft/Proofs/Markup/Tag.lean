import MarkupGraft.Markup.Token
import MarkupGraft.Proofs.Markup.Piece
import MarkupGraft.Proofs.Markup.Reference

/-!
The inside of a tag as it is written: a name and attributes with escaped values. It is measured to
its end and read as it was written.
-/

namespace MarkupGraft.Markup
open Text (encode encode_append)

/-! Words -/

/-- The characters that tags are read by. -/
def tagMarks : List Char :=
  [' ', '\t', '\r', '\n', '=', '/', '<', '>', '&', '\'', '"', '!', '?']

/-- A name that can be read back from a tag. -/
def IsWord (name : String) : Prop := name ≠ "" ∧ ∀ c ∈ name.toList, c ∉ tagMarks

def tagMarkBytes : Bytes := tagMarks.map fun c => UInt8.ofNat c.toNat

theorem IsWord.not_mem_tagMarkBytes {name : String} (h : IsWord name) :
    ∀ b ∈ encode name, b ∉ tagMarkBytes := by
  intro b hb hm
  obtain ⟨c, hc, rfl⟩ := List.mem_map.mp hm
  have hascii : ∀ c ∈ tagMarks, c.toNat < 128 := by simp [tagMarks]
  exact h.2 c (Text.mem_of_mem_encode (hascii c hc) hb) hc

theorem IsWord.not_isBlankByte {name : String} (h : IsWord name) :
    ∀ b ∈ encode name, ¬Text.isBlankByte b := by
  intro b hb hblank
  refine h.not_mem_tagMarkBytes b hb ?_
  simp only [Text.isBlankByte, Bool.or_eq_true, decide_eq_true_eq] at hblank
  rcases hblank with ((rfl | rfl) | rfl) | rfl <;> decide

/-! Tags -/

/-- The markup of an attribute, with the blank in front of it. -/
def Attribute.markup (a : Attribute) : String :=
  " " ++ (a.key ++ "=\"" ++ escape a.value ++ "\"")

def Attribute.bytes (a : Attribute) : Bytes :=
  0x20 :: (encode a.key ++ 0x3D :: 0x22 :: (encode (escape a.value) ++ [0x22]))

theorem Attribute.encode_markup (a : Attribute) : encode a.markup = a.bytes := by
  have hequals : encode "=\"" = [0x3D, 0x22] := by decide
  have hquote : encode "\"" = [0x22] := by decide
  have hblank : encode " " = [0x20] := by decide
  simp [markup, bytes, hequals, hquote, hblank]

theorem encode_intercalate (texts : List String) :
    encode ("".intercalate texts) = texts.flatMap encode := by
  induction texts with
  | nil => rfl
  | cons t texts ih =>
    cases texts with
    | nil => simp
    | cons u texts =>
      rw [String.intercalate_cons_cons, encode_append, ih]
      simp

/-- The attributes of a tag, as they stand behind its name. -/
def attributesMarkup (attributes : List Attribute) : String :=
  "".intercalate (attributes.map Attribute.markup)

theorem encode_attributesMarkup (attributes : List Attribute) :
    encode (attributesMarkup attributes) = attributes.flatMap Attribute.bytes := by
  rw [attributesMarkup, encode_intercalate, List.flatMap_map]
  simp only [Attribute.encode_markup]

/-- What stands inside a start tag. -/
def tagInside (name : String) (attributes : List Attribute) : Bytes :=
  encode name ++ attributes.flatMap Attribute.bytes

theorem not_mem_escape {c : Char} (hc : c = '<' ∨ c = '>' ∨ c = '\'' ∨ c = '"') (text : String) :
    c ∉ (escape text).toList := by
  intro hm
  rw [escape, String.toList_ofList, List.mem_flatMap] at hm
  obtain ⟨e, -, he⟩ := hm
  unfold escapeChar at he
  split at he <;> rcases hc with rfl | rfl | rfl | rfl <;> simp_all [eq_comm]

theorem quote_not_mem_escape (text : String) : 0x22 ∉ encode (escape text) := fun h =>
  not_mem_escape (.inr (.inr (.inr rfl))) text (Text.mem_of_mem_encode (c := '"') (by decide) h)

/-- Behind these bytes a tag goes on where no quote is open. -/
def Unquoted (bytes : Bytes) : Prop :=
  ∀ rest, Piece.tagLength none (bytes ++ rest) =
    (Piece.tagLength none rest).map (· + bytes.length)

private theorem map_add {result : Except (Option UInt8) Nat} (m n : Nat) :
    (result.map (· + m)).map (· + n) = result.map (· + (n + m)) := by
  cases result with
  | error => rfl
  | ok k =>
    have : k + m + n = k + (n + m) := by omega
    exact congrArg Except.ok this

theorem Unquoted.append {a b : Bytes} (ha : Unquoted a) (hb : Unquoted b) :
    Unquoted (a ++ b) := by
  intro rest
  rw [List.append_assoc, ha, hb, map_add, List.length_append]

theorem unquoted_plain {bytes : Bytes}
    (h : ∀ b ∈ bytes, b ≠ 0x3E ∧ b ≠ 0x22 ∧ b ≠ 0x27) : Unquoted bytes := by
  intro rest
  induction bytes with
  | nil => cases h : Piece.tagLength none rest <;> simp [h, Except.map]
  | cons b bytes ih =>
    obtain ⟨⟨h₁, h₂, h₃⟩, hbytes⟩ := List.forall_mem_cons.mp h
    rw [List.cons_append, Piece.tagLength, if_neg h₁, if_neg (by simp [h₂, h₃]), ih hbytes,
      map_add, List.length_cons, Nat.add_comm]

private theorem tagLength_quoted {q : UInt8} {inner : Bytes} (h : q ∉ inner) (rest : Bytes) :
    Piece.tagLength (some q) (inner ++ q :: rest) =
      (Piece.tagLength none rest).map (· + (inner.length + 1)) := by
  induction inner with
  | nil => rw [List.nil_append, Piece.tagLength, if_pos rfl]; rfl
  | cons b inner ih =>
    rw [List.mem_cons, not_or] at h
    rw [List.cons_append, Piece.tagLength, if_neg (Ne.symm h.1), ih h.2, map_add, List.length_cons,
      Nat.add_comm]

private theorem unquoted_quoted {inner : Bytes} (h : 0x22 ∉ inner) :
    Unquoted (0x22 :: (inner ++ [0x22])) := by
  intro rest
  rw [List.cons_append, List.append_assoc, List.singleton_append, Piece.tagLength,
    if_neg (by decide), if_pos (by decide), tagLength_quoted h, map_add]
  simp [Nat.add_comm]

theorem IsWord.unquoted {name : String} (h : IsWord name) : Unquoted (encode name) := by
  refine unquoted_plain fun b hb => ?_
  have := h.not_mem_tagMarkBytes b hb
  refine ⟨?_, ?_, ?_⟩ <;> rintro rfl <;> exact this (by decide)

theorem Attribute.unquoted {a : Attribute} (h : IsWord a.key) : Unquoted a.bytes := by
  have hbytes : a.bytes = [0x20] ++ (encode a.key ++ ([0x3D] ++
      (0x22 :: (encode (escape a.value) ++ [0x22])))) := rfl
  rw [hbytes]
  exact (unquoted_plain (by simp)).append (h.unquoted.append
    ((unquoted_plain (by simp)).append (unquoted_quoted (quote_not_mem_escape a.value))))

theorem unquoted_tagInside {name : String} {attributes : List Attribute} (hn : IsWord name)
    (ha : ∀ a ∈ attributes, IsWord a.key) : Unquoted (tagInside name attributes) := by
  refine hn.unquoted.append ?_
  induction attributes with
  | nil => exact unquoted_plain (by simp)
  | cons a attributes ih =>
    obtain ⟨h, hrest⟩ := List.forall_mem_cons.mp ha
    rw [List.flatMap_cons]
    exact a.unquoted h |>.append (ih hrest)

theorem Unquoted.tagLength {bytes : Bytes} (h : Unquoted bytes) (rest : Bytes) :
    Piece.tagLength none (bytes ++ 0x3E :: rest) = .ok (bytes.length + 1) := by
  rw [h, Piece.tagLength, if_pos rfl]
  simp [Except.map, Nat.add_comm]

/-! The inside of a tag -/

/-- What is read of an attribute before its references are resolved. -/
def Attribute.raw (a : Attribute) : RawAttribute := ⟨encode a.key, encode (escape a.value)⟩

namespace TagRest

private theorem dropWhile_append {p : UInt8 → Bool} {skipped : Bytes} {b : UInt8}
    (h : ∀ x ∈ skipped, p x) (hb : ¬p b) (offset : Nat) (rest : Bytes) :
    (TagRest.mk offset (skipped ++ b :: rest)).dropWhile p =
      ⟨offset + skipped.length, b :: rest⟩ := by
  have htake : (skipped ++ b :: rest).takeWhile p = skipped := by
    rw [List.takeWhile_append_of_pos h, List.takeWhile_cons_of_neg hb, List.append_nil]
  simp [dropWhile, htake]

private theorem skipBlank_cons {b : UInt8} (h : ¬Text.isBlankByte b) (offset : Nat)
    (rest : Bytes) : (TagRest.mk offset (b :: rest)).skipBlank = ⟨offset, b :: rest⟩ :=
  dropWhile_append (List.forall_mem_nil _) h offset rest

private theorem readValue_quoted {inner : Bytes} (h : 0x22 ∉ inner) (mode : Mode) (offset : Nat)
    (rest : Bytes) : ∃ next, readValue mode ⟨offset, 0x22 :: (inner ++ 0x22 :: rest)⟩ =
      .ok (inner, ⟨next, rest⟩) := by
  have htake : (inner ++ 0x22 :: rest).takeWhile (· ≠ 0x22) = inner := by
    rw [List.takeWhile_append_of_pos, List.takeWhile_cons_of_neg (by simp), List.append_nil]
    intro b hb
    have hne : b ≠ 0x22 := fun he => h (he ▸ hb)
    simpa using hne
  refine ⟨offset + inner.length + 2, ?_⟩
  simp only [readValue, skipBlank_cons (b := 0x22) (by decide)]
  rw [if_pos (by decide), htake]
  simp

/-- An attribute is read as it was written, unless its key has occurred before. -/
theorem readAttribute_bytes {a : Attribute} {first : UInt8} {key : Bytes} (h : IsWord a.key)
    (hkey : encode a.key = first :: key) {mode : Mode} {seen : List (Bytes × Nat)}
    (hnew : mode = .xml → seen.lookup (encode a.key) = none) (offset : Nat) (rest : Bytes) :
    ∃ next, readAttribute mode seen offset first
      (key ++ 0x3D :: 0x22 :: (encode (escape a.value) ++ 0x22 :: rest)) =
        .ok (a.raw, ⟨next, rest⟩) := by
  have hends : ∀ b ∈ key, !endsKey b := by
    intro b hb
    have := h.not_mem_tagMarkBytes b (hkey ▸ List.mem_cons_of_mem _ hb)
    simp only [endsKey, Text.isBlankByte, Bool.not_eq_true', Bool.or_eq_false_iff,
      decide_eq_false_iff_not]
    refine ⟨?_, ⟨⟨?_, ?_⟩, ?_⟩, ?_⟩ <;> rintro rfl <;> exact this (by decide)
  have htake : (key ++ 0x3D :: 0x22 :: (encode (escape a.value) ++ 0x22 :: rest)).takeWhile
      (!endsKey ·) = key := by
    rw [List.takeWhile_append_of_pos hends, List.takeWhile_cons_of_neg (by decide), List.append_nil]
  obtain ⟨next, hvalue⟩ := readValue_quoted (quote_not_mem_escape a.value) mode
    (offset + 1 + key.length + 1) rest
  have hprevious : previous? mode seen (encode a.key) = none := by
    unfold previous?
    split
    · exact hnew ‹_›
    · rfl
  refine ⟨next, ?_⟩
  simp only [readAttribute, htake, dropWhile_append hends (by decide : ¬(!endsKey 0x3D) = true),
    skipBlank_cons (b := 0x3D) (by decide), ← hkey, hprevious]
  rw [hvalue]
  rfl

end TagRest

private theorem skipBlank_bytes {a : Attribute} (h : IsWord a.key) (offset : Nat) (rest : Bytes) :
    ∃ first key, encode a.key = first :: key ∧
      (TagRest.mk offset (a.bytes ++ rest)).skipBlank = ⟨offset + 1,
        first :: (key ++ 0x3D :: 0x22 :: (encode (escape a.value) ++ 0x22 :: rest))⟩ := by
  cases hkey : encode a.key with
  | nil => exact absurd hkey (Text.encode_ne_nil h.1)
  | cons first key =>
    refine ⟨first, key, rfl, ?_⟩
    have hfirst : ¬Text.isBlankByte first :=
      h.not_isBlankByte first (hkey ▸ List.mem_cons_self)
    have hbytes : a.bytes ++ rest = [0x20] ++ first :: (key ++
        0x3D :: 0x22 :: (encode (escape a.value) ++ 0x22 :: rest)) := by
      simp [Attribute.bytes, hkey]
    rw [hbytes]
    exact TagRest.dropWhile_append (by simp [Text.isBlankByte]) hfirst offset _

/-- Behind an attribute that has been read its key counts as seen. -/
private theorem attributesFrom_cons {mode : Mode} {seen : List (Bytes × Nat)} {r rest : TagRest}
    {offset : Nat} {first : UInt8} {bytes : Bytes} {found : RawAttribute}
    (hskip : r.skipBlank = ⟨offset, first :: bytes⟩)
    (hread : TagRest.readAttribute mode seen offset first bytes = .ok (found, rest)) :
    attributesFrom mode seen r =
      (found :: (attributesFrom mode ((found.key, offset) :: seen) rest).1,
        (attributesFrom mode ((found.key, offset) :: seen) rest).2) := by
  rw [attributesFrom]
  split
  · rename_i he
    rw [hskip] at he
    cases he
  · rename_i he
    rw [hskip] at he
    cases he
    split
    · rename_i hm
      rw [hskip, hread] at hm
      cases hm
    · rename_i hm
      rw [hskip, hread] at hm
      cases hm
      rw [hskip]

/-- The attributes of a tag are read in their order. -/
theorem attributesFrom_bytes {mode : Mode} {as : List Attribute} (ha : ∀ a ∈ as, IsWord a.key)
    (hd : mode = .xml → (as.map (·.key)).Nodup) {seen : List (Bytes × Nat)}
    (hnew : mode = .xml → ∀ a ∈ as, seen.lookup (encode a.key) = none) (offset : Nat) :
    attributesFrom mode seen ⟨offset, as.flatMap Attribute.bytes⟩ =
      (as.map Attribute.raw, none) := by
  induction as generalizing seen offset with
  | nil =>
    rw [attributesFrom]
    rfl
  | cons a as ih =>
    obtain ⟨h, hrest⟩ := List.forall_mem_cons.mp ha
    have hseen (hm : mode = .xml) : seen.lookup (encode a.key) = none :=
      hnew hm a List.mem_cons_self
    obtain ⟨first, key, hkey, hskip⟩ :=
      skipBlank_bytes h offset (as.flatMap Attribute.bytes)
    obtain ⟨next, hread⟩ := TagRest.readAttribute_bytes h hkey hseen (offset + 1)
      (as.flatMap Attribute.bytes)
    have hunseen (hm : mode = .xml) :
        ∀ b ∈ as, ((a.raw.key, offset + 1) :: seen).lookup (encode b.key) = none := by
      intro b hb
      have hfresh := (List.nodup_cons.mp (hd hm)).1
      have hne : (encode b.key == a.raw.key) = false := by
        simp only [beq_eq_false_iff_ne]
        exact fun he => hfresh (List.mem_map.mpr ⟨b, hb, Text.encode_injective he⟩)
      rw [List.lookup_cons, hne]
      exact hnew hm b (List.mem_cons_of_mem _ hb)
    rw [List.flatMap_cons, attributesFrom_cons hskip hread,
      ih hrest (fun hm => (List.nodup_cons.mp (hd hm)).2) hunseen next]
    rfl

namespace Reader

theorem decodeAt_encode (position : Nat) (text : String) :
    decodeAt position (encode text) = .ok text := by
  rw [decodeAt, Text.decode_encode]
  rfl

/-- Escaped text is read back in either mode. -/
theorem unescapeAt_escape (mode : Mode) (position : Nat) (text : String) :
    unescapeAt mode position (escape text) = .ok text := by
  cases mode with
  | xml =>
    rw [unescapeAt, unescape_escape]
    rfl
  | html => rw [unescapeAt, unescapeLeniently_escape]

private theorem readAttribute_raw (mode : Mode) (position : Nat) (a : Attribute) :
    readAttribute mode position a.raw = .ok a := by
  simp only [readAttribute, Attribute.raw, decodeAt_encode, bind, Except.bind, unescapeAt_escape]
  rfl

private theorem mapM_readAttribute (mode : Mode) (position : Nat) (as : List Attribute) :
    (as.map Attribute.raw).mapM (readAttribute mode position) = .ok as := by
  induction as with
  | nil => rfl
  | cons a as ih =>
    rw [List.map_cons, List.mapM_cons, readAttribute_raw, ih]
    rfl

private theorem takeWhile_tagInside {name : String} (h : IsWord name) (as : List Attribute) :
    (tagInside name as).takeWhile (!Text.isBlankByte ·) = encode name := by
  have hname : ∀ b ∈ encode name, !Text.isBlankByte b := fun b hb => by
    simpa using h.not_isBlankByte b hb
  rw [tagInside, List.takeWhile_append_of_pos hname]
  cases as with
  | nil => simp
  | cons a as =>
    rw [List.flatMap_cons, Attribute.bytes, List.cons_append,
      List.takeWhile_cons_of_neg (by decide), List.append_nil]

/-- A tag is read as it was written. -/
theorem readTag_tagInside {mode : Mode} {name : String} {as : List Attribute} (hn : IsWord name)
    (ha : ∀ a ∈ as, IsWord a.key) (hd : mode = .xml → (as.map (·.key)).Nodup) (position : Nat) :
    readTag mode position (tagInside name as) = .ok (name, as) := by
  have hattributes : attributes mode (tagInside name as) (encode name).length =
      (as.map Attribute.raw, none) := by
    rw [attributes, tagInside, List.drop_left]
    exact attributesFrom_bytes ha hd (by simp) _
  simp only [readTag, takeWhile_tagInside hn, hattributes, decodeAt_encode, mapM_readAttribute,
    bind, Except.bind]
  rfl

theorem endTagName_encode {name : String} (h : IsWord name) :
    endTagName (encode name) = encode name := by
  have hdrop : Text.dropEndWhile Text.isBlankByte (encode name) = encode name := by
    have hnone : ∀ b ∈ (encode name).reverse, ¬Text.isBlankByte b := fun b hb =>
      h.not_isBlankByte b (List.mem_reverse.mp hb)
    have hsame : (encode name).reverse.dropWhile Text.isBlankByte = (encode name).reverse := by
      cases hr : (encode name).reverse with
      | nil => rfl
      | cons b bytes => exact List.dropWhile_cons_of_neg (hnone b (hr ▸ List.mem_cons_self))
    rw [Text.dropEndWhile, hsame, List.reverse_reverse]
  rw [endTagName, hdrop]
  cases encode name <;> rfl

end Reader

/-! Tags as pieces -/

namespace Piece

theorem measureMarkup_tag {first : UInt8} (h : first ≠ 0x21 ∧ first ≠ 0x3F)
    (rest : Bytes) :
    measureMarkup (0x3C :: first :: rest) = measureTag (0x3C :: first :: rest) := by
  unfold measureMarkup
  split <;> first | rfl | (rename_i he; cases he; simp at h)

/-- The last byte of an opening tag tells whether it is empty. -/
theorem measureTag_inside {inside start : Bytes} {final : UInt8}
    (hstart : inside.head? ≠ some 0x2F) (hu : Unquoted inside) (hfinal : inside = start ++ [final])
    (rest : Bytes) : measureTag (0x3C :: (inside ++ 0x3E :: rest)) =
      .ok (if final = 0x2F then .emptyTag else .startTag, inside.length + 2) := by
  have hdrop : (0x3C :: (inside ++ 0x3E :: rest)).drop inside.length = final :: 0x3E :: rest := by
    rw [hfinal, List.length_append, List.length_singleton, List.drop_succ_cons, List.append_assoc,
      List.drop_left]
    rfl
  have hend : (ascii "</").isPrefixOf (0x3C :: (inside ++ 0x3E :: rest)) = false := by
    cases hi : inside with
    | nil => simp [hi] at hfinal
    | cons b inside =>
      have hb : b ≠ 0x2F := by simpa [hi] using hstart
      have hmark : ascii "</" = [0x3C, 0x2F] := by decide
      simp [hmark, List.isPrefixOf, hb.symm]
  simp only [measureTag, List.drop_succ_cons, List.drop_zero, hu.tagLength, hend,
    Nat.add_sub_cancel, hdrop, List.head?_cons]
  simp

theorem measureTag_end {name : Bytes} (hu : Unquoted name) (rest : Bytes) :
    measureTag (0x3C :: 0x2F :: (name ++ 0x3E :: rest)) = .ok (.endTag, name.length + 3) := by
  have hslash : tagLength none (0x2F :: (name ++ 0x3E :: rest)) = .ok (name.length + 2) := by
    rw [tagLength, if_neg (by decide), if_neg (by decide), hu.tagLength]
    rfl
  have hend : (ascii "</").isPrefixOf (0x3C :: 0x2F :: (name ++ 0x3E :: rest)) = true := by
    have hmark : ascii "</" = [0x3C, 0x2F] := by decide
    simp [hmark, List.isPrefixOf]
  simp [measureTag, hslash, hend]

end Piece

end MarkupGraft.Markup
