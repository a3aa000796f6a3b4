import MarkupGraft.Text.Utf8

/-! Encoded text is read back, and what is read is encoded as it stood. -/

namespace MarkupGraft.Text

@[simp] theorem encode_append (a b : String) : encode (a ++ b) = encode a ++ encode b := by
  simp [encode]

@[simp] theorem encode_empty : encode "" = [] := rfl

/-- A character below 128 is its own byte. -/
theorem encodeChar_ascii {c : Char} (h : c.toNat < 128) :
    String.utf8EncodeChar c = [UInt8.ofNat c.toNat] := by
  rw [String.utf8EncodeChar, if_pos (by exact Nat.le_of_lt_succ h)]
  rfl

/-- All bytes of other characters are at least 128. -/
theorem le_of_mem_encodeChar {c : Char} (h : 128 ≤ c.toNat) {b : UInt8}
    (hb : b ∈ String.utf8EncodeChar c) : 128 ≤ b.toNat := by
  have hv : c.toNat = c.val.toNat := rfl
  rw [hv] at h
  have hsmall : ¬c.val.toNat ≤ 0x7F := by omega
  simp only [String.utf8EncodeChar, hsmall, if_false] at hb
  split at hb
  · simp only [List.mem_cons, List.not_mem_nil, or_false] at hb
    rcases hb with rfl | rfl <;> simp only [UInt8.toNat_ofNat'] <;> omega
  · split at hb
    · simp only [List.mem_cons, List.not_mem_nil, or_false] at hb
      rcases hb with rfl | rfl | rfl <;> simp only [UInt8.toNat_ofNat'] <;> omega
    · simp only [List.mem_cons, List.not_mem_nil, or_false] at hb
      rcases hb with rfl | rfl | rfl | rfl <;> simp only [UInt8.toNat_ofNat'] <;> omega

/-- A byte below 128 stands for a character of its own. -/
theorem exists_char_of_mem_encode {text : String} {b : UInt8} (hb : b ∈ encode text)
    (h : b.toNat < 128) : ∃ c ∈ text.toList, c.toNat = b.toNat := by
  obtain ⟨c, hc, hb⟩ := List.mem_flatMap.mp hb
  refine ⟨c, hc, ?_⟩
  by_cases hs : c.toNat < 128
  · rw [encodeChar_ascii hs, List.mem_singleton] at hb
    rw [hb, UInt8.toNat_ofNat']
    omega
  · have := le_of_mem_encodeChar (by omega) hb
    omega

/-- An ASCII byte of encoded text is a character of the text. -/
theorem mem_of_mem_encode {text : String} {c : Char} (hc : c.toNat < 128)
    (h : UInt8.ofNat c.toNat ∈ encode text) : c ∈ text.toList := by
  have hb : (UInt8.ofNat c.toNat).toNat = c.toNat := by
    rw [UInt8.toNat_ofNat']
    omega
  obtain ⟨c', hc', he⟩ := exists_char_of_mem_encode h (by omega)
  rw [hb] at he
  rwa [← Char.toNat_inj.mp he]

/-! Reading -/

theorem firstChar?_encodeChar (c : Char) (rest : Bytes) :
    firstChar? (String.utf8EncodeChar c ++ rest) = some c := by
  have hle : (String.utf8EncodeChar c).length ≤ 4 := by
    rw [String.length_utf8EncodeChar]
    exact c.utf8Size_le_four
  rw [firstChar?, List.take_append, List.take_of_length_le hle, List.toByteArray_append]
  exact ByteArray.utf8DecodeChar?_utf8EncodeChar_append

/-- Reading goes on behind an encoded character. -/
theorem validBeginning_encodeChar (c : Char) (rest : Bytes) :
    validBeginning (String.utf8EncodeChar c ++ rest) =
      (c :: (validBeginning rest).1, (validBeginning rest).2) := by
  cases hb : String.utf8EncodeChar c ++ rest with
  | nil => simp [String.utf8EncodeChar_ne_nil] at hb
  | cons byte bytes =>
    have hfirst := firstChar?_encodeChar c rest
    have hdrop : (String.utf8EncodeChar c ++ rest).drop c.utf8Size = rest := by
      rw [← String.length_utf8EncodeChar c, List.drop_left]
    rw [hb] at hfirst hdrop
    rw [validBeginning, hfirst]
    simp only [hdrop]

theorem validBeginning_encode (chars : List Char) :
    validBeginning (chars.flatMap String.utf8EncodeChar) = (chars, []) := by
  induction chars with
  | nil => rw [List.flatMap_nil, validBeginning]
  | cons c chars ih => rw [List.flatMap_cons, validBeginning_encodeChar, ih]

@[simp] theorem decode_encode (text : String) : decode (encode text) = .ok text := by
  rw [decode, encode, validBeginning_encode]
  simp

@[simp] theorem decodeLossy_encode (text : String) : decodeLossy (encode text) = text := by
  rw [decodeLossy, decodeLossyChars, encode, validBeginning_encode]
  simp

theorem encode_injective {a b : String} (h : encode a = encode b) : a = b := by
  have := congrArg decode h
  rw [decode_encode, decode_encode] at this
  exact Except.ok.inj this

theorem encode_ne_nil {text : String} (h : text ≠ "") : encode text ≠ [] :=
  fun he => h (encode_injective (he.trans encode_empty.symm))

theorem encode_firstChar {bytes : Bytes} {c : Char} (h : firstChar? bytes = some c) :
    String.utf8EncodeChar c ++ bytes.drop c.utf8Size = bytes := by
  obtain ⟨rest, hrest⟩ := ByteArray.exists_of_utf8DecodeChar?_eq_some h
  have hdata := congrArg (·.data.toList) hrest
  simp only [List.data_toByteArray, ByteArray.data_append, Array.toList_append] at hdata
  have hbytes : bytes = String.utf8EncodeChar c ++ (rest.data.toList ++ bytes.drop 4) := by
    rw [← List.append_assoc, ← hdata, List.take_append_drop]
  rw [← String.length_utf8EncodeChar c]
  generalize hn : String.utf8EncodeChar c = encoded at *
  rw [hbytes, List.drop_left]

theorem append_validBeginning (bytes : Bytes) :
    (validBeginning bytes).1.flatMap String.utf8EncodeChar ++ (validBeginning bytes).2 = bytes := by
  fun_induction validBeginning bytes with
  | case1 => rfl
  | case2 => rfl
  | case3 byte bytes c h chars rest hr ih =>
    rw [hr] at ih
    rw [List.flatMap_cons, List.append_assoc, ih, encode_firstChar h]

/-- What has been read is encoded as it stood. -/
theorem encode_of_decode {bytes : Bytes} {text : String} (h : decode bytes = .ok text) :
    encode text = bytes := by
  have happend := append_validBeginning bytes
  unfold decode at h
  split at h
  · rename_i chars hv
    cases h
    rw [hv, List.append_nil] at happend
    simpa [encode] using happend
  · cases h

/-! Order -/

private theorem ofNat_cons_lt {k l : Nat} (hk : k < 256) (hl : l < 256) {s t : Bytes}
    (h : k < l ∨ k = l ∧ s < t) : UInt8.ofNat k :: s < UInt8.ofNat l :: t := by
  rw [List.cons_lt_cons_iff]
  rcases h with h | ⟨rfl, h⟩
  · left
    rw [UInt8.lt_iff_toNat_lt, UInt8.toNat_ofNat', UInt8.toNat_ofNat']
    omega
  · exact .inr ⟨rfl, h⟩

/-- The encodings of two characters differ before either of them ends, in the order of the
characters. -/
private theorem encodeChar_append_lt {c d : Char} (h : c < d) (s t : Bytes) :
    String.utf8EncodeChar c ++ s < String.utf8EncodeChar d ++ t := by
  have hlt : c.val.toNat < d.val.toNat := h
  have hd : d.val.toNat < 0x110000 := by
    rcases d.valid with h | ⟨-, h⟩
    · exact Nat.lt_trans h (by decide)
    · exact h
  have step {p : Prop} {k l : Nat} (hkl : k ≤ l) (hp : k = l → p) : k < l ∨ k = l ∧ p := by
    rcases Nat.lt_or_eq_of_le hkl with h | h
    · exact .inl h
    · exact .inr ⟨h, hp h⟩
  simp only [String.utf8EncodeChar]
  generalize c.val.toNat = m at *
  generalize d.val.toNat = n at *
  -- one case for each pair of lengths; the bytes at one place are never in the wrong order
  repeat' split
  all_goals
    simp only [List.cons_append, List.nil_append]
    repeat' refine ofNat_cons_lt (by omega) (by omega) (step (by omega) fun _ => ?_)
    all_goals omega

private theorem flatMap_encodeChar_lt {cs ds : List Char} (h : cs < ds) :
    cs.flatMap String.utf8EncodeChar < ds.flatMap String.utf8EncodeChar := by
  induction cs generalizing ds with
  | nil =>
    cases ds with
    | nil => exact absurd h (List.lt_irrefl _)
    | cons d ds =>
      obtain ⟨b, bs, hb⟩ : ∃ b bs, String.utf8EncodeChar d = b :: bs :=
        List.exists_cons_of_length_pos (by rw [String.length_utf8EncodeChar]; exact d.utf8Size_pos)
      rw [List.flatMap_cons, hb]
      exact List.nil_lt_cons _ _
  | cons c cs ih =>
    cases ds with
    | nil => cases h
    | cons d ds =>
      rw [List.flatMap_cons, List.flatMap_cons]
      rcases List.cons_lt_cons_iff.mp h with hcd | ⟨rfl, htail⟩
      · exact encodeChar_append_lt hcd _ _
      · exact List.append_left_lt (ih htail)

/-- Texts are in the order of their bytes. -/
theorem encode_lt_encode {a b : String} : encode a < encode b ↔ a < b := by
  have hlt {a b : String} (h : a < b) : encode a < encode b :=
    flatMap_encodeChar_lt (String.lt_iff.mp h)
  refine ⟨fun h => Decidable.byContradiction fun hab => ?_, hlt⟩
  by_cases hba : b < a
  · exact List.lt_asymm h (hlt hba)
  · obtain rfl := String.le_antisymm (String.not_lt.mp hba) (String.not_lt.mp hab)
    exact List.lt_irrefl _ h

end MarkupGraft.Text
