import MarkupGraft.Proofs.Text.Utf8

/-!
Where the invalid sequences of bytes begin. Sequences never reach over an ASCII byte, so the parts on
the two sides of one can be read by themselves.
-/

namespace MarkupGraft.Text

/-- The length of the first sequence: of a character, or of what a lossy reading replaces. -/
def sequenceLength (bytes : Bytes) : Nat :=
  match firstChar? bytes with
  | some c => c.utf8Size
  | none => max 1 (invalidLength bytes)

theorem sequenceLength_pos (bytes : Bytes) : 0 < sequenceLength bytes := by
  unfold sequenceLength
  split
  · exact Char.utf8Size_pos _
  · omega

/-- The offsets at which invalid sequences begin. -/
def invalidOffsets (bytes : Bytes) : List Nat :=
  match bytes with
  | [] => []
  | byte :: bytes =>
    let length := sequenceLength (byte :: bytes)
    let others := (invalidOffsets ((byte :: bytes).drop length)).map (length + ·)
    if (firstChar? (byte :: bytes)).isSome then others else 0 :: others
termination_by bytes.length
decreasing_by
  have := sequenceLength_pos (byte :: bytes)
  simp only [List.length_drop, List.length_cons]
  omega

@[simp] theorem invalidOffsets_nil : invalidOffsets [] = [] := by
  rw [invalidOffsets]

theorem invalidOffsets_eq {bytes : Bytes} (h : bytes ≠ []) : invalidOffsets bytes =
    (if (firstChar? bytes).isSome then [] else [0]) ++
      (invalidOffsets (bytes.drop (sequenceLength bytes))).map (sequenceLength bytes + ·) := by
  cases bytes with
  | nil => exact absurd rfl h
  | cons byte bytes =>
    rw [invalidOffsets]
    split <;> rfl

/-! Parts -/

/-- Whether no sequence can go on with the bytes: they begin with an ASCII byte, or there are none. -/
def Breaks (bytes : Bytes) : Prop := ∀ b ∈ bytes.head?, b < 0x80

theorem breaks_nil : Breaks [] := by simp [Breaks]

theorem breaks_cons {b : UInt8} {bytes : Bytes} : Breaks (b :: bytes) ↔ b < 0x80 := by
  simp [Breaks]

theorem Breaks.append {a b : Bytes} (ha : Breaks a) (hb : Breaks b) : Breaks (a ++ b) := by
  cases a with
  | nil => exact hb
  | cons x a => exact ha

/-- What is taken as long as bytes are of a kind ends at a break, where all others are ASCII bytes. -/
theorem breaks_takeWhile {p : UInt8 → Bool} (hp : ∀ b, ¬p b → b < 0x80) (bytes : Bytes) :
    Breaks (bytes.drop (bytes.takeWhile p).length) := by
  induction bytes with
  | nil => exact breaks_nil
  | cons b bytes ih =>
    by_cases hb : p b
    · rw [List.takeWhile_cons_of_pos hb]
      exact ih
    · rw [List.takeWhile_cons_of_neg hb]
      exact breaks_cons.mpr (hp b hb)

/-- Bytes that all stand for themselves. -/
def IsAscii (bytes : Bytes) : Prop := ∀ b ∈ bytes, b < 0x80

instance (bytes : Bytes) : Decidable (IsAscii bytes) :=
  List.decidableBAll _ bytes

theorem IsAscii.append {a b : Bytes} (ha : IsAscii a) (hb : IsAscii b) : IsAscii (a ++ b) := by
  intro x hx
  rcases List.mem_append.mp hx with hx | hx
  · exact ha x hx
  · exact hb x hx

theorem IsAscii.breaks {bytes : Bytes} (h : IsAscii bytes) : Breaks bytes :=
  fun b hb => h b (List.mem_of_mem_head? hb)

/-- The encoding of a character is not cut short by bytes that break a sequence. -/
private theorem utf8Size_le_of_append {a b rest : Bytes} (ha : a ≠ []) (hb : Breaks b) {c : Char}
    (h : String.utf8EncodeChar c ++ rest = a ++ b) : c.utf8Size ≤ a.length := by
  refine Nat.le_of_not_lt fun hlt => ?_
  rw [← String.length_utf8EncodeChar c] at hlt
  obtain ⟨tail, htail⟩ : a <+: String.utf8EncodeChar c :=
    List.prefix_of_prefix_length_le ⟨b, h.symm⟩ (List.prefix_append _ _) (Nat.le_of_lt hlt)
  have hpos := List.length_pos_iff.mpr ha
  rw [← htail, List.append_assoc, List.append_cancel_left_eq] at h
  cases tail with
  | nil => simp [← htail] at hlt
  | cons x tail =>
    rw [← h, List.cons_append, breaks_cons, UInt8.lt_iff_toNat_lt] at hb
    have hx : x ∈ String.utf8EncodeChar c := by simp [← htail]
    by_cases hc : c.toNat < 128
    · have := congrArg List.length htail
      rw [encodeChar_ascii hc] at this
      simp only [List.length_append, List.length_cons, List.length_nil] at this
      omega
    · have := le_of_mem_encodeChar (by omega) hx
      exact absurd hb (by simpa using this)

theorem firstChar?_append {a b : Bytes} (ha : a ≠ []) (hb : Breaks b) :
    firstChar? (a ++ b) = firstChar? a := by
  have hforth {c : Char} (h : firstChar? a = some c) : firstChar? (a ++ b) = some c := by
    rw [← encode_firstChar h, List.append_assoc]
    exact firstChar?_encodeChar c _
  have hback {c : Char} (h : firstChar? (a ++ b) = some c) : firstChar? a = some c := by
    have happend := encode_firstChar h
    have hle := utf8Size_le_of_append ha hb happend
    rw [List.drop_append_of_le_length hle, ← List.append_assoc, List.append_cancel_right_eq] at happend
    rw [← happend]
    exact firstChar?_encodeChar c _
  cases h : firstChar? a with
  | some c => exact hforth h
  | none =>
    cases h' : firstChar? (a ++ b) with
    | none => rfl
    | some c =>
      rw [hback h'] at h
      cases h

private theorem takeWhile_append_of_breaks {a b : Bytes} (hb : Breaks b) (n : Nat) :
    (((a ++ b).take n).takeWhile fun x => 0x80 ≤ x && x ≤ 0xBF) =
      (a.take n).takeWhile fun x => 0x80 ≤ x && x ≤ 0xBF := by
  rw [List.take_append, List.takeWhile_append]
  have hnone : ((b.take (n - a.length)).takeWhile fun x => 0x80 ≤ x && x ≤ 0xBF) = [] := by
    cases b with
    | nil => simp
    | cons x b =>
      have hx : ¬(0x80 ≤ x) := UInt8.not_le.mpr (breaks_cons.mp hb)
      cases n - a.length <;> simp [hx]
  split
  · rename_i hall
    rw [hnone, List.append_nil, (List.takeWhile_sublist _).eq_of_length hall]
  · rfl

/-- The second byte of a sequence is no ASCII byte. -/
private theorem le_of_continuation? {lead low high : UInt8} {count : Nat}
    (h : continuation? lead = some (count, low, high)) : 0x80 ≤ low := by
  unfold continuation? at h
  grind

theorem invalidLength_append {a b : Bytes} (ha : a ≠ []) (hb : Breaks b) :
    invalidLength (a ++ b) = invalidLength a := by
  cases a with
  | nil => exact absurd rfl ha
  | cons lead a =>
    rw [List.cons_append, invalidLength.eq_def, invalidLength.eq_def (lead :: a)]
    dsimp only
    cases hlead : continuation? lead with
    | none => rfl
    | some rule =>
      obtain ⟨count, low, high⟩ := rule
      cases a with
      | cons second a => simp only [List.cons_append, takeWhile_append_of_breaks hb]
      | nil =>
        cases b with
        | nil => rfl
        | cons second rest =>
          have hlt : second < low :=
            UInt8.lt_of_lt_of_le (breaks_cons.mp hb) (le_of_continuation? hlead)
          simp [UInt8.not_le.mpr hlt]

private theorem invalidLength_le (bytes : Bytes) : invalidLength bytes ≤ bytes.length := by
  cases bytes with
  | nil => rw [invalidLength]; exact Nat.le_refl _
  | cons lead bytes =>
    rw [invalidLength.eq_def]
    dsimp only
    split
    · rename_i count low high second rest _
      have hlength := Nat.le_trans
        (List.takeWhile_sublist fun x : UInt8 => 0x80 ≤ x && x ≤ 0xBF).length_le
        (List.length_take_le' (count - 1) rest)
      simp only [List.length_cons]
      split <;> omega
    · simp

theorem sequenceLength_append {a b : Bytes} (ha : a ≠ []) (hb : Breaks b) :
    sequenceLength (a ++ b) = sequenceLength a := by
  rw [sequenceLength, sequenceLength, firstChar?_append ha hb, invalidLength_append ha hb]

theorem sequenceLength_le {bytes : Bytes} (h : bytes ≠ []) : sequenceLength bytes ≤ bytes.length := by
  unfold sequenceLength
  split
  · rename_i c hc
    have := congrArg List.length (encode_firstChar hc)
    rw [List.length_append, String.length_utf8EncodeChar] at this
    omega
  · have := List.length_pos_iff.mpr h
    have := invalidLength_le bytes
    omega

/-- The parts on the two sides of a break are read by themselves. -/
theorem invalidOffsets_append {b : Bytes} (hb : Breaks b) (a : Bytes) :
    invalidOffsets (a ++ b) = invalidOffsets a ++ (invalidOffsets b).map (a.length + ·) := by
  by_cases ha : a = []
  · simp [ha]
  have hle := sequenceLength_le ha
  have hrest := invalidOffsets_append hb (a.drop (sequenceLength a))
  rw [invalidOffsets_eq (by simp [ha]), invalidOffsets_eq ha, firstChar?_append ha hb,
    sequenceLength_append ha hb, List.drop_append_of_le_length hle, hrest, List.map_append,
    List.map_map, List.append_assoc]
  congr 3
  funext offset
  rw [List.length_drop, Function.comp_apply]
  omega
termination_by a.length
decreasing_by
  have := sequenceLength_pos a
  have := List.length_pos_iff.mpr ha
  rw [List.length_drop]
  omega

theorem invalidOffsets_encodeChar (c : Char) (rest : Bytes) :
    invalidOffsets (String.utf8EncodeChar c ++ rest) =
      (invalidOffsets rest).map (c.utf8Size + ·) := by
  have hne : String.utf8EncodeChar c ++ rest ≠ [] := by simp [String.utf8EncodeChar_ne_nil]
  have hlength : sequenceLength (String.utf8EncodeChar c ++ rest) = c.utf8Size := by
    rw [sequenceLength, firstChar?_encodeChar]
  have hdrop : (String.utf8EncodeChar c ++ rest).drop c.utf8Size = rest := by
    rw [← String.length_utf8EncodeChar c, List.drop_left]
  rw [invalidOffsets_eq hne, hlength, hdrop, firstChar?_encodeChar]
  rfl

private theorem encodeChar_ofNat {b : UInt8} (h : b < 0x80) :
    String.utf8EncodeChar (Char.ofNat b.toNat) = [b] := by
  have hall : ∀ n < 128, String.utf8EncodeChar (Char.ofNat n) = [UInt8.ofNat n] := by
    decide +kernel
  rw [hall _ (UInt8.lt_iff_toNat_lt.mp h), UInt8.ofNat_toNat]

/-- An ASCII byte is a character of its own. -/
theorem invalidOffsets_ascii {b : UInt8} (h : b < 0x80) (bytes : Bytes) :
    invalidOffsets (b :: bytes) = (invalidOffsets bytes).map (1 + ·) := by
  have hsize : (Char.ofNat b.toNat).utf8Size = 1 := by
    rw [← String.length_utf8EncodeChar, encodeChar_ofNat h, List.length_singleton]
  have := invalidOffsets_encodeChar (Char.ofNat b.toNat) bytes
  rwa [encodeChar_ofNat h, hsize] at this

/-- Whether no sequence can reach from one part into the next. -/
def Separate (before after : Bytes) : Prop := Breaks after ∨ ∀ b ∈ before.getLast?, b < 0x80

theorem Separate.append_left {before after : Bytes} (h : Separate before after) (hne : before ≠ [])
    (front : Bytes) : Separate (front ++ before) after := by
  rcases h with h | h
  · exact .inl h
  · have hlast := List.getLast?_eq_some_getLast hne
    rw [Separate, List.getLast?_append, hlast, Option.some_or, ← hlast]
    exact .inr h

/-- Parts that no sequence links are read by themselves. -/
theorem Separate.invalidOffsets_append {before after : Bytes} (h : Separate before after) :
    invalidOffsets (before ++ after) =
      invalidOffsets before ++ (invalidOffsets after).map (before.length + ·) := by
  rcases h with h | h
  · exact Text.invalidOffsets_append h before
  · cases hlast : before.getLast? with
    | none => simp [List.getLast?_eq_none_iff.mp hlast]
    | some b =>
      obtain ⟨front, rfl⟩ := List.getLast?_eq_some_iff.mp hlast
      have hb : b < 0x80 := h b hlast
      have hbreak (rest : Bytes) : Breaks (b :: rest) := breaks_cons.mpr hb
      rw [List.append_assoc, List.singleton_append, Text.invalidOffsets_append (hbreak _),
        Text.invalidOffsets_append (hbreak _), invalidOffsets_ascii hb, invalidOffsets_ascii hb]
      simp [Function.comp_def, Nat.add_assoc]

/-! Readings -/

/-- Bytes that encode a text. -/
def IsText (bytes : Bytes) : Prop := ∃ text, encode text = bytes

theorem IsText.append {a b : Bytes} (ha : IsText a) (hb : IsText b) : IsText (a ++ b) := by
  obtain ⟨s, rfl⟩ := ha
  obtain ⟨t, rfl⟩ := hb
  exact ⟨s ++ t, encode_append s t⟩

theorem IsAscii.isText {bytes : Bytes} (h : IsAscii bytes) : IsText bytes := by
  induction bytes with
  | nil => exact ⟨"", rfl⟩
  | cons b bytes ih =>
    have hb : IsText [b] :=
      ⟨String.ofList [Char.ofNat b.toNat], by simp [encode, encodeChar_ofNat (h b (by simp))]⟩
    exact hb.append (ih fun x hx => h x (List.mem_cons_of_mem _ hx))

theorem isText_of_decode {bytes : Bytes} {text : String} (h : decode bytes = .ok text) :
    IsText bytes := ⟨text, encode_of_decode h⟩

/-- Nothing is invalid in a text. -/
theorem IsText.invalidOffsets_append {front : Bytes} (h : IsText front) (rest : Bytes) :
    invalidOffsets (front ++ rest) = (invalidOffsets rest).map (front.length + ·) := by
  obtain ⟨text, rfl⟩ := h
  unfold encode
  induction text.toList with
  | nil => simp
  | cons c chars ih =>
    rw [List.flatMap_cons, List.append_assoc, invalidOffsets_encodeChar, ih, List.map_map,
      List.length_append, String.length_utf8EncodeChar]
    congr 1
    funext offset
    rw [Function.comp_apply]
    omega

/-- Whether the first invalid sequence begins at the offset. -/
def FirstInvalid (bytes : Bytes) (offset : Nat) : Prop :=
  ∃ others, invalidOffsets bytes = offset :: others ∧ ∀ other ∈ others, offset < other

theorem FirstInvalid.mem {bytes : Bytes} {offset : Nat} (h : FirstInvalid bytes offset) :
    offset ∈ invalidOffsets bytes := by
  obtain ⟨others, hall, -⟩ := h
  simp [hall]

theorem FirstInvalid.le {bytes : Bytes} {offset other : Nat} (h : FirstInvalid bytes offset)
    (ho : other ∈ invalidOffsets bytes) : offset ≤ other := by
  obtain ⟨others, hall, hlt⟩ := h
  rw [hall] at ho
  rcases List.mem_cons.mp ho with rfl | ho
  · exact Nat.le_refl _
  · exact Nat.le_of_lt (hlt other ho)

theorem FirstInvalid.behind {front bytes : Bytes} {offset : Nat} (h : FirstInvalid bytes offset)
    (hf : IsText front) : FirstInvalid (front ++ bytes) (front.length + offset) := by
  obtain ⟨others, hall, hlt⟩ := h
  refine ⟨others.map (front.length + ·), ?_, fun other ho => ?_⟩
  · rw [hf.invalidOffsets_append, hall, List.map_cons]
  · obtain ⟨later, hlater, rfl⟩ := List.mem_map.mp ho
    have := hlt later hlater
    omega

theorem lt_of_mem_invalidOffsets {bytes : Bytes} {offset : Nat} (h : offset ∈ invalidOffsets bytes) :
    offset < bytes.length := by
  by_cases hne : bytes = []
  · simp [hne] at h
  have hpos := sequenceLength_pos bytes
  have hlength := List.length_pos_iff.mpr hne
  rw [invalidOffsets_eq hne, List.mem_append] at h
  rcases h with h | h
  · split at h
    · cases h
    · rw [List.mem_singleton.mp h]
      exact hlength
  · obtain ⟨later, hlater, rfl⟩ := List.mem_map.mp h
    have := lt_of_mem_invalidOffsets hlater
    rw [List.length_drop] at this
    omega
termination_by bytes.length
decreasing_by
  rw [List.length_drop]
  omega

theorem FirstInvalid.before {bytes back : Bytes} {offset : Nat} (h : FirstInvalid bytes offset)
    (hs : Separate bytes back) : FirstInvalid (bytes ++ back) offset := by
  have hoffset := lt_of_mem_invalidOffsets h.mem
  obtain ⟨others, hall, hlt⟩ := h
  refine ⟨others ++ (invalidOffsets back).map (bytes.length + ·), ?_, fun other ho => ?_⟩
  · rw [hs.invalidOffsets_append, hall, List.cons_append]
  · rcases List.mem_append.mp ho with ho | ho
    · exact hlt other ho
    · obtain ⟨later, -, rfl⟩ := List.mem_map.mp ho
      omega

/-- The first invalid sequence of a part is the first one from the beginning of the part on. -/
theorem FirstInvalid.append {front bytes : Bytes} {offset : Nat} (h : FirstInvalid bytes offset)
    (hs : Separate front bytes) : front.length + offset ∈ invalidOffsets (front ++ bytes) ∧
      ∀ other ∈ invalidOffsets (front ++ bytes), front.length ≤ other →
        front.length + offset ≤ other := by
  rw [hs.invalidOffsets_append]
  refine ⟨List.mem_append_right _ (List.mem_map_of_mem h.mem), fun other ho hle => ?_⟩
  rcases List.mem_append.mp ho with ho | ho
  · have := lt_of_mem_invalidOffsets ho
    omega
  · obtain ⟨later, hlater, rfl⟩ := List.mem_map.mp ho
    have := h.le hlater
    omega

/-- What no text begins with is left behind the longest valid beginning. -/
private theorem firstChar?_validBeginning (bytes : Bytes) (h : (validBeginning bytes).2 ≠ []) :
    firstChar? (validBeginning bytes).2 = none := by
  fun_induction validBeginning bytes with
  | case1 => exact absurd rfl h
  | case2 byte bytes hnone => exact hnone
  | case3 byte bytes c _ chars rest hr ih =>
    rw [hr] at ih
    exact ih h

/-- A reading that fails tells where the first invalid sequence begins. -/
theorem firstInvalid_of_decode {bytes : Bytes} {offset : Nat} (h : decode bytes = .error offset) :
    FirstInvalid bytes offset := by
  have happend := append_validBeginning bytes
  have hnone := firstChar?_validBeginning bytes
  unfold decode at h
  split at h
  · cases h
  · rename_i chars rest hrest hvalid
    rw [hvalid] at happend hnone
    cases h
    have hne : rest ≠ [] := fun hnil => hrest hnil
    have hfirst : FirstInvalid rest 0 := by
      refine ⟨_, by rw [invalidOffsets_eq hne, hnone hne]; rfl, fun other ho => ?_⟩
      obtain ⟨later, -, rfl⟩ := List.mem_map.mp ho
      have := sequenceLength_pos rest
      omega
    have hvalid : IsText (chars.flatMap String.utf8EncodeChar) := by
      exact ⟨String.ofList chars, by rw [encode, String.toList_ofList]⟩
    rw [← happend]
    simpa using hfirst.behind hvalid

/-- Whether the part of a sequence that stands behind a text cannot be read from `offset` on. No
sequence goes beyond the part. -/
structure FailsAt (bytes front part : Bytes) (offset : Nat) : Prop where
  layout : ∃ back, front ++ (part ++ back) = bytes ∧ Breaks back
  isText : IsText front
  fails : decode part = .error offset

theorem failsAt_of_decode {bytes : Bytes} {offset : Nat} (h : decode bytes = .error offset) :
    FailsAt bytes [] bytes offset :=
  ⟨⟨[], List.append_nil _, breaks_nil⟩, ⟨"", rfl⟩, h⟩

theorem FailsAt.firstInvalid {bytes front part : Bytes} {offset : Nat}
    (h : FailsAt bytes front part offset) : FirstInvalid bytes (front.length + offset) := by
  obtain ⟨back, rfl, hback⟩ := h.layout
  exact ((firstInvalid_of_decode h.fails).before (.inl hback)).behind h.isText

theorem FailsAt.behind {bytes front part opening : Bytes} {offset : Nat}
    (h : FailsAt bytes front part offset) (ho : IsText opening) :
    FailsAt (opening ++ bytes) (opening ++ front) part offset := by
  obtain ⟨back, rfl, hback⟩ := h.layout
  exact ⟨⟨back, List.append_assoc _ _ _, hback⟩, ho.append h.isText, h.fails⟩

theorem FailsAt.before {bytes front part closing : Bytes} {offset : Nat}
    (h : FailsAt bytes front part offset) (hc : Breaks closing) :
    FailsAt (bytes ++ closing) front part offset := by
  obtain ⟨back, rfl, hback⟩ := h.layout
  exact ⟨⟨back ++ closing, by simp only [List.append_assoc], hback.append hc⟩, h.isText, h.fails⟩

end MarkupGraft.Text
