import MarkupGraft.Proofs.Markup.Piece

/-!
A piece that ends inside a sequence is cut alike when the sequence ends behind it, so what is cut out of
a document divides into the pieces that it divides into in its place.
-/

namespace MarkupGraft.Markup.Piece

/-! Tags -/

private theorem map_succ_eq_ok_iff {result : Except (Option UInt8) Nat} {n : Nat} :
    result.map (· + 1) = .ok n ↔ ∃ m, result = .ok m ∧ m + 1 = n := by
  cases result <;> simp [Except.map]

/-- A tag ends with an angle bracket. -/
theorem tagLength_take {quote : Option UInt8} {bytes : Bytes} {n : Nat}
    (h : tagLength quote bytes = .ok n) :
    0 < n ∧ n ≤ bytes.length ∧ bytes.take n = bytes.take (n - 1) ++ [0x3E] := by
  induction bytes generalizing quote n with
  | nil => cases quote <;> cases h
  | cons b bytes ih =>
    have hstep {q : Option UInt8} (h : (tagLength q bytes).map (· + 1) = .ok n) :
        0 < n ∧ n ≤ (b :: bytes).length ∧
          (b :: bytes).take n = (b :: bytes).take (n - 1) ++ [0x3E] := by
      obtain ⟨m, hm, rfl⟩ := map_succ_eq_ok_iff.mp h
      obtain ⟨hpos, hle, htake⟩ := ih hm
      obtain ⟨k, rfl⟩ := Nat.exists_eq_add_of_le' hpos
      exact ⟨by omega, by simpa using hle, by simpa using htake⟩
    cases quote with
    | some q => exact hstep h
    | none =>
      rw [tagLength] at h
      split at h
      · rename_i hb
        cases h
        simp [hb]
      · exact hstep h

/-- A tag ends in the same place whatever follows it. -/
theorem tagLength_append {quote : Option UInt8} {bytes : Bytes} {n : Nat} (rest : Bytes)
    (hn : n ≤ bytes.length) :
    tagLength quote (bytes ++ rest) = .ok n ↔ tagLength quote bytes = .ok n := by
  induction bytes generalizing quote n with
  | nil =>
    obtain rfl : n = 0 := by simpa using hn
    refine iff_of_false ?_ ?_ <;> exact fun h => absurd (tagLength_take h).1 (by simp)
  | cons b bytes ih =>
    have hstep (q : Option UInt8) : (tagLength q (bytes ++ rest)).map (· + 1) = .ok n ↔
        (tagLength q bytes).map (· + 1) = .ok n := by
      rw [map_succ_eq_ok_iff, map_succ_eq_ok_iff]
      refine exists_congr fun m => and_congr_left fun hm => ih ?_
      rw [List.length_cons] at hn
      omega
    cases quote with
    | some q => exact hstep _
    | none =>
      rw [List.cons_append, tagLength, tagLength]
      split
      · rfl
      · exact hstep _

theorem measureTag_eq_ok_iff {bytes : Bytes} {k : PieceKind} {n : Nat} :
    measureTag bytes = .ok (k, n) ↔ ∃ m, tagLength none (bytes.drop 1) = .ok m ∧ n = m + 1 ∧
      k = if (ascii "</").isPrefixOf bytes then .endTag
        else if (bytes.drop (m - 1)).head? = some 0x2F then .emptyTag else .startTag := by
  unfold measureTag
  cases tagLength none (bytes.drop 1) with
  | error q => cases q <;> simp
  | ok m =>
    simp only [Except.ok.injEq, Prod.mk.injEq, exists_eq_left']
    exact ⟨fun h => ⟨h.2.symm, h.1.symm⟩, fun h => ⟨h.2.symm, h.1.symm⟩⟩

/-- A tag is cut alike whatever follows it. -/
private theorem measureTag_append {bytes : Bytes} {k : PieceKind} {n : Nat} (rest : Bytes)
    (hn : n ≤ bytes.length) :
    measureTag (bytes ++ rest) = .ok (k, n) ↔ measureTag bytes = .ok (k, n) := by
  rw [measureTag_eq_ok_iff, measureTag_eq_ok_iff]
  refine exists_congr fun m => ?_
  by_cases hm : 0 < m ∧ n = m + 1
  · obtain ⟨hpos, rfl⟩ := hm
    have hlength : (ascii "</").length ≤ bytes.length := by
      change 2 ≤ bytes.length
      omega
    rw [List.drop_append_of_le_length (by omega),
      tagLength_append rest (by rw [List.length_drop]; omega), isPrefixOf_append_of_le hlength,
      List.drop_append_of_le_length (by omega), List.head?_append, List.head?_drop]
    rw [List.getElem?_eq_getElem (by omega)]
    rfl
  · refine iff_of_false ?_ ?_ <;>
    · rintro ⟨h, rfl, -⟩
      exact hm ⟨(tagLength_take h).1, rfl⟩

/-! Markup -/

/-- Pieces with a name of their own. -/
def isTag : PieceKind → Bool
  | .startTag | .emptyTag | .endTag => true
  | _ => false

private theorem isTag_of_measureTag {bytes : Bytes} {k : PieceKind} {n : Nat}
    (h : measureTag bytes = .ok (k, n)) : isTag k := by
  rcases kind_of_measureTag h with rfl | rfl | rfl <;> rfl

/-- A tag is told from all other markup by its second byte. -/
private theorem measureMarkup_eq_measureTag {bytes : Bytes}
    (h : ∀ b ∈ (bytes.drop 1).head?, b ≠ 0x21 ∧ b ≠ 0x3F) :
    measureMarkup bytes = measureTag bytes := by
  unfold measureMarkup
  split
  case h_7 => rfl
  all_goals
    rename_i hd
    simp [hd] at h

/-- What markup can be. -/
theorem measureMarkup_cases {bytes : Bytes} {k : PieceKind} {n : Nat}
    (h : measureMarkup bytes = .ok (k, n)) : isLeaf k ∨
      (k = .characterData ∧ ascii "<![CDATA[" <+: bytes ∧
        lengthThrough? (ascii "]]>") 1 bytes = some n) ∨
      isTag k ∧ (∀ b ∈ (bytes.drop 1).head?, b ≠ 0x21 ∧ b ≠ 0x3F) ∧
        measureTag bytes = .ok (k, n) := by
  unfold measureMarkup at h
  split at h
  · obtain ⟨hk, hp, hn⟩ := closed_eq_ok_iff.mp h
    exact .inr (.inl ⟨hk, List.isPrefixOf_iff_prefix.mp hp, hn⟩)
  · exact .inl ((closed_eq_ok_iff.mp h).1 ▸ rfl)
  · exact .inl ((measureDoctype_eq_ok_iff.mp h).1 ▸ rfl)
  · exact .inl ((measureDoctype_eq_ok_iff.mp h).1 ▸ rfl)
  · cases h
  · exact .inl ((measureInstruction_eq_ok_iff.mp h).1 ▸ rfl)
  · rename_i hmark hquestion
    refine .inr (.inr ⟨isTag_of_measureTag h, fun b hb => ?_, h⟩)
    obtain ⟨others, hd⟩ := List.head?_eq_some_iff.mp hb
    exact ⟨fun hc => hmark others (hc ▸ hd), fun hc => hquestion others (hc ▸ hd)⟩

private theorem measureMarkup_tag_iff {bytes : Bytes} {k : PieceKind} {n : Nat} (hk : isTag k) :
    measureMarkup bytes = .ok (k, n) ↔
      (∀ b ∈ (bytes.drop 1).head?, b ≠ 0x21 ∧ b ≠ 0x3F) ∧ measureTag bytes = .ok (k, n) := by
  constructor
  · intro h
    rcases measureMarkup_cases h with hl | ⟨rfl, -⟩ | ⟨-, h⟩
    · cases k <;> simp_all [isLeaf, isTag]
    · cases hk
    · exact h
  · rintro ⟨hsecond, h⟩
    rwa [measureMarkup_eq_measureTag hsecond]

private theorem measureMarkup_characterData_iff {bytes : Bytes} {n : Nat} :
    measureMarkup bytes = .ok (.characterData, n) ↔
      ascii "<![CDATA[" <+: bytes ∧ lengthThrough? (ascii "]]>") 1 bytes = some n := by
  constructor
  · intro h
    rcases measureMarkup_cases h with hl | ⟨-, h⟩ | ⟨hk, -⟩
    · cases hl
    · exact h
    · cases hk
  · rintro ⟨⟨rest, rfl⟩, hn⟩
    exact closed_eq_ok_iff.mpr ⟨rfl, rfl, hn⟩

/-- The closing mark of character data stands behind the opening one. -/
theorem length_characterData {bytes : Bytes} {n : Nat} (hp : ascii "<![CDATA[" <+: bytes)
    (hn : lengthThrough? (ascii "]]>") 1 bytes = some n) : 9 < n := by
  refine Nat.lt_of_not_le fun hle => ?_
  have hmark : bytes.take n <+: ascii "<![CDATA[" := by
    refine List.prefix_of_prefix_length_le (List.take_prefix n bytes) hp ?_
    rw [List.length_take]
    change min n bytes.length ≤ 9
    omega
  have hmem : (0x3E : UInt8) ∈ bytes.take n := by
    rw [lengthThrough?_take hn]
    simp [ascii]
  exact absurd (hmark.subset hmem) (by decide)

section
variable {bytes : Bytes} {k : PieceKind} {n : Nat} (rest : Bytes) (hn : n ≤ bytes.length)
include hn

private theorem measureMarkup_tag_append (hk : isTag k) :
    measureMarkup (bytes ++ rest) = .ok (k, n) ↔ measureMarkup bytes = .ok (k, n) := by
  rw [measureMarkup_tag_iff hk, measureMarkup_tag_iff hk, measureTag_append rest hn]
  refine and_congr_left fun h => ?_
  obtain ⟨m, hm, rfl, -⟩ := measureTag_eq_ok_iff.mp h
  have := (tagLength_take hm).1
  rw [List.head?_drop, List.head?_drop, List.getElem?_append_left (by omega)]

private theorem measureMarkup_characterData_append :
    measureMarkup (bytes ++ rest) = .ok (.characterData, n) ↔
      measureMarkup bytes = .ok (.characterData, n) := by
  rw [measureMarkup_characterData_iff, measureMarkup_characterData_iff]
  constructor
  · rintro ⟨hp, hlength⟩
    have := length_characterData hp hlength
    exact ⟨List.prefix_of_prefix_length_le hp (List.prefix_append _ _) (by change 9 ≤ _; omega),
      (lengthThrough?_append rest hn (by omega)).mp hlength⟩
  · rintro ⟨hp, hlength⟩
    have := length_characterData hp hlength
    exact ⟨hp.trans (List.prefix_append _ _),
      (lengthThrough?_append rest hn (by omega)).mpr hlength⟩

private theorem measureMarkup_leaf_append (hk : isLeaf k) :
    measureMarkup (bytes ++ rest) = .ok (k, n) ↔ measureMarkup bytes = .ok (k, n) := by
  have hlength : (bytes.take n).length = n := List.length_take_of_le hn
  have happend (others : Bytes) : measureMarkup (bytes.take n ++ others) = .ok (k, n) ↔
      measureMarkup (bytes.take n) = .ok (k, n) := by
    have h : measureMarkup (bytes.take n ++ others) = .ok (k, (bytes.take n).length) ↔ _ :=
      measureMarkup_append others hk
    rwa [hlength] at h
  have hbytes := happend (bytes.drop n)
  have hrest := happend (bytes.drop n ++ rest)
  rw [List.take_append_drop] at hbytes
  rw [← List.append_assoc, List.take_append_drop] at hrest
  exact hrest.trans hbytes.symm

/-- Markup that ends inside a sequence is cut alike whatever follows the sequence. -/
theorem measureMarkup_append_of_le :
    measureMarkup (bytes ++ rest) = .ok (k, n) ↔ measureMarkup bytes = .ok (k, n) := by
  cases k with
  | comment | instruction | doctype => exact measureMarkup_leaf_append rest hn rfl
  | startTag | emptyTag | endTag => exact measureMarkup_tag_append rest hn rfl
  | characterData => exact measureMarkup_characterData_append rest hn
  | text | reference =>
    have hno {l : Bytes} {k : PieceKind} (h : measureMarkup l = .ok (k, n)) :
        k ≠ .text ∧ k ≠ .reference := by
      rcases measureMarkup_cases h with hk | ⟨rfl, -⟩ | ⟨hk, -⟩
      · constructor <;> rintro rfl <;> cases hk
      · exact ⟨by simp, by simp⟩
      · constructor <;> rintro rfl <;> cases hk
    refine iff_of_false (fun h => ?_) (fun h => ?_) <;> simpa using hno h

end

/-! Pieces at the end of a sequence -/

private theorem takeWhile_of_append {p : UInt8 → Bool} {bytes rest : Bytes}
    (h : ((bytes ++ rest).takeWhile p).length ≤ bytes.length) :
    bytes.takeWhile p = (bytes ++ rest).takeWhile p := by
  rw [List.takeWhile_append] at h ⊢
  split
  · rename_i hall
    rw [if_pos hall, List.length_append] at h
    have hrest : rest.takeWhile p = [] := List.length_eq_zero_iff.mp (by omega)
    rw [hrest, List.append_nil]
    exact (List.takeWhile_sublist p).eq_of_length hall
  · rfl

theorem measureReference_eq_ok_iff {mode : Mode} {b : UInt8} {bytes : Bytes}
    {k : PieceKind} {n : Nat} : measureReference mode (b :: bytes) = .ok (k, n) ↔
      ∃ m, (bytes.takeWhile (!endsReference ·)).length = m ∧
        (bytes[m]? = some 0x3B ∧ k = .reference ∧ n = m + 2 ∨
          bytes[m]? ≠ some 0x3B ∧ mode = .html ∧ k = .text ∧ n = m + 1) := by
  simp only [measureReference, List.drop_succ_cons, List.drop_zero, List.head?_drop,
    exists_eq_left']
  split
  · rename_i h
    simp [h, eq_comm]
  · rename_i h
    have hno : bytes[(bytes.takeWhile (!endsReference ·)).length]? ≠ some 0x3B := h
    simp [hno, eq_comm (a := k), eq_comm (a := n)]
  · rename_i h
    have hno : bytes[(bytes.takeWhile (!endsReference ·)).length]? ≠ some 0x3B := h
    simp [hno]

private theorem measureReference_of_append {mode : Mode} {b : UInt8} {bytes rest : Bytes}
    {k : PieceKind} {n : Nat} (h : measureReference mode (b :: (bytes ++ rest)) = .ok (k, n))
    (hn : n ≤ bytes.length + 1) : measureReference mode (b :: bytes) = .ok (k, n) := by
  obtain ⟨m, hm, hcases⟩ := measureReference_eq_ok_iff.mp h
  have hle : m ≤ bytes.length := by rcases hcases with ⟨-, -, rfl⟩ | ⟨-, -, -, rfl⟩ <;> omega
  rw [← takeWhile_of_append (hm ▸ hle)] at hm
  refine measureReference_eq_ok_iff.mpr ⟨m, hm, ?_⟩
  rcases hcases with ⟨hnext, rfl, rfl⟩ | ⟨hnext, rfl, rfl, rfl⟩
  · rw [List.getElem?_append_left (by omega)] at hnext
    exact .inl ⟨hnext, rfl, rfl⟩
  · refine .inr ⟨fun he => hnext ?_, rfl, rfl, rfl⟩
    have hlt : m < bytes.length := (List.getElem?_eq_some_iff.mp he).1
    rwa [List.getElem?_append_left hlt]

/-- A piece that is cut inside a sequence is cut alike when nothing follows the sequence. -/
private theorem measure_of_append {mode : Mode} {b : UInt8} {bytes rest : Bytes} {k : PieceKind}
    {n : Nat} (h : measure mode (b :: (bytes ++ rest)) = .ok (k, n)) (hn : n ≤ bytes.length + 1) :
    measure mode (b :: bytes) = .ok (k, n) := by
  unfold measure at h ⊢
  rw [List.head?_cons] at h ⊢
  split at h
  · exact (measureMarkup_append_of_le rest hn).mp h
  · exact measureReference_of_append h hn
  · cases h
    rw [← List.cons_append] at hn ⊢
    rw [takeWhile_of_append hn]

/-- What is read inside a sequence is read alike when nothing follows the sequence. -/
theorem read?_of_append {mode : Mode} {bytes rest others : Bytes} {piece : Piece}
    (h : read? mode (bytes ++ rest) = .ok (some (piece, others)))
    (hle : piece.bytes.length ≤ bytes.length) :
    read? mode bytes = .ok (some (piece, bytes.drop piece.bytes.length)) := by
  have hpos := List.length_pos_iff.mpr (append_of_read? h).2
  cases bytes with
  | nil =>
    rw [List.length_nil] at hle
    omega
  | cons b bytes =>
    cases hm : measure mode (b :: (bytes ++ rest)) with
    | error => rw [List.cons_append, read?, hm] at h; cases h
    | ok m =>
      obtain ⟨kind, n⟩ := m
      rw [List.cons_append, read?, hm] at h
      cases h
      by_cases hrest : rest = []
      · subst hrest
        rw [List.append_nil] at hm ⊢
        rw [read?, hm]
        simp [Except.map]
      · have := List.length_pos_iff.mpr hrest
        rw [List.length_cons, List.length_cons, List.length_take, List.length_append] at hle
        have hn : n - 1 ≤ bytes.length := by omega
        rw [read?, measure_of_append hm (by omega)]
        simp [Except.map, List.take_append_of_le_length hn, Nat.min_eq_left hn]

/-- A tag that is read has its closing bracket. -/
theorem mem_of_read?_tag {mode : Mode} {b : UInt8} {bytes rest : Bytes} {piece : Piece}
    (hb : b ≠ 0x21 ∧ b ≠ 0x3F)
    (h : read? mode (0x3C :: b :: bytes) = .ok (some (piece, rest))) : 0x3E ∈ piece.bytes := by
  have hmarkup : measureMarkup (0x3C :: b :: bytes) = measureTag (0x3C :: b :: bytes) := by
    refine measureMarkup_eq_measureTag fun c hc => ?_
    cases hc
    exact hb
  cases hm : measure mode (0x3C :: b :: bytes) with
  | error => rw [read?, hm] at h; cases h
  | ok m =>
    obtain ⟨kind, n⟩ := m
    rw [read?, hm] at h
    cases h
    rw [measure_markup mode rfl, hmarkup] at hm
    obtain ⟨m, hlength, rfl, -⟩ := measureTag_eq_ok_iff.mp hm
    have hlength : tagLength none (b :: bytes) = .ok m := hlength
    have hmem : (0x3E : UInt8) ∈ (b :: bytes).take m := by
      rw [(tagLength_take hlength).2.2]
      simp
    exact List.mem_cons_of_mem _ hmem

end MarkupGraft.Markup.Piece
