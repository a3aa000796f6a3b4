import MarkupGraft.Markup.Piece

/-!
A piece that ends inside a sequence is cut alike whatever follows, so a piece can be measured on its
own.
-/

namespace MarkupGraft.Markup.Piece
open Text (splitWhere?)

/-! Closing marks -/

/-- Where the first occurrence of a mark begins. -/
private def firstIndex? (mark bytes : Bytes) : Option Nat :=
  (splitWhere? mark.isPrefixOf bytes).map fun split => split.1.length

private theorem firstIndex?_cons (mark : Bytes) (b : UInt8) (bytes : Bytes) :
    firstIndex? mark (b :: bytes) =
      if mark.isPrefixOf (b :: bytes) then some 0 else (firstIndex? mark bytes).map (· + 1) := by
  simp only [firstIndex?, splitWhere?]
  split
  · rfl
  · cases splitWhere? mark.isPrefixOf bytes <;> rfl

theorem isPrefixOf_append_of_le {mark bytes : Bytes} (h : mark.length ≤ bytes.length)
    (rest : Bytes) : mark.isPrefixOf (bytes ++ rest) = mark.isPrefixOf bytes := by
  rw [Bool.eq_iff_iff, List.isPrefixOf_iff_prefix, List.isPrefixOf_iff_prefix]
  exact ⟨fun hp => List.prefix_of_prefix_length_le hp (List.prefix_append _ _) h,
    fun hp => hp.trans (List.prefix_append _ _)⟩

/-- The mark stands where it is found. -/
private theorem prefix_of_firstIndex? {mark bytes : Bytes} {k : Nat}
    (h : firstIndex? mark bytes = some k) : mark <+: bytes.drop k ∧ k + mark.length ≤ bytes.length := by
  obtain ⟨⟨before, rest⟩, hsplit, rfl⟩ := Option.map_eq_some_iff.mp h
  have hmark := List.isPrefixOf_iff_prefix.mp (Text.of_splitWhere? hsplit)
  have hle := hmark.length_le
  rw [← Text.append_of_splitWhere? hsplit, List.drop_left, List.length_append]
  exact ⟨hmark, Nat.add_le_add_left hle _⟩

private theorem firstIndex?_append {mark bytes : Bytes} {k : Nat} (rest : Bytes)
    (hk : k + mark.length ≤ bytes.length) :
    firstIndex? mark (bytes ++ rest) = some k ↔ firstIndex? mark bytes = some k := by
  induction bytes generalizing k with
  | nil =>
    obtain ⟨rfl, hm⟩ : k = 0 ∧ mark = [] := by
      simp only [List.length_nil, Nat.le_zero, Nat.add_eq_zero_iff, List.length_eq_zero_iff] at hk
      exact hk
    subst hm
    cases rest <;> simp [firstIndex?, splitWhere?]
  | cons b bytes ih =>
    rw [List.cons_append, firstIndex?_cons, firstIndex?_cons, ← List.cons_append,
      isPrefixOf_append_of_le (by omega)]
    split
    · rfl
    · cases k with
      | zero => simp
      | succ k =>
        rw [List.length_cons] at hk
        simpa using ih (by omega)

theorem lengthThrough?_eq (mark : Bytes) (skip : Nat) (bytes : Bytes) :
    lengthThrough? mark skip bytes =
      (firstIndex? mark (bytes.drop skip)).map fun k => skip + k + mark.length := by
  simp only [lengthThrough?, firstIndex?, Option.map_map, Function.comp_def]

/-- A closing mark is found whatever follows it. -/
theorem lengthThrough?_append {mark bytes : Bytes} {skip n : Nat} (rest : Bytes)
    (hn : n ≤ bytes.length) (hs : skip ≤ bytes.length) :
    lengthThrough? mark skip (bytes ++ rest) = some n ↔ lengthThrough? mark skip bytes = some n := by
  rw [lengthThrough?_eq, lengthThrough?_eq, List.drop_append_of_le_length hs,
    Option.map_eq_some_iff, Option.map_eq_some_iff]
  refine exists_congr fun k => and_congr_left fun hk => firstIndex?_append rest ?_
  rw [List.length_drop]
  omega

theorem lengthThrough?_le {mark bytes : Bytes} {skip n : Nat} (hm : mark ≠ [])
    (h : lengthThrough? mark skip bytes = some n) : skip + mark.length ≤ n ∧ n ≤ bytes.length := by
  rw [lengthThrough?_eq] at h
  obtain ⟨k, hk, rfl⟩ := Option.map_eq_some_iff.mp h
  have := List.length_pos_iff.mpr hm
  have := (prefix_of_firstIndex? hk).2
  rw [List.length_drop] at this
  omega

/-- The bytes through a closing mark end with it. -/
theorem lengthThrough?_take {mark bytes : Bytes} {skip n : Nat}
    (h : lengthThrough? mark skip bytes = some n) :
    bytes.take n = bytes.take (n - mark.length) ++ mark := by
  rw [lengthThrough?_eq] at h
  obtain ⟨k, hk, rfl⟩ := Option.map_eq_some_iff.mp h
  have hmark := (prefix_of_firstIndex? hk).1
  rw [List.drop_drop] at hmark
  rw [Nat.add_sub_cancel, List.take_add, List.prefix_iff_eq_take.mp hmark, List.length_take]
  simp

/-! Document type declarations -/

private theorem isPrefixOf_append_of_mem {mark bytes : Bytes} (hb : 0x3E ∈ bytes)
    (hm : 0x3E ∉ mark.dropLast) (rest : Bytes) :
    mark.isPrefixOf (bytes ++ rest) = mark.isPrefixOf bytes := by
  by_cases hle : mark.length ≤ bytes.length
  · exact isPrefixOf_append_of_le hle rest
  · have hlt : bytes.length < mark.length := by omega
    have hno : mark.isPrefixOf bytes = false := by
      rw [Bool.eq_false_iff, ne_eq, List.isPrefixOf_iff_prefix]
      intro hp
      have := hp.length_le
      omega
    rw [hno, Bool.eq_false_iff, ne_eq, List.isPrefixOf_iff_prefix]
    intro hp
    have hbytes : bytes <+: mark :=
      List.prefix_of_prefix_length_le (List.prefix_append _ _) hp (by omega)
    have hlast : bytes <+: mark.dropLast := by
      refine List.prefix_of_prefix_length_le hbytes (List.dropLast_prefix mark) ?_
      rw [List.length_dropLast]
      omega
    exact hm (hlast.subset hb)

private theorem next?_append {state : DoctypeState} {b : UInt8} {bytes : Bytes}
    (hb : 0x3E ∈ bytes) (rest : Bytes) : state.next? b (bytes ++ rest) = state.next? b bytes := by
  have h (text : String) (hm : 0x3E ∉ (ascii text).dropLast) :
      (ascii text).isPrefixOf (bytes ++ rest) = (ascii text).isPrefixOf bytes :=
    isPrefixOf_append_of_mem hb hm rest
  cases state with
  | subset =>
    simp only [DoctypeState.next?, enterSubsetMarkup, h "!--" (by decide), h "?" (by decide),
      h "!ENTITY" (by decide), h "!ATTLIST" (by decide), h "!NOTATION" (by decide)]
  | subsetComment skip =>
    cases skip with
    | zero => simp only [DoctypeState.next?, h "->" (by decide)]
    | succ skip => rfl
  | subsetInstruction skip =>
    cases skip with
    | zero => simp only [DoctypeState.next?, h ">" (by decide)]
    | succ skip => rfl
  | subsetDeclaration quote => cases quote <;> rfl
  | _ => rfl

private theorem next?_eq_none {state : DoctypeState} {b : UInt8} {bytes : Bytes}
    (h : state.next? b bytes = none) : b = 0x3E := by
  cases state with
  | outside | afterSubset =>
    simp only [DoctypeState.next?] at h
    split at h
    · assumption
    · grind
  | subsetComment skip | subsetInstruction skip => cases skip <;> cases h
  | subsetDeclaration quote => cases quote <;> cases h
  | _ => cases h

private theorem next?_none_append {state : DoctypeState} {b : UInt8} {bytes : Bytes}
    (others : Bytes) : state.next? b bytes = none ↔ state.next? b others = none := by
  cases state with
  | subsetComment skip | subsetInstruction skip => cases skip <;> simp [DoctypeState.next?]
  | subsetDeclaration quote => cases quote <;> simp [DoctypeState.next?]
  | _ => simp [DoctypeState.next?]

/-- A declaration ends with an angle bracket. -/
theorem doctypeLength?_take {state : DoctypeState} {bytes : Bytes} {n : Nat}
    (h : doctypeLength? state bytes = some n) :
    0 < n ∧ n ≤ bytes.length ∧ bytes.take n = bytes.take (n - 1) ++ [0x3E] := by
  induction bytes generalizing state n with
  | nil => cases h
  | cons b bytes ih =>
    rw [doctypeLength?] at h
    split at h
    · rename_i hnone
      cases h
      simp [next?_eq_none hnone]
    · obtain ⟨n', hn', rfl⟩ := Option.map_eq_some_iff.mp h
      obtain ⟨hpos, hle, htake⟩ := ih hn'
      obtain ⟨k, rfl⟩ := Nat.exists_eq_add_of_le' hpos
      refine ⟨by omega, by simpa using hle, ?_⟩
      simpa using htake

private theorem mem_of_doctypeLength? {state : DoctypeState} {bytes : Bytes} {n : Nat}
    (h : doctypeLength? state bytes = some n) : 0x3E ∈ bytes := by
  refine (List.take_subset n bytes) ?_
  rw [(doctypeLength?_take h).2.2]
  simp

/-- A declaration ends in the same place whatever follows it. -/
theorem doctypeLength?_append {state : DoctypeState} {bytes : Bytes} {n : Nat} (rest : Bytes)
    (hn : n ≤ bytes.length) :
    doctypeLength? state (bytes ++ rest) = some n ↔ doctypeLength? state bytes = some n := by
  induction bytes generalizing state n with
  | nil =>
    obtain rfl : n = 0 := by simpa using hn
    refine ⟨fun h => absurd (doctypeLength?_take h).1 (by simp), fun h => by cases h⟩
  | cons b bytes ih =>
    rw [List.cons_append, doctypeLength?, doctypeLength?]
    cases hnext : state.next? b bytes with
    | none => simp [(next?_none_append (bytes ++ rest)).mp hnext]
    | some next =>
      cases hnext' : state.next? b (bytes ++ rest) with
      | none => simp [(next?_none_append bytes).mp hnext'] at hnext
      | some next' =>
        cases n with
        | zero => simp
        | succ n =>
          have hn' : n ≤ bytes.length := by simpa using hn
          have hsame (hmem : 0x3E ∈ bytes) : next' = next := by
            rw [next?_append hmem, hnext] at hnext'
            exact (Option.some.inj hnext').symm
          have hstep (h : doctypeLength? next' bytes = some n ∨ doctypeLength? next bytes = some n) :
              next' = next := hsame (h.elim mem_of_doctypeLength? mem_of_doctypeLength?)
          simp only [Option.map_eq_some_iff, Nat.add_right_cancel_iff, exists_eq_right, ih hn']
          constructor
          · intro h
            rwa [hstep (.inl h)] at h
          · intro h
            rwa [hstep (.inr h)]

/-! Whole pieces -/

/-- The capital form of a letter, and every other byte. -/
private def capital (b : UInt8) : UInt8 := if 0x61 ≤ b ∧ b ≤ 0x7A then b - 0x20 else b

private theorem eq_or_of_capital {b c : UInt8} (h : capital b = c) : b = c ∨ b = c + 0x20 := by
  unfold capital at h
  split at h
  · rw [← h, UInt8.sub_add_cancel]
    exact .inr rfl
  · exact .inl h

private theorem startsIgnoringCase_iff {start bytes : Bytes} :
    startsIgnoringCase start bytes = true ↔ (bytes.take start.length).map capital = start := by
  have hlength : ((bytes.take start.length).map capital).length ≤ start.length := by
    rw [List.length_map, List.length_take]
    exact Nat.min_le_left _ _
  have heq : startsIgnoringCase start bytes =
      start.isPrefixOf ((bytes.take start.length).map capital) := rfl
  rw [heq, List.isPrefixOf_iff_prefix]
  constructor
  · intro h
    exact (h.eq_of_length_le hlength).symm
  · intro h
    exact h.symm ▸ List.prefix_rfl

/-- The opening mark of a declaration, whatever the case of its letters. -/
def IsDoctypeMark (mark : Bytes) : Prop := mark.map capital = ascii "<!DOCTYPE"

theorem IsDoctypeMark.length {mark : Bytes} (h : IsDoctypeMark mark) : mark.length = 9 := by
  have := congrArg List.length h
  rwa [List.length_map] at this

theorem isDoctypeMark_ascii : IsDoctypeMark (ascii "<!DOCTYPE") := by
  unfold IsDoctypeMark
  decide

private theorem startsIgnoringCase_doctype_iff {bytes : Bytes} :
    startsIgnoringCase (ascii "<!DOCTYPE") bytes = true ↔
      ∃ mark rest, bytes = mark ++ rest ∧ IsDoctypeMark mark := by
  have hlength : (ascii "<!DOCTYPE").length = 9 := rfl
  rw [startsIgnoringCase_iff, hlength]
  constructor
  · intro h
    exact ⟨bytes.take 9, bytes.drop 9, (List.take_append_drop 9 bytes).symm, h⟩
  · rintro ⟨mark, rest, rfl, h⟩
    rw [← h.length, List.take_left]
    exact h

private theorem IsDoctypeMark.eq_cons {mark : Bytes} (h : IsDoctypeMark mark) :
    ∃ d letters, mark = 0x3C :: 0x21 :: d :: letters ∧ (d = 0x44 ∨ d = 0x64) := by
  match mark, h.length, h with
  | a :: b :: d :: letters, _, h =>
    obtain ⟨ha, hb, hd, -⟩ : capital a = 0x3C ∧ capital b = 0x21 ∧ capital d = 0x44 ∧
        letters.map capital = ascii "OCTYPE" := by
      simpa [IsDoctypeMark, ascii] using h
    refine ⟨d, letters, ?_, eq_or_of_capital hd⟩
    rcases eq_or_of_capital ha with rfl | rfl
    · rcases eq_or_of_capital hb with rfl | rfl
      · rfl
      · exact absurd hb (by decide)
    · exact absurd ha (by decide)

theorem IsDoctypeMark.lt {mark : Bytes} (h : IsDoctypeMark mark) {b : UInt8} (hb : b ∈ mark) :
    b < 0x80 := by
  have hcapital : capital b ∈ ascii "<!DOCTYPE" := h ▸ List.mem_map_of_mem hb
  have hall : (ascii "<!DOCTYPE").all fun c => c < 0x80 ∧ c + 0x20 < 0x80 := by decide
  obtain ⟨hsame, hlower⟩ := of_decide_eq_true (List.all_eq_true.mp hall _ hcapital)
  rcases eq_or_of_capital (b := b) rfl with hb | hb
  · rwa [hb]
  · rwa [hb]

/-- None of the bytes that a declaration is read by. -/
private def isInert (b : UInt8) : Prop := b ≠ 0x3E ∧ b ≠ 0x5B ∧ b ≠ 0x22 ∧ b ≠ 0x27

private theorem IsDoctypeMark.isInert {mark : Bytes} (h : IsDoctypeMark mark) {b : UInt8}
    (hb : b ∈ mark) : isInert b := by
  have hcapital : capital b ∈ ascii "<!DOCTYPE" := h ▸ List.mem_map_of_mem hb
  refine ⟨?_, ?_, ?_, ?_⟩ <;> rintro rfl <;> revert hcapital <;> decide

private theorem doctypeLength?_inert {skipped : Bytes} (h : ∀ b ∈ skipped, isInert b)
    (rest : Bytes) : doctypeLength? .outside (skipped ++ rest) =
      (doctypeLength? .outside rest).map (· + skipped.length) := by
  induction skipped with
  | nil => simp
  | cons b skipped ih =>
    obtain ⟨⟨h₁, h₂, h₃, h₄⟩, hrest⟩ := List.forall_mem_cons.mp h
    rw [List.cons_append, doctypeLength?]
    simp only [DoctypeState.next?, h₁, h₂, h₃, h₄, or_self, if_false]
    rw [ih hrest, Option.map_map]
    rfl

theorem closed_eq_ok_iff {kind k : PieceKind} {begins : Bool} {length? : Option Nat}
    {mistake : Malformation} {n : Nat} :
    closed kind begins length? mistake = .ok (k, n) ↔
      k = kind ∧ begins = true ∧ length? = some n := by
  unfold closed
  cases length? <;> cases begins <;> simp [eq_comm]

theorem measureDoctype_eq_ok_iff {bytes : Bytes} {k : PieceKind} {n : Nat} :
    measureDoctype bytes = .ok (k, n) ↔
      k = .doctype ∧ startsIgnoringCase (ascii "<!DOCTYPE") bytes = true ∧
        (doctypeLength? .outside (bytes.drop 1)).map (· + 1) = some n ∧
          ((bytes.take (n - 1)).drop 9).all Text.isBlankByte = false := by
  simp only [measureDoctype, bind, Except.bind]
  cases hc : closed .doctype (startsIgnoringCase (ascii "<!DOCTYPE") bytes)
      ((doctypeLength? .outside (bytes.drop 1)).map (· + 1)) .openDoctype with
  | error =>
    constructor
    · intro h
      cases h
    · rintro ⟨-, hb, hn, -⟩
      rw [closed_eq_ok_iff.mpr ⟨rfl, hb, hn⟩] at hc
      cases hc
  | ok v =>
    obtain ⟨k', n'⟩ := v
    obtain ⟨rfl, hb, hn⟩ := closed_eq_ok_iff.mp hc
    rw [hb, hn]
    dsimp only
    split
    · rename_i hall
      constructor
      · intro h
        cases h
      · rintro ⟨-, -, hn, hno⟩
        cases hn
        rw [hall] at hno
        cases hno
    · rename_i hall
      simp only [pure, Except.pure, Except.ok.injEq, Prod.mk.injEq, Option.some.injEq, true_and]
      constructor
      · rintro ⟨rfl, rfl⟩
        exact ⟨rfl, rfl, by simpa using hall⟩
      · rintro ⟨rfl, rfl, -⟩
        exact ⟨rfl, rfl⟩

theorem measureInstruction_eq_ok_iff {bytes : Bytes} {k : PieceKind} {n : Nat} :
    measureInstruction bytes = .ok (k, n) ↔
      k = .instruction ∧ lengthThrough? (ascii "?>") 1 bytes = some n ∧ n ≠ 3 := by
  unfold measureInstruction
  cases lengthThrough? (ascii "?>") 1 bytes with
  | none =>
    dsimp only
    split <;> simp
  | some length =>
    simp only [closed_eq_ok_iff, decide_eq_true_eq, Option.some.injEq, ne_eq]
    grind

theorem kind_of_measureTag {bytes : Bytes} {k : PieceKind} {n : Nat}
    (h : measureTag bytes = .ok (k, n)) : k = .startTag ∨ k = .emptyTag ∨ k = .endTag := by
  unfold measureTag at h
  split at h
  · cases h
  · cases h
  · cases h
    split
    · simp
    · split <;> simp

/-- Pieces whose inside is a value of its own. -/
def isLeaf : PieceKind → Bool
  | .comment | .instruction | .doctype => true
  | _ => false

/-- The markup of a leaf is told from its second byte on. -/
private theorem measureMarkup_leaf {bytes : Bytes} {kind : PieceKind} {n : Nat} (hk : isLeaf kind)
    (h : measureMarkup bytes = .ok (kind, n)) :
    (kind = .comment ∧ ascii "<!--" <+: bytes ∧ lengthThrough? (ascii "-->") 4 bytes = some n) ∨
      (kind = .instruction ∧ (bytes.drop 1).head? = some 0x3F ∧
        lengthThrough? (ascii "?>") 1 bytes = some n ∧ n ≠ 3) ∨
      kind = .doctype ∧ measureDoctype bytes = .ok (kind, n) := by
  unfold measureMarkup at h
  split at h
  · obtain ⟨rfl, -⟩ := closed_eq_ok_iff.mp h
    cases hk
  · obtain ⟨rfl, hp, hn⟩ := closed_eq_ok_iff.mp h
    exact .inl ⟨rfl, List.isPrefixOf_iff_prefix.mp hp, hn⟩
  · exact .inr (.inr ⟨(measureDoctype_eq_ok_iff.mp h).1, h⟩)
  · exact .inr (.inr ⟨(measureDoctype_eq_ok_iff.mp h).1, h⟩)
  · cases h
  · rename_i hd
    obtain ⟨rfl, hn⟩ := measureInstruction_eq_ok_iff.mp h
    exact .inr (.inl ⟨rfl, by rw [hd]; rfl, hn⟩)
  · rcases kind_of_measureTag h with rfl | rfl | rfl <;> cases hk

theorem measureMarkup_comment_iff {bytes : Bytes} {n : Nat} :
    measureMarkup bytes = .ok (.comment, n) ↔
      ascii "<!--" <+: bytes ∧ lengthThrough? (ascii "-->") 4 bytes = some n := by
  constructor
  · intro h
    simpa using measureMarkup_leaf rfl h
  · rintro ⟨⟨rest, rfl⟩, hn⟩
    exact closed_eq_ok_iff.mpr ⟨rfl, rfl, hn⟩

theorem measureMarkup_instruction_iff {bytes : Bytes} {n : Nat} :
    measureMarkup bytes = .ok (.instruction, n) ↔
      (bytes.drop 1).head? = some 0x3F ∧ lengthThrough? (ascii "?>") 1 bytes = some n ∧ n ≠ 3 := by
  constructor
  · intro h
    simpa using measureMarkup_leaf rfl h
  · rintro ⟨hp, hn⟩
    obtain ⟨rest, hd⟩ : ∃ rest, bytes.drop 1 = 0x3F :: rest := by
      cases hd : bytes.drop 1 with
      | nil => rw [hd] at hp; cases hp
      | cons b rest => rw [hd] at hp; cases hp; exact ⟨rest, rfl⟩
    unfold measureMarkup
    rw [hd]
    exact measureInstruction_eq_ok_iff.mpr ⟨rfl, hn⟩

/-- The opening mark is passed over, whatever the case of its letters. -/
private theorem doctypeLength?_mark {mark : Bytes} (hmark : IsDoctypeMark mark) (rest : Bytes) :
    (doctypeLength? .outside ((mark ++ rest).drop 1)).map (· + 1) =
      (doctypeLength? .outside rest).map (· + 9) := by
  have hlength : (mark.drop 1).length = 8 := by rw [List.length_drop, hmark.length]
  rw [List.drop_append_of_le_length (by rw [hmark.length]; decide),
    doctypeLength?_inert fun b hb => hmark.isInert (List.mem_of_mem_drop hb), hlength,
    Option.map_map]
  rfl

private theorem inside_mark {mark : Bytes} (hmark : IsDoctypeMark mark) (rest : Bytes) {m : Nat}
    (hm : 0 < m) : (((mark ++ rest).take (m + 9 - 1)).drop 9) = rest.take (m - 1) := by
  rw [List.drop_take, ← hmark.length, List.drop_left]
  congr 1
  omega

theorem measureMarkup_doctype_iff {bytes : Bytes} {n : Nat} :
    measureMarkup bytes = .ok (.doctype, n) ↔
      ∃ mark rest m, bytes = mark ++ rest ∧ IsDoctypeMark mark ∧ n = m + 9 ∧
        doctypeLength? .outside rest = some m ∧
          (rest.take (m - 1)).all Text.isBlankByte = false := by
  constructor
  · intro h
    have hmeasure : measureDoctype bytes = .ok (.doctype, n) := by
      simpa using measureMarkup_leaf rfl h
    obtain ⟨-, hbegins, hn, hall⟩ := measureDoctype_eq_ok_iff.mp hmeasure
    obtain ⟨mark, rest, rfl, hmark⟩ := startsIgnoringCase_doctype_iff.mp hbegins
    rw [doctypeLength?_mark hmark] at hn
    obtain ⟨m, hm, rfl⟩ := Option.map_eq_some_iff.mp hn
    rw [inside_mark hmark rest (doctypeLength?_take hm).1] at hall
    exact ⟨mark, rest, m, rfl, hmark, rfl, hm, hall⟩
  · rintro ⟨mark, rest, m, rfl, hmark, rfl, hm, hall⟩
    have hbegins := startsIgnoringCase_doctype_iff.mpr ⟨mark, rest, rfl, hmark⟩
    have hmeasure : measureDoctype (mark ++ rest) = .ok (.doctype, m + 9) := by
      rw [measureDoctype_eq_ok_iff, doctypeLength?_mark hmark,
        inside_mark hmark rest (doctypeLength?_take hm).1]
      exact ⟨rfl, hbegins, by rw [hm]; rfl, hall⟩
    obtain ⟨d, letters, rfl, rfl | rfl⟩ := hmark.eq_cons
    · exact hmeasure
    · exact hmeasure

section
variable {bytes : Bytes} (rest : Bytes)

private theorem measureMarkup_comment_append :
    measureMarkup (bytes ++ rest) = .ok (.comment, bytes.length) ↔
      measureMarkup bytes = .ok (.comment, bytes.length) := by
  have hle {l : Bytes} (h : lengthThrough? (ascii "-->") 4 l = some bytes.length) :
      7 ≤ bytes.length := (lengthThrough?_le (by decide) h).1
  rw [measureMarkup_comment_iff, measureMarkup_comment_iff]
  constructor
  · rintro ⟨hp, hn⟩
    have h7 := hle hn
    exact ⟨List.prefix_of_prefix_length_le hp (List.prefix_append _ _) (by simp [ascii]; omega),
      (lengthThrough?_append rest (Nat.le_refl _) (by omega)).mp hn⟩
  · rintro ⟨hp, hn⟩
    have h7 := hle hn
    exact ⟨hp.trans (List.prefix_append _ _),
      (lengthThrough?_append rest (Nat.le_refl _) (by omega)).mpr hn⟩

private theorem measureMarkup_instruction_append :
    measureMarkup (bytes ++ rest) = .ok (.instruction, bytes.length) ↔
      measureMarkup bytes = .ok (.instruction, bytes.length) := by
  have hle {l : Bytes} (h : lengthThrough? (ascii "?>") 1 l = some bytes.length) :
      3 ≤ bytes.length := (lengthThrough?_le (by decide) h).1
  have hhead (h3 : 3 ≤ bytes.length) : ((bytes ++ rest).drop 1).head? = (bytes.drop 1).head? := by
    match bytes, h3 with
    | _ :: _ :: _, _ => rfl
  rw [measureMarkup_instruction_iff, measureMarkup_instruction_iff]
  constructor
  · rintro ⟨hp, hn, hne⟩
    have h3 := hle hn
    exact ⟨hhead h3 ▸ hp, (lengthThrough?_append rest (Nat.le_refl _) (by omega)).mp hn, hne⟩
  · rintro ⟨hp, hn, hne⟩
    have h3 := hle hn
    exact ⟨hhead h3 ▸ hp, (lengthThrough?_append rest (Nat.le_refl _) (by omega)).mpr hn, hne⟩

private theorem measureMarkup_doctype_append :
    measureMarkup (bytes ++ rest) = .ok (.doctype, bytes.length) ↔
      measureMarkup bytes = .ok (.doctype, bytes.length) := by
  have hsame (inner : Bytes) : doctypeLength? .outside (inner ++ rest) = some inner.length ↔
      doctypeLength? .outside inner = some inner.length :=
    doctypeLength?_append rest (Nat.le_refl _)
  have hvalue (inner : Bytes) :
      (inner ++ rest).take (inner.length - 1) = inner.take (inner.length - 1) :=
    List.take_append_of_le_length (by omega)
  have hlength {mark inner : Bytes} (hmark : IsDoctypeMark mark) {m : Nat}
      (h : (mark ++ inner).length = m + 9) : m = inner.length := by
    rw [List.length_append, hmark.length] at h
    omega
  rw [measureMarkup_doctype_iff, measureMarkup_doctype_iff]
  constructor
  · rintro ⟨mark, others, m, hbytes, hmark, hn, hm, hall⟩
    obtain ⟨inner, rfl⟩ : mark <+: bytes :=
      List.prefix_of_prefix_length_le ⟨others, hbytes.symm⟩ (List.prefix_append _ _)
        (by rw [hmark.length]; omega)
    obtain rfl := hlength hmark hn
    rw [List.append_assoc, List.append_cancel_left_eq] at hbytes
    subst hbytes
    rw [hvalue] at hall
    exact ⟨mark, inner, _, rfl, hmark, hn, (hsame inner).mp hm, hall⟩
  · rintro ⟨mark, inner, m, rfl, hmark, hn, hm, hall⟩
    obtain rfl := hlength hmark hn
    refine ⟨mark, inner ++ rest, _, List.append_assoc _ _ _, hmark, hn, (hsame inner).mpr hm, ?_⟩
    rwa [hvalue]

/-- A leaf is cut alike whatever follows it. -/
theorem measureMarkup_append {kind : PieceKind} (hk : isLeaf kind) :
    measureMarkup (bytes ++ rest) = .ok (kind, bytes.length) ↔
      measureMarkup bytes = .ok (kind, bytes.length) := by
  cases kind with
  | comment => exact measureMarkup_comment_append rest
  | instruction => exact measureMarkup_instruction_append rest
  | doctype => exact measureMarkup_doctype_append rest
  | _ => cases hk

end

theorem measure_markup (mode : Mode) {bytes : Bytes} (h : bytes.head? = some 0x3C) :
    measure mode bytes = measureMarkup bytes := by
  simp [measure, h]

/-- What is measured is read. -/
theorem read?_of_measure {mode : Mode} {kind : PieceKind} {bytes rest : Bytes} (hne : bytes ≠ [])
    (h : measure mode (bytes ++ rest) = .ok (kind, bytes.length)) :
    read? mode (bytes ++ rest) = .ok (some (⟨kind, bytes⟩, rest)) := by
  cases bytes with
  | nil => exact absurd rfl hne
  | cons b bytes =>
    rw [List.cons_append] at h ⊢
    rw [read?, h]
    simp [Except.map]

end MarkupGraft.Markup.Piece
