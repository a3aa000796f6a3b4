import MarkupGraft.Proofs.Markup.Marks
import MarkupGraft.Proofs.Markup.Tiling

/-!
Bytes that are no text are reported at the place where the invalid sequence begins; of those in a tag only
the place inside the name, the key or the value is told. Main statement: `invalidText_position`.
-/

namespace MarkupGraft.Markup
open Text (IsAscii IsText Breaks Separate FailsAt)

/-! Attributes -/

namespace TagRest

private theorem takeWhile_append_drop (p : UInt8 → Bool) (bytes : Bytes) :
    bytes.takeWhile p ++ bytes.drop (bytes.takeWhile p).length = bytes :=
  List.prefix_iff_eq_append.mp (List.takeWhile_prefix p)

private theorem lt_of_isBlankByte {b : UInt8} (h : Text.isBlankByte b) : b < 0x80 := by
  have hb : ((b = 0x20 ∨ b = 0x09) ∨ b = 0x0D) ∨ b = 0x0A := by simpa [Text.isBlankByte] using h
  rcases hb with ((rfl | rfl) | rfl) | rfl <;> decide

private theorem lt_of_endsKey {b : UInt8} (h : endsKey b) : b < 0x80 := by
  have hb : b = 0x3D ∨ Text.isBlankByte b := by simpa [endsKey] using h
  rcases hb with rfl | hb
  · decide
  · exact lt_of_isBlankByte hb

private theorem exists_skipBlank (r : TagRest) :
    ∃ blanks, blanks ++ r.skipBlank.bytes = r.bytes ∧ IsAscii blanks :=
  ⟨_, takeWhile_append_drop _ r.bytes, fun b hb =>
    lt_of_isBlankByte (List.all_eq_true.mp List.all_takeWhile b hb)⟩

/-- A value stands between ASCII bytes. -/
private theorem exists_readValue {mode : Mode} {r rest : TagRest} {inner : Bytes}
    (h : readValue mode r = .ok (inner, rest)) : ∃ before behind,
      before ++ (inner ++ (behind ++ rest.bytes)) = r.bytes ∧ IsAscii before ∧ IsAscii behind ∧
        Breaks (behind ++ rest.bytes) := by
  obtain ⟨blanks, hblanks, hascii⟩ := exists_skipBlank r
  simp only [readValue] at h
  split at h
  · cases h
  · rename_i quote bytes hstart
    rw [hstart] at hblanks
    split at h
    · rename_i hq
      have hlt : quote < 0x80 := by
        have hq : quote = 0x22 ∨ quote = 0x27 := by simpa [isQuote] using hq
        rcases hq with rfl | rfl <;> decide
      have happend := takeWhile_append_drop (· ≠ quote) bytes
      have hbreaks := Text.breaks_takeWhile (p := (· ≠ quote)) (fun b hb => by simp_all) bytes
      split at h
      · cases h
      · rename_i closing behind hd
        cases h
        rw [hd] at happend hbreaks
        have hclosing : closing < 0x80 := Text.breaks_cons.mp hbreaks
        refine ⟨blanks ++ [quote], [closing], ?_, hascii.append (by simpa [IsAscii]),
          by simpa [IsAscii], hbreaks⟩
        rw [← hblanks, List.append_assoc, List.singleton_append, List.singleton_append, happend]
    · split at h
      · cases h
      · cases h
        rw [hstart]
        refine ⟨blanks, [], ?_, hascii, by simp [IsAscii], ?_⟩
        · rw [List.nil_append, takeWhile_append_drop, hblanks]
        · exact Text.breaks_takeWhile (fun b hb => lt_of_isBlankByte (by simpa using hb)) _

/-- The key and the value of an attribute stand between ASCII bytes. -/
private theorem exists_readAttribute {mode : Mode} {seen : List (Bytes × Nat)} {offset : Nat}
    {first : UInt8} {bytes : Bytes} {found : RawAttribute} {rest : TagRest}
    (h : readAttribute mode seen offset first bytes = .ok (found, rest)) : ∃ before behind,
      found.key ++ (before ++ (found.value ++ (behind ++ rest.bytes))) = first :: bytes ∧
        IsAscii before ∧ IsAscii behind ∧
        Breaks (before ++ (found.value ++ (behind ++ rest.bytes))) ∧ Breaks (behind ++ rest.bytes) := by
  have hkey := takeWhile_append_drop (!endsKey ·) bytes
  have hbreaks := Text.breaks_takeWhile (p := (!endsKey ·))
    (fun b hb => lt_of_endsKey (by simpa using hb)) bytes
  obtain ⟨blanks, hblanks, hascii⟩ :=
    exists_skipBlank ((TagRest.mk (offset + 1) bytes).dropWhile (!endsKey ·))
  have hblanks : blanks ++ _ = bytes.drop (bytes.takeWhile (!endsKey ·)).length := hblanks
  rw [← hblanks] at hkey hbreaks
  simp only [readAttribute] at h
  split at h
  · rename_i tail hnext
    rw [hnext] at hkey hbreaks
    split at h
    · cases h
    · obtain ⟨⟨value, others⟩, hv, hpair⟩ := map_eq_ok_iff.mp h
      cases hpair
      obtain ⟨before, behind, htail, hbefore, hbehind, hends⟩ := exists_readValue hv
      have htail : before ++ (value ++ (behind ++ others.bytes)) = tail := htail
      refine ⟨blanks ++ 0x3D :: before, behind, ?_, ?_, hbehind, ?_, hends⟩
      · simp [htail, hkey]
      · exact hascii.append (List.forall_mem_cons.mpr ⟨by decide, hbefore⟩)
      · simpa [htail] using hbreaks
  · split at h
    · cases h
      exact ⟨[], blanks, by simp [hkey], by simp [IsAscii], hascii, by simpa using hbreaks, hbreaks⟩
    · cases h

end TagRest

namespace Reader

theorem decodeAt_error {position reported : Nat} {bytes : Bytes}
    (h : decodeAt position bytes = .error (.invalidText reported)) :
    ∃ offset, Text.decode bytes = .error offset ∧ reported = position + offset := by
  unfold decodeAt at h
  cases hd : Text.decode bytes with
  | ok text => rw [hd] at h; cases h
  | error offset => rw [hd] at h; cases h; exact ⟨offset, rfl, rfl⟩

theorem isText_of_decodeAt {position : Nat} {bytes : Bytes} {text : String}
    (h : decodeAt position bytes = .ok text) : IsText bytes := by
  unfold decodeAt at h
  cases hd : Text.decode bytes with
  | error => rw [hd] at h; cases h
  | ok text => exact Text.isText_of_decode hd

theorem unescapeAt_ne {mode : Mode} {position reported : Nat} {text : String} :
    unescapeAt mode position text ≠ .error (.invalidText reported) := by
  intro h
  cases mode with
  | html => cases h
  | xml =>
    unfold unescapeAt at h
    cases hu : unescape text <;> simp only [hu] at h <;> cases h

section
variable {mode : Mode} {position reported : Nat}

private theorem readAttribute_error {a : RawAttribute}
    (h : readAttribute mode position a = .error (.invalidText reported)) :
    ∃ offset, reported = position + offset ∧ (Text.decode a.key = .error offset ∨
      IsText a.key ∧ Text.decode a.value = .error offset) := by
  unfold readAttribute at h
  rcases bind_eq_error_iff.mp h with hkey | ⟨key, hkey, h⟩
  · obtain ⟨offset, hd, rfl⟩ := decodeAt_error hkey
    exact ⟨offset, rfl, .inl hd⟩
  · rcases bind_eq_error_iff.mp h with hvalue | ⟨value, -, h⟩
    · obtain ⟨offset, hd, rfl⟩ := decodeAt_error hvalue
      exact ⟨offset, rfl, .inr ⟨isText_of_decodeAt hkey, hd⟩⟩
    · rcases bind_eq_error_iff.mp h with h | ⟨_, -, h⟩
      · exact absurd h unescapeAt_ne
      · cases h

private theorem readAttribute_ok {a : RawAttribute} {read : Attribute}
    (h : readAttribute mode position a = .ok read) : IsText a.key ∧ IsText a.value := by
  obtain ⟨key, hkey, h⟩ := bind_eq_ok_iff.mp h
  obtain ⟨value, hvalue, -⟩ := bind_eq_ok_iff.mp h
  exact ⟨isText_of_decodeAt hkey, isText_of_decodeAt hvalue⟩

/-- The attribute whose key or value is no text stands behind attributes that are text. -/
private theorem failsAt_of_attributesFrom {seen : List (Bytes × Nat)} {r : TagRest}
    (h : (attributesFrom mode seen r).1.mapM (readAttribute mode position) =
      .error (.invalidText reported)) :
    ∃ front part offset, FailsAt r.bytes front part offset ∧ reported = position + offset := by
  fun_induction attributesFrom mode seen r with
  | case1 => cases h
  | case2 => cases h
  | case3 seen r first bytes hstart found rest hread others mistake hothers ih =>
    obtain ⟨blanks, hblanks, hascii⟩ := TagRest.exists_skipBlank r
    obtain ⟨before, behind, hbytes, hbefore, hbehind, hkey, hvalue⟩ :=
      TagRest.exists_readAttribute hread
    rw [hstart, ← hbytes] at hblanks
    rw [List.mapM_cons] at h
    rcases bind_eq_error_iff.mp h with h | ⟨read, hok, h⟩
    · obtain ⟨offset, rfl, hd | ⟨htext, hd⟩⟩ := readAttribute_error h
      · exact ⟨blanks, _, offset, ⟨⟨_, hblanks, hkey⟩, hascii.isText, hd⟩, rfl⟩
      · refine ⟨blanks ++ (found.key ++ before), _, offset, ⟨⟨_, ?_, hvalue⟩, ?_, hd⟩, rfl⟩
        · rw [← hblanks, List.append_assoc, List.append_assoc]
        · exact hascii.isText.append (htext.append hbefore.isText)
    · rcases bind_eq_error_iff.mp h with h | ⟨_, -, h⟩
      · rw [hothers] at ih
        obtain ⟨front, part, offset, hfails, rfl⟩ := ih h
        obtain ⟨hk, hv⟩ := readAttribute_ok hok
        have hfront : IsText (blanks ++ (found.key ++ (before ++ (found.value ++ behind)))) :=
          hascii.isText.append (hk.append (hbefore.isText.append (hv.append hbehind.isText)))
        have hbytes : blanks ++ (found.key ++ (before ++ (found.value ++ behind))) ++ rest.bytes =
            r.bytes := by
          rw [← hblanks]
          simp only [List.append_assoc]
        exact ⟨_, part, offset, hbytes ▸ hfails.behind hfront, rfl⟩
      · cases h

private theorem failsAt_of_readTag {content : Bytes}
    (h : readTag mode position content = .error (.invalidText reported)) :
    ∃ front part offset, FailsAt content front part offset ∧ reported = position + offset := by
  have happend := TagRest.takeWhile_append_drop (!Text.isBlankByte ·) content
  have hbreaks := Text.breaks_takeWhile (p := (!Text.isBlankByte ·))
    (fun b hb => TagRest.lt_of_isBlankByte (by simpa using hb)) content
  unfold readTag at h
  rcases bind_eq_error_iff.mp h with hname | ⟨name, hname, h⟩
  · obtain ⟨offset, hd, rfl⟩ := decodeAt_error hname
    exact ⟨[], _, offset, ⟨⟨_, happend, hbreaks⟩, ⟨"", rfl⟩, hd⟩, rfl⟩
  · rcases bind_eq_error_iff.mp h with hattributes | ⟨_, -, h⟩
    · obtain ⟨front, part, offset, hfails, rfl⟩ := failsAt_of_attributesFrom hattributes
      have := hfails.behind (isText_of_decodeAt hname)
      exact ⟨_, part, offset, happend ▸ this, rfl⟩
    · split at h <;> cases h

private theorem exists_endTagName (content : Bytes) :
    ∃ blanks, endTagName content ++ blanks = content ∧ IsAscii blanks := by
  unfold endTagName
  split
  · exact ⟨[], List.append_nil _, by simp [IsAscii]⟩
  · refine ⟨(content.reverse.takeWhile Text.isBlankByte).reverse, ?_, fun b hb => ?_⟩
    · rw [Text.dropEndWhile, ← List.reverse_append, List.takeWhile_append_dropWhile,
        List.reverse_reverse]
    · exact TagRest.lt_of_isBlankByte
        (List.all_eq_true.mp List.all_takeWhile b (List.mem_reverse.mp hb))

/-- The position that is told of a failure `offset` bytes into a part of a piece that begins at `start`,
where the part stands behind `lead` other bytes. Of a tag it leaves these out. -/
def failurePosition (kind : PieceKind) (start lead offset : Nat) : Nat :=
  if Piece.isTag kind then start + offset else start + (lead + offset)

/-- What is no text fails between the marks of its piece. In a tag a mark stands before it. -/
theorem failsAt_of_event {piece : Piece} {span : Span}
    (hm : Piece.Marked piece.kind piece.bytes)
    (h : event mode piece span piece.bytes = .error (.invalidText reported)) :
    ∃ front part offset, FailsAt piece.bytes front part offset ∧
      (Piece.isTag piece.kind → front ≠ []) ∧
      reported = failurePosition piece.kind span.start front.length offset := by
  have hinside (hk : ¬Piece.isTag piece.kind) (h : decodeAt (span.start + (Piece.marks piece.kind).1)
      piece.inside = .error (.invalidText reported)) :
      ∃ front part offset, FailsAt piece.bytes front part offset ∧
        (Piece.isTag piece.kind → front ≠ []) ∧
        reported = failurePosition piece.kind span.start front.length offset := by
    obtain ⟨offset, hd, rfl⟩ := decodeAt_error h
    obtain ⟨opening, hlength, hfails⟩ := hm.failsAt (Text.failsAt_of_decode hd)
    refine ⟨_, _, offset, hfails, fun htag => absurd htag hk, ?_⟩
    rw [failurePosition, if_neg hk, List.append_nil, hlength, Nat.add_assoc]
  have htag (hk : Piece.isTag piece.kind) (h : ∃ front part offset,
      FailsAt piece.inside front part offset ∧ reported = span.start + offset) :
      ∃ front part offset, FailsAt piece.bytes front part offset ∧
        (Piece.isTag piece.kind → front ≠ []) ∧
        reported = failurePosition piece.kind span.start front.length offset := by
    obtain ⟨front, part, offset, hfails, rfl⟩ := h
    obtain ⟨opening, hlength, hfails⟩ := hm.failsAt hfails
    have hopening : 0 < (Piece.marks piece.kind).1 := by
      revert hk
      cases piece.kind <;> decide
    have hne : opening ≠ [] := List.ne_nil_of_length_pos (hlength ▸ hopening)
    exact ⟨_, part, offset, hfails, fun _ => by simp [hne], by rw [failurePosition, if_pos hk]⟩
  obtain ⟨kind, bytes⟩ := piece
  cases kind with
  | text | reference =>
    rcases bind_eq_error_iff.mp h with h | ⟨value, -, h⟩
    · obtain ⟨offset, hd, rfl⟩ := decodeAt_error h
      refine ⟨[], _, offset, Text.failsAt_of_decode hd, fun hk => absurd hk Bool.false_ne_true, ?_⟩
      rw [failurePosition, if_neg (by simp [Piece.isTag]), List.length_nil, Nat.zero_add]
    · rcases bind_eq_error_iff.mp h with h | ⟨_, -, h⟩
      · exact absurd h unescapeAt_ne
      · cases h
  | characterData | comment | instruction | doctype =>
    rcases bind_eq_error_iff.mp h with h | ⟨_, -, h⟩
    · exact hinside (by simp [Piece.isTag]) h
    · cases h
  | startTag =>
    rcases bind_eq_error_iff.mp h with h | ⟨_, -, h⟩
    · exact htag rfl (failsAt_of_readTag h)
    · dsimp only at h
      split at h <;> cases h
  | emptyTag =>
    rcases bind_eq_error_iff.mp h with h | ⟨_, -, h⟩
    · exact htag rfl (failsAt_of_readTag h)
    · cases h
  | endTag =>
    rcases bind_eq_error_iff.mp h with h | ⟨_, -, h⟩
    · obtain ⟨offset, hd, rfl⟩ := decodeAt_error h
      obtain ⟨blanks, happend, hascii⟩ := exists_endTagName (Piece.inside ⟨.endTag, bytes⟩)
      exact htag rfl ⟨[], _, offset, ⟨⟨blanks, happend, hascii.breaks⟩, ⟨"", rfl⟩, hd⟩, rfl⟩
    · cases h

end

/-! Readers -/

section
variable {input : Bytes} {r rest : Reader}

/-- Whether no sequence reaches over the place where a reader stands. -/
def Parts (input : Bytes) (r : Reader) : Prop :=
  Separate (input.take r.offset) (input.drop r.offset)

/-- Pieces do not share sequences. -/
private theorem parts_of_next? {e : Event} (hr : r.On input) (ha : r.ahead = 0)
    (h : r.next? = .ok (some (e, rest))) : rest.Parts input := by
  obtain ⟨piece, others, hread, -, rfl⟩ := next?_cases h
  obtain ⟨happend, hne⟩ := Piece.append_of_read? hread
  rw [ha, List.drop_zero, hr.source] at happend
  have htake : input.take (r.offset + piece.bytes.length) =
      input.take r.offset ++ piece.bytes := by
    rw [List.take_add, ← happend, List.take_left]
  have hdrop : input.drop (r.offset + piece.bytes.length) = others := by
    rw [← List.drop_drop, ← happend, List.drop_left]
  rw [Parts]
  dsimp only
  rw [htake, hdrop]
  exact (Piece.marked_of_read? hread).2.append_left hne _

private theorem parts_of_collect {run? : Option TextRun} {text? markup? : Option Token}
    (h : r.collect run? = .ok (text?, markup?, rest)) (hr : r.On input) (ha : r.ahead = 0)
    (hp : r.Parts input) : rest.Parts input := by
  fun_induction collect r run? with
  | case1 => cases h
  | case2 => cases h; exact hp
  | case3 r run? token rest hn =>
    cases h
    exact parts_of_next? hr ha hn
  | case4 r run? span value next hn ih =>
    exact ih h (hr.next? hn) ((next?_kept hn).2.trans ha) (parts_of_next? hr ha hn)

/-- A reading that ends with an error does so at a place between pieces. -/
private theorem exists_of_collect_error {run? : Option TextRun} {e : ParseError}
    (h : r.collect run? = .error e) (hr : r.On input) (ha : r.ahead = 0) (hp : r.Parts input) :
    ∃ last : Reader, last.next? = .error e ∧ last.On input ∧ last.ahead = 0 ∧ last.Parts input ∧
      last.mode = r.mode ∧ r.offset ≤ last.offset := by
  fun_induction collect r run? with
  | case1 r run? e' hn =>
    cases h
    exact ⟨r, hn, hr, ha, hp, rfl, Nat.le_refl _⟩
  | case2 => cases h
  | case3 => cases h
  | case4 r run? span value next hn ih =>
    have hlt := (span_of_next? hn).2
    obtain ⟨hmode, hahead⟩ := next?_kept hn
    obtain ⟨last, herror, hon, hlast, hparts, hlike, hle⟩ :=
      ih h (hr.next? hn) (hahead.trans ha) (parts_of_next? hr ha hn)
    exact ⟨last, herror, hon, hlast, hparts, hlike.trans hmode, by omega⟩

private theorem exists_of_next?_error {reported : Nat} (hr : r.On input) (ha : r.ahead = 0)
    (h : r.next? = .error (.invalidText reported)) : ∃ piece rest front part offset,
      Piece.read? r.mode (input.drop r.offset) = .ok (some (piece, rest)) ∧
        FailsAt piece.bytes front part offset ∧ (Piece.isTag piece.kind → front ≠ []) ∧
        reported = failurePosition piece.kind r.offset front.length offset := by
  unfold next? at h
  rw [ha, List.drop_zero, hr.source] at h
  split at h
  · cases h
  · cases h
  · rename_i piece rest hread
    have hslice : (input.drop r.offset).take piece.bytes.length = piece.bytes := by
      rw [← (Piece.append_of_read? hread).1, List.take_left]
    dsimp only at h
    rw [hslice] at h
    obtain ⟨front, part, offset, hfails⟩ :=
      failsAt_of_event (Piece.marked_of_read? hread).1 (map_eq_error_iff.mp h)
    exact ⟨piece, rest, front, part, offset, hread, hfails⟩

end

end Reader

namespace Tokenizer
variable {t rest last : Tokenizer} {token : Token}

/-- Whether no sequence reaches over the place from where reading goes on, where that is known. -/
def Parts (t : Tokenizer) : Prop := t.reader.ahead = 0 → t.reader.Parts t.input

private theorem Parts.take? {token? : Option Token} (ht : t.Aligned) (hp : t.Parts)
    (h : t.take? = .ok (token?, rest)) : rest.Parts := by
  rcases take?_cases h with ⟨-, -, -, rfl⟩ | ⟨-, text?, markup?, reader, hc, -, rfl⟩
  · exact hp
  · intro ha
    have hahead : t.reader.ahead = 0 := (Reader.collect_kept hc).2.1.symm.trans ha
    exact Reader.parts_of_collect hc ht.reader hahead (hp hahead)

private theorem Parts.next (ht : t.Aligned) (hp : t.Parts)
    (h : t.next = .ok (some (token, rest))) : rest.Parts := by
  have hon := (ht.next h).1.reader
  obtain ⟨taken, u, htake, hh⟩ := next_eq_some_iff.mp h
  have hu : u.Parts := hp.take? ht htake
  rcases handOut_cases hh with ⟨name, attributes, -, -, rfl⟩ |
    ⟨name, counted, closes, openElements, -, -, -, rfl⟩ | ⟨-, -, rfl⟩
  · split
    · rename_i hraw
      rw [if_pos hraw] at hon
      refine fun _ => .inl ?_
      rw [← hon.source]
      -- reading goes on at an end tag
      rcases beginsEndTag_splitRawText name (u.enter taken name).reader.source with hnil | hbegins
      · rw [queueRawText, Reader.startingAt, hnil]
        exact Text.breaks_nil
      · intro b hb
        rw [queueRawText, Reader.startingAt, head?_of_beginsEndTag hbegins] at hb
        cases hb
        decide
    · exact hu
  · exact hu
  · exact hu

private theorem Run.parts {depth : Nat} {tokens : List Token} (h : Run depth t tokens last)
    (ht : t.Aligned) (hp : t.Parts) : last.Parts := by
  induction h with
  | done t => exact hp
  | step hn _ _ ih => exact ih (ht.next hn).1 (hp.next ht hn)

private theorem handOut_ne {position : Nat} : t.handOut token ≠ .error (.invalidText position) := by
  intro h
  unfold handOut at h
  split at h
  · cases h
  · have hclose := map_eq_error_iff.mp h
    unfold OpenElements.close at hclose
    split at hclose
    · split at hclose <;> cases hclose
    · split at hclose <;> cases hclose
  · cases h

/-- The tokens before bytes that are no text have been handed out when these are met. -/
private theorem collect_of_next_error {position : Nat} (h : t.next = .error (.invalidText position)) :
    t.pending? = none ∧ t.reader.collect none = .error (.invalidText position) := by
  rcases bind_eq_error_iff.mp h with htake | ⟨⟨token?, u⟩, -, h⟩
  · unfold Tokenizer.take? at htake
    split at htake
    · cases htake
    · rename_i hp
      exact ⟨hp, map_eq_error_iff.mp htake⟩
  · cases token? with
    | some token => exact absurd (map_eq_error_iff.mp h) handOut_ne
    | none =>
      dsimp only at h
      split at h <;> cases h

end Tokenizer

/-- Where reading stops at bytes that are no text, an invalid sequence is the first one of its piece: of the
name, a key or a value in a tag, and of what stands between the marks otherwise. The position that is
told leaves out what stands in a tag before the name, the key or the value, so no invalid sequence begins
there; in all other pieces it is the sequence's own. Reading must not be ahead of its offsets behind a
byte-order mark. -/
theorem invalidText_position {mode : Mode} {input : Bytes} {tokens : List Token} {position : Nat}
    (hmark : Reader.startsWithMark input → ∃ token ∈ tokens, (token.form.opensRaw? mode).isSome)
    (h : (Tokenizer.ofBytes mode input).tokens = (tokens, some (.invalidText position))) :
    ∃ stop start piece rest front part offset,
      Span.Tile 0 (tokens.map (·.span)) stop ∧ stop ≤ start ∧
      Piece.read? mode (input.drop start) = .ok (some (piece, rest)) ∧
      front ++ part <+: piece.bytes ∧ Text.decode part = .error offset ∧
      start + (front.length + offset) ∈ Text.invalidOffsets input ∧
      (∀ other ∈ Text.invalidOffsets input, start ≤ other → start + (front.length + offset) ≤ other) ∧
      position = Reader.failurePosition piece.kind start front.length offset ∧
      (position ∈ Text.invalidOffsets input ↔ ¬Piece.isTag piece.kind) := by
  obtain ⟨last, hr, herror⟩ := Tokenizer.exists_run_of_error h
  obtain ⟨hlast, htiles⟩ := hr.tile (Tokenizer.aligned_ofBytes mode input)
  obtain ⟨hinput, hmode⟩ := hr.kept
  have hinput : last.input = input := hinput
  have hmode : last.reader.mode = mode := hmode
  have hahead : last.reader.ahead = 0 := by
    rw [hr.ahead]
    by_cases hm : Reader.startsWithMark input
    · exact if_pos (List.any_eq_true.mpr (hmark hm))
    · have hzero : (Tokenizer.ofBytes mode input).reader.ahead = 0 := if_neg hm
      rw [hzero, ite_self]
  have hparts : last.Parts := hr.parts (Tokenizer.aligned_ofBytes mode input)
    fun _ => .inr (by simp [Tokenizer.ofBytes, Reader.startingAt])
  obtain ⟨hpending, hcollect⟩ := Tokenizer.collect_of_next_error herror
  obtain ⟨r, hnext, hon, hr0, hrparts, hrmode, hle⟩ :=
    Reader.exists_of_collect_error hcollect hlast.reader hahead (hparts hahead)
  obtain ⟨piece, rest, front, part, offset, hread, hfails, hfront, rfl⟩ :=
    Reader.exists_of_next?_error hon hr0 hnext
  rw [hinput] at hon hrparts hread
  rw [hrmode, hmode] at hread
  obtain ⟨happend, -⟩ := Piece.append_of_read? hread
  have hposition : last.position = last.reader.offset := hlast.position_eq hpending
  have hlength : (input.take r.offset).length = r.offset := by
    rw [List.length_take]
    have := hon.room
    omega
  have hfirst : Text.FirstInvalid (input.drop r.offset) (front.length + offset) :=
    happend ▸ hfails.firstInvalid.before (Piece.marked_of_read? hread).2
  obtain ⟨hmem, hleast⟩ := hfirst.append hrparts
  rw [List.take_append_drop, hlength] at hmem hleast
  obtain ⟨back, hlayout, -⟩ := hfails.layout
  refine ⟨last.position, r.offset, piece, rest, front, part, offset, htiles, by omega, hread,
    ⟨back, by rw [List.append_assoc, hlayout]⟩, hfails.fails, hmem, hleast, rfl, ?_⟩
  rw [Reader.failurePosition]
  by_cases htag : Piece.isTag piece.kind
  · rw [if_pos htag]
    have hpos := List.length_pos_iff.mpr (hfront htag)
    refine iff_of_false (fun hin => ?_) (fun hno => hno htag)
    have := hleast _ hin (by omega)
    omega
  · rw [if_neg htag]
    exact iff_of_true hmem htag

theorem invalidText_position_name :
    (Tokenizer.ofBytes .xml [0x3C, 0xFF, 0x3E]).tokens = ([], some (.invalidText 0)) ∧
      Text.invalidOffsets [0x3C, 0xFF, 0x3E] = [1] ∧
      ∃ start piece rest, Piece.read? .xml (List.drop start [0x3C, 0xFF, 0x3E]) =
        .ok (some (piece, rest)) ∧ Piece.isTag piece.kind := by
  have htokens : (Tokenizer.ofBytes .xml [0x3C, 0xFF, 0x3E]).tokens =
      ([], some (.invalidText 0)) := by decide +kernel
  have hoffsets : Text.invalidOffsets [0x3C, 0xFF, 0x3E] = [1] := by decide +kernel
  obtain ⟨-, start, piece, rest, -, -, -, -, -, hread, -, -, -, -, -, hiff⟩ :=
    invalidText_position (by decide) htokens
  refine ⟨htokens, hoffsets, start, piece, rest, hread, Decidable.not_not.mp fun htag => ?_⟩
  have hmem := hiff.mpr htag
  rw [hoffsets] at hmem
  exact absurd hmem (by decide)

end MarkupGraft.Markup
