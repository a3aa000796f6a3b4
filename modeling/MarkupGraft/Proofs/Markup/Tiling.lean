import MarkupGraft.Proofs.Markup.Event
import MarkupGraft.Proofs.Markup.Run
import MarkupGraft.Proofs.Markup.Tokens

/-!
The spans of the tokens of an input lie side by side and leave nothing out: what is copied token by token
is copied whole. Behind a byte-order mark they lie too low, and the end of the input is left out.
-/

namespace MarkupGraft.Markup

namespace Span

/-- Spans that are not empty, each of which begins where the one before it ends. -/
def Tile : Nat → List Span → Nat → Prop
  | start, [], stop => start = stop
  | start, s :: spans, stop => s.start = start ∧ start < s.stop ∧ Tile s.stop spans stop

theorem tile_append {start stop : Nat} {spans others : List Span} :
    Tile start (spans ++ others) stop ↔
      ∃ middle, Tile start spans middle ∧ Tile middle others stop := by
  induction spans generalizing start with
  | nil => simp [Tile]
  | cons s spans ih => simp [Tile, ih, and_assoc]

theorem Tile.le {start stop : Nat} {spans : List Span} (h : Tile start spans stop) :
    start ≤ stop := by
  induction spans generalizing start with
  | nil => exact Nat.le_of_eq h
  | cons s spans ih =>
    obtain ⟨-, hlt, hrest⟩ := h
    exact Nat.le_trans (Nat.le_of_lt hlt) (ih hrest)

theorem tile_singleton {start stop : Nat} (h : start < stop) : Tile start [⟨start, stop⟩] stop :=
  ⟨rfl, h, rfl⟩

theorem length_cut (start stop : Nat) (bytes : Bytes) :
    ((Span.mk start stop).cut bytes).length = min stop bytes.length - start := by
  rw [cut, List.length_drop, List.length_take]

theorem cut_append {start middle stop : Nat} (h₁ : start ≤ middle) (h₂ : middle ≤ stop)
    (bytes : Bytes) : (Span.mk start middle).cut bytes ++ (Span.mk middle stop).cut bytes =
      (Span.mk start stop).cut bytes := by
  have hsum : stop - start = middle - start + (stop - middle) := by omega
  have hdrop : bytes.drop middle = (bytes.drop start).drop (middle - start) := by
    rw [List.drop_drop, Nat.add_sub_cancel' h₁]
  simp only [cut, List.drop_take]
  rw [hsum, List.take_add, hdrop]

/-- What is cut out by spans that lie side by side is what is cut out from the first to the last. -/
theorem Tile.flatMap_cut {start stop : Nat} {spans : List Span} (h : Tile start spans stop)
    (bytes : Bytes) : spans.flatMap (·.cut bytes) = (Span.mk start stop).cut bytes := by
  induction spans generalizing start with
  | nil =>
    cases h
    simp [cut]
  | cons s spans ih =>
    obtain ⟨rfl, hlt, hrest⟩ := h
    rw [List.flatMap_cons, ih hrest]
    exact cut_append (Nat.le_of_lt hlt) hrest.le bytes

end Span

namespace Reader
open Markup.Span (Tile)

/-- Whether a reader has before it what stands in the input behind its offset. -/
structure On (input : Bytes) (r : Reader) : Prop where
  source : r.source = input.drop r.offset
  room : r.offset + r.ahead ≤ input.length

variable {input : Bytes} {r rest : Reader}

theorem on_startingAt (mode : Mode) {offset : Nat} (h : offset ≤ input.length) :
    On input (startingAt mode offset (input.drop offset)) := by
  refine ⟨rfl, ?_⟩
  simp only [startingAt]
  split
  · rename_i hm
    unfold startsWithMark at hm
    split at hm
    · rename_i heq
      have := congrArg List.length heq
      simp only [List.length_drop, List.length_cons] at this
      omega
    · cases hm
  · exact h

/-- An event covers what reading goes past. -/
theorem span_of_next? {e : Event} (h : r.next? = .ok (some (e, rest))) :
    e.span = ⟨r.offset, rest.offset⟩ ∧ r.offset < rest.offset := by
  obtain ⟨piece, others, hread, he, rfl⟩ := next?_cases h
  have hpos := List.length_pos_iff.mpr (Piece.append_of_read? hread).2
  exact ⟨span_of_event he, by dsimp only; omega⟩

theorem On.next? (hr : r.On input) {e : Event} (h : r.next? = .ok (some (e, rest))) :
    rest.On input := by
  obtain ⟨piece, others, hread, -, rfl⟩ := next?_cases h
  have hlength := congrArg List.length (Piece.append_of_read? hread).1
  rw [List.length_append, hr.source, List.length_drop, List.length_drop] at hlength
  have hpos := List.length_pos_iff.mpr (Piece.append_of_read? hread).2
  refine ⟨?_, ?_⟩
  · dsimp only
    rw [hr.source, List.drop_drop]
  · dsimp only
    omega

private theorem On.stop (hr : r.On input) (h : r.next? = .ok none) :
    r.offset + r.ahead = input.length := by
  have hnil := congrArg List.length (source_of_next?_none h)
  rw [hr.source, List.length_drop, List.length_drop, List.length_nil] at hnil
  have := hr.room
  omega

/-- A text token and the markup behind it lie side by side, and go on where the text read before them
ends. -/
theorem tile_of_collect {run? : Option TextRun} {text? markup? : Option Token} {start : Nat}
    (h : r.collect run? = .ok (text?, markup?, rest)) (hr : r.On input)
    (hrun : Tile start (run?.toList.map (·.1)) r.offset) :
    rest.On input ∧ Tile start ((text?.toList ++ markup?.toList).map (·.span)) rest.offset ∧
      (markup? = none → rest.offset + rest.ahead = input.length) := by
  fun_induction collect r run? with
  | case1 => cases h
  | case2 r run? hn =>
    cases h
    refine ⟨hr, ?_, fun _ => hr.stop hn⟩
    cases run? <;> exact hrun
  | case3 r run? token rest hn =>
    cases h
    obtain ⟨hspan, hlt⟩ := span_of_next? hn
    refine ⟨hr.next? hn, ?_, by simp⟩
    rw [List.map_append, Span.tile_append]
    refine ⟨r.offset, ?_, ?_⟩
    · cases run? <;> exact hrun
    · have hspan : token.span = ⟨r.offset, rest.offset⟩ := hspan
      rw [Option.toList_some, List.map_singleton, hspan]
      exact Span.tile_singleton hlt
  | case4 r run? span value next hn ih =>
    obtain ⟨hspan, hlt⟩ := span_of_next? hn
    obtain rfl : span = ⟨r.offset, next.offset⟩ := hspan
    refine ih h (hr.next? hn) ?_
    cases run? with
    | none =>
      obtain rfl : start = r.offset := hrun
      exact Span.tile_singleton hlt
    | some run =>
      obtain ⟨hstart, hlt', hstop⟩ := hrun
      have hlt' : start < run.1.stop := hlt'
      have hstop : run.1.stop = r.offset := hstop
      exact ⟨hstart, by change start < next.offset; omega, rfl⟩

end Reader

namespace Tokenizer
open Markup.Span (Tile)
variable {t rest last : Tokenizer} {token : Token}

/-- What has been read, and not handed out, lies between the last token handed out and the reader. -/
structure Aligned (t : Tokenizer) : Prop where
  reader : t.reader.On t.input
  tiles : Tile t.position (t.pending?.toList.map (·.span)) t.reader.offset

theorem aligned_ofBytes (mode : Mode) (input : Bytes) : (ofBytes mode input).Aligned :=
  ⟨Reader.on_startingAt mode (Nat.zero_le _), rfl⟩

/-- With no token waiting, reading goes on where the last token ends. -/
theorem Aligned.position_eq (ht : t.Aligned) (hp : t.pending? = none) :
    t.position = t.reader.offset := by
  have htiles := ht.tiles
  rwa [hp] at htiles

theorem Aligned.start_pending (ht : t.Aligned) (hp : t.pending? = some token) :
    token.span.start = t.position := by
  have htiles := ht.tiles
  rw [hp] at htiles
  exact htiles.1

private theorem Aligned.take? {token? : Option Token} (ht : t.Aligned)
    (h : t.take? = .ok (token?, rest)) : rest.reader.On rest.input ∧
      Tile t.position ((token?.toList ++ rest.pending?.toList).map (·.span)) rest.reader.offset ∧
      (token? = none → rest.reader.offset + rest.reader.ahead = rest.input.length) := by
  rcases take?_cases h with ⟨token, hp, rfl, rfl⟩ | ⟨hp, text?, markup?, reader, hc, rfl, rfl⟩
  · have htiles := ht.tiles
    rw [hp] at htiles
    exact ⟨ht.reader, htiles, by simp⟩
  · obtain ⟨hreader, htiles, hstop⟩ := Reader.tile_of_collect hc ht.reader (ht.position_eq hp)
    cases text? with
    | none => exact ⟨hreader, by simpa using htiles, hstop⟩
    | some text => exact ⟨hreader, htiles, by simp⟩

/-- Raw text lies between its start tag and the place from where reading goes on. -/
private theorem aligned_queueRawText (ht : t.Aligned) (hp : t.pending? = none) (name : String) :
    (t.queueRawText name).Aligned := by
  have hstart := ht.position_eq hp
  obtain ⟨hsource, hroom⟩ := ht.reader
  have happend := append_splitRawText name t.reader.source
  have hbehind : (splitRawText name t.reader.source).2 =
      t.input.drop (t.reader.offset + (splitRawText name t.reader.source).1.length) := by
    rw [← List.drop_drop, ← hsource]
    exact List.drop_left.symm.trans (congrArg (List.drop _) happend)
  have hlength := congrArg List.length happend
  rw [List.length_append, hsource, List.length_drop] at hlength
  refine ⟨?_, ?_⟩
  · rw [queueRawText]
    dsimp only
    rw [hbehind]
    exact Reader.on_startingAt t.mode (by rw [hsource]; omega)
  · rw [queueRawText]
    dsimp only
    rw [hstart]
    split
    · rename_i hempty
      rw [List.isEmpty_iff.mp hempty]
      rfl
    · rename_i hne
      refine Span.tile_singleton ?_
      have := List.length_pos_iff.mpr (by simpa using hne)
      omega

private theorem Aligned.handOut {position : Nat} {handed : Token} (hr : t.reader.On t.input)
    (htiles : Tile position ((token :: t.pending?.toList).map (·.span)) t.reader.offset)
    (hp : token.form.isNesting → t.pending? = none) (h : t.handOut token = .ok (handed, rest)) :
    rest.Aligned ∧ handed.span.start = position ∧ position < handed.span.stop := by
  obtain ⟨hstart, hlt, hrest⟩ := htiles
  rw [(handOut_kept h).1]
  refine ⟨?_, hstart, hlt⟩
  rcases handOut_cases h with ⟨name, attributes, hf, rfl, rfl⟩ |
    ⟨name, counted, closes, openElements, hf, -, rfl, rfl⟩ | ⟨-, rfl, rfl⟩
  · split
    · refine aligned_queueRawText (t := t.enter handed name) ⟨hr, hrest⟩ ?_ name
      exact hp (by rw [hf]; rfl)
    · exact ⟨hr, hrest⟩
  · exact ⟨hr, hrest⟩
  · exact ⟨hr, hrest⟩

/-- A token begins where the last one ends, and is not empty. -/
theorem Aligned.next (ht : t.Aligned) (h : t.next = .ok (some (token, rest))) :
    rest.Aligned ∧ token.span.start = t.position ∧ t.position < token.span.stop := by
  obtain ⟨taken, u, htake, hh⟩ := next_eq_some_iff.mp h
  obtain ⟨hr, htiles, -⟩ := ht.take? htake
  exact Aligned.handOut hr htiles (pending_of_take? htake) hh

/-- At the end everything has been handed out but what reading is ahead by. -/
theorem Aligned.stop (ht : t.Aligned) (h : t.next = .ok none) :
    t.position + t.reader.ahead = t.input.length := by
  obtain ⟨u, htake, -⟩ := next_eq_none_iff.mp h
  obtain ⟨-, htiles, hstop⟩ := ht.take? htake
  rcases take?_cases htake with ⟨token, -, hnone, -⟩ | ⟨hp, text?, markup?, reader, hc, hnone, rfl⟩
  · cases hnone
  · obtain ⟨rfl, rfl⟩ := Option.or_eq_none_iff.mp hnone.symm
    have hposition : t.position = reader.offset := htiles
    have hahead : reader.ahead = t.reader.ahead := (Reader.collect_kept hc).2.1
    have := hstop rfl
    dsimp only at this
    omega

/-- Reading from a place on is ahead no more once raw text has been read. -/
theorem next_ahead (h : t.next = .ok (some (token, rest))) :
    rest.reader.ahead = if (token.form.opensRaw? t.mode).isSome then 0 else t.reader.ahead := by
  obtain ⟨taken, u, htake, hh⟩ := next_eq_some_iff.mp h
  have hu : u.reader.ahead = t.reader.ahead := by
    rcases take?_cases htake with ⟨-, -, -, rfl⟩ | ⟨-, _, _, _, hc, -, rfl⟩
    · rfl
    · exact (Reader.collect_kept hc).2.1
  rw [← (take?_kept htake).2.2]
  rcases handOut_cases hh with ⟨name, attributes, hf, rfl, rfl⟩ |
    ⟨name, counted, closes, openElements, -, -, rfl, rfl⟩ | ⟨hn, rfl, rfl⟩
  · by_cases hraw : u.mode = .html ∧ isRawTextElement name
    · rw [if_pos hraw, hf, TokenForm.opensRaw?, if_pos hraw]
      exact if_neg (startsWithMark_splitRawText name _)
    · rw [if_neg hraw, hf, TokenForm.opensRaw?, if_neg hraw]
      exact hu
  · exact hu
  · rw [if_neg]
    · exact hu
    · cases hf : token.form with
      | startTag name attributes => exact absurd (by rw [hf]; rfl) hn
      | _ => exact Bool.false_ne_true

namespace Run
variable {depth : Nat} {tokens : List Token}

/-- The tokens of a run lie side by side, from where it begins to where it ends. -/
theorem tile (h : Run depth t tokens last) (ht : t.Aligned) :
    last.Aligned ∧ Tile t.position (tokens.map (·.span)) last.position := by
  induction h with
  | done t => exact ⟨ht, rfl⟩
  | step hn _ _ ih =>
    obtain ⟨hbehind, hstart, hlt⟩ := ht.next hn
    obtain ⟨-, -, hposition, -⟩ := next_kept hn
    obtain ⟨hlast, htiles⟩ := ih hbehind
    exact ⟨hlast, hstart, hlt, hposition ▸ htiles⟩

theorem ahead (h : Run depth t tokens last) : last.reader.ahead =
    if tokens.any fun token => (token.form.opensRaw? t.mode).isSome then 0 else t.reader.ahead := by
  induction h with
  | done t => rfl
  | @step t behind last token tokens hn _ _ ih =>
    rw [ih, next_ahead hn, (next_kept hn).2.1, List.any_cons]
    cases (token.form.opensRaw? t.mode).isSome <;> simp

end Run

end Tokenizer

section
variable {mode : Mode} {input : Bytes} {tokens : List Token}

theorem Span.cut_all (bytes : Bytes) : (Span.mk 0 bytes.length).cut bytes = bytes := by
  rw [Span.cut, List.take_length, List.drop_zero]

/-- The tokens of an input lie side by side. What is left out at the end is what reading is ahead by behind
a byte-order mark, unless raw text has been read. -/
theorem tile_of_tokenize (h : tokenize mode input = .ok tokens) : ∃ stop,
    Span.Tile 0 (tokens.map (·.span)) stop ∧ stop ≤ input.length ∧
      (stop = input.length ↔ (Reader.startsWithMark input →
        ∃ token ∈ tokens, (token.form.opensRaw? mode).isSome)) := by
  obtain ⟨last, hr, hend⟩ := tokenize_eq_ok_iff.mp h
  obtain ⟨hlast, htiles⟩ := hr.tile (Tokenizer.aligned_ofBytes mode input)
  have hstop := hlast.stop hend
  have hahead : last.reader.ahead =
      if tokens.any fun token => (token.form.opensRaw? mode).isSome then 0
      else if Reader.startsWithMark input then 3 else 0 := hr.ahead
  have hinput : last.input = input := hr.kept.1
  rw [hahead, hinput] at hstop
  refine ⟨last.position, htiles, by omega, ?_⟩
  rw [← List.any_eq_true]
  split at hstop
  · rename_i hraw
    exact iff_of_true hstop fun _ => hraw
  · rename_i hraw
    split at hstop
    · rename_i hm
      exact iff_of_false (by omega) fun himp => hraw (himp hm)
    · rename_i hm
      exact iff_of_true hstop fun hmark => absurd hmark hm

/-- The tokens of an input cover it from its first byte to its last, unless it begins with a byte-order
mark. After each token the position is where the token ends. -/
theorem tokenize_tiles (hm : ¬Reader.startsWithMark input) (h : tokenize mode input = .ok tokens) :
    Span.Tile 0 (tokens.map (·.span)) input.length ∧
      tokens.flatMap (·.span.cut input) = input ∧
      ∀ before token behind, tokens = before ++ token :: behind →
        ∃ t, (Tokenizer.ofBytes mode input).Run 0 (before ++ [token]) t ∧
          t.position = token.span.stop := by
  obtain ⟨stop, htiles, -, hstop⟩ := tile_of_tokenize h
  obtain rfl := hstop.mpr fun hmark => absurd hmark hm
  have hcut := htiles.flatMap_cut input
  rw [List.flatMap_map, Span.cut_all] at hcut
  refine ⟨htiles, hcut, ?_⟩
  rintro before token behind rfl
  obtain ⟨last, hr, -⟩ := tokenize_eq_ok_iff.mp h
  rw [List.append_cons] at hr
  obtain ⟨t, hbefore, -⟩ := hr.split
  refine ⟨t, hbefore, ?_⟩
  obtain ⟨u, -, hstep⟩ := hbefore.split
  cases hstep with
  | step hn _ hdone =>
    cases hdone
    exact (Tokenizer.next_kept hn).2.2.1

theorem tokenize_tiles_rawText :
    ¬Reader.startsWithMark (Text.encode "<p>a&amp;b<script>x<y</script></q>") ∧
      ∃ tokens, tokenize .html (Text.encode "<p>a&amp;b<script>x<y</script></q>") = .ok tokens ∧
        tokens.map (·.span) = [⟨0, 3⟩, ⟨3, 10⟩, ⟨10, 18⟩, ⟨18, 21⟩, ⟨21, 30⟩, ⟨30, 34⟩] ∧
        Span.Tile 0 (tokens.map (·.span)) 34 ∧
        tokens.flatMap (·.span.cut (Text.encode "<p>a&amp;b<script>x<y</script></q>")) =
          Text.encode "<p>a&amp;b<script>x<y</script></q>" := by
  have htokens : tokenize .html (Text.encode "<p>a&amp;b<script>x<y</script></q>") =
      .ok [⟨.startTag "p" [], ⟨0, 3⟩⟩, ⟨.text "a&b", ⟨3, 10⟩⟩, ⟨.startTag "script" [], ⟨10, 18⟩⟩,
        ⟨.text "x<y", ⟨18, 21⟩⟩, ⟨.endTag "script" 1, ⟨21, 30⟩⟩, ⟨.endTag "q" 0, ⟨30, 34⟩⟩] :=
    eq_ok_of_toOption (by decide +kernel)
  have hm : ¬Reader.startsWithMark (Text.encode "<p>a&amp;b<script>x<y</script></q>") := by decide
  obtain ⟨htiles, hcut, -⟩ := tokenize_tiles hm htokens
  exact ⟨hm, _, htokens, rfl, htiles, hcut⟩

end

end MarkupGraft.Markup
