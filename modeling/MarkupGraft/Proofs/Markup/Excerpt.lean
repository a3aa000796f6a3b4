import MarkupGraft.Proofs.Markup.Tiling

/-!
What is cut out of a document reads on its own as it reads in its place. Two tokenizers run side by side,
one over the document and one over the excerpt, as far as the excerpt reaches; the elements around it
stay open behind those inside it.
-/

namespace MarkupGraft.Markup

def Span.moved (n : Nat) (s : Span) : Span := ⟨s.start + n, s.stop + n⟩

/-- The token as it stands in a sequence in which `n` more bytes come first. -/
def Token.moved (n : Nat) (t : Token) : Token := { t with span := t.span.moved n }

def Event.moved (n : Nat) (e : Event) : Event := e.inSpan (e.span.moved n)

namespace Reader
variable {shift stop : Nat} {q r rest : Reader}

/-- Whether `q` reads on its own what `r` reads in its place, which begins at `shift` and ends at `stop`.
The reader of the whole may be past the end. -/
structure Excerpt (shift stop : Nat) (q r : Reader) : Prop where
  mode : q.mode = r.mode
  ahead : q.ahead = 0 ∧ r.ahead = 0
  offset : q.offset + shift = min r.offset stop
  source : q.source = r.source.take (stop - r.offset)

namespace Excerpt

/-- Past the end of an excerpt nothing is left of it. -/
theorem exhausted (hq : q.Excerpt shift stop r) (h : stop ≤ r.offset) : q.source = [] := by
  rw [hq.source, Nat.sub_eq_zero_of_le h, List.take_zero]

theorem past (hq : q.Excerpt shift stop r) (h : stop ≤ r.offset) (hmode : rest.mode = r.mode)
    (hahead : rest.ahead = r.ahead) (hoffset : r.offset ≤ rest.offset) :
    q.Excerpt shift stop rest where
  mode := hq.mode.trans hmode.symm
  ahead := ⟨hq.ahead.1, hahead.trans hq.ahead.2⟩
  offset := by
    have := hq.offset
    omega
  source := by
    rw [hq.exhausted h, Nat.sub_eq_zero_of_le (Nat.le_trans h hoffset), List.take_zero]

/-- What is read inside an excerpt is read from it alone. -/
theorem next? (hq : q.Excerpt shift stop r) {e : Event} (h : r.next? = .ok (some (e, rest)))
    (hstop : rest.offset ≤ stop) : ∃ e' rest', q.next? = .ok (some (e', rest')) ∧
      e'.moved shift = e ∧ rest'.Excerpt shift stop rest := by
  obtain ⟨piece, others, hread, he, rfl⟩ := next?_cases h
  obtain ⟨hmode, ⟨hahead, hahead'⟩, hoffset, hsource⟩ := hq
  dsimp only at hstop
  rw [hahead', List.drop_zero] at hread
  have happend := (Piece.append_of_read? hread).1
  have hlength : piece.bytes.length ≤ q.source.length := by
    rw [hsource, ← happend, List.length_take, List.length_append]
    omega
  have hslice : r.source.take piece.bytes.length = piece.bytes := by rw [← happend, List.take_left]
  rw [← List.take_append_drop (stop - r.offset) r.source, ← hsource, ← hmode] at hread
  rw [hslice, ← hmode] at he
  have hevent := event_inSpan he ⟨q.offset, q.offset + piece.bytes.length⟩
  refine ⟨_, _, next?_of_read? hahead (Piece.read?_of_append hread hlength) hevent, ?_, ?_⟩
  · have hspan : (Span.mk q.offset (q.offset + piece.bytes.length)).moved shift = e.span := by
      rw [span_of_event he, Span.moved, Span.mk.injEq]
      dsimp only
      omega
    rw [Event.moved, Event.span_inSpan, Event.inSpan_inSpan, hspan, Event.inSpan_span]
  · refine ⟨hmode, ⟨hahead, hahead'⟩, ?_, ?_⟩
    · dsimp only
      omega
    · dsimp only
      rw [hsource, List.drop_take, Nat.sub_sub]

end Excerpt

/-- A text token reaches as far as the text that it begins with. -/
private theorem le_of_collect {run : TextRun} {text? markup? : Option Token}
    (h : r.collect (some run) = .ok (text?, markup?, rest)) (hrun : run.1.stop ≤ r.offset) :
    ∃ text, text? = some text ∧ run.1.stop ≤ text.span.stop := by
  generalize hsome : some run = run? at h
  fun_induction collect r run? generalizing run with
  | case1 => cases h
  | case2 r run? hn =>
    subst hsome
    cases h
    exact ⟨run.token, rfl, Nat.le_refl _⟩
  | case3 r run? token rest hn =>
    subst hsome
    cases h
    exact ⟨run.token, rfl, Nat.le_refl _⟩
  | case4 r run? span value next hn ih =>
    subst hsome
    obtain ⟨hspan, hlt⟩ := span_of_next? hn
    obtain rfl : span = ⟨r.offset, next.offset⟩ := hspan
    obtain ⟨text, htext, hle⟩ := ih (Nat.le_refl _) rfl h
    have hle : next.offset ≤ text.span.stop := hle
    exact ⟨text, htext, by omega⟩

def TextRun.moved (n : Nat) (run : TextRun) : TextRun := (run.1.moved n, run.2)

/-- Text inside an excerpt is collected from it alone, with the markup that ends it if that is part of the
excerpt. -/
theorem Excerpt.collects {run? run'? : Option TextRun} {text? markup? : Option Token}
    (hq : q.Excerpt shift stop r) (hrun : run'?.map (TextRun.moved shift) = run?)
    (h : r.collect run? = .ok (text?, markup?, rest)) (htext : ∀ t ∈ text?, t.span.stop ≤ stop)
    (hmarkup : ∀ t ∈ markup?, t.span.start < stop → t.span.stop ≤ stop) :
    ∃ text'? markup'? rest', q.collect run'? = .ok (text'?, markup'?, rest') ∧
      text'?.map (·.moved shift) = text? ∧
      markup'?.map (·.moved shift) = markup?.filter (·.span.start < stop) ∧
      rest'.Excerpt shift stop rest := by
  have htoken : (run'?.map TextRun.token).map (·.moved shift) = run?.map TextRun.token := by
    rw [← hrun, Option.map_map, Option.map_map]
    rfl
  fun_induction collect r run? generalizing q run'? with
  | case1 => cases h
  | case2 r run? hn =>
    have hsource : q.source = [] := by
      have hnil := source_of_next?_none hn
      rw [hq.ahead.2, List.drop_zero] at hnil
      rw [hq.source, hnil, List.take_nil]
    cases h
    exact ⟨_, none, q, collect_end hq.ahead.1 hsource run'?, htoken, rfl, hq⟩
  | case3 r run? token rest hn =>
    cases h
    obtain ⟨hspan, hlt⟩ := span_of_next? hn
    have hspan : token.span = ⟨r.offset, rest.offset⟩ := hspan
    obtain ⟨piece, others, -, -, hkept⟩ := next?_cases hn
    by_cases hstart : r.offset < stop
    · have hstop := hmarkup token rfl (by rwa [hspan])
      rw [hspan] at hstop
      obtain ⟨e', rest', hn', he', hrest'⟩ := hq.next? hn hstop
      cases e' with
      | characters => cases he'
      | token token' =>
        refine ⟨_, some token', rest', collect_token hn', htoken, ?_, hrest'⟩
        obtain rfl : token'.moved shift = token := Event.token.inj he'
        rw [Option.filter_some, if_pos (by rw [hspan]; exact decide_eq_true hstart)]
        rfl
    · -- Markup that begins behind the excerpt ends its text where the excerpt itself ends.
      have hpast := Nat.le_of_not_lt hstart
      refine ⟨_, none, q, collect_end hq.ahead.1 (hq.exhausted hpast) run'?, htoken, ?_, ?_⟩
      · rw [Option.filter_some, if_neg (by rw [hspan]; simpa using hpast)]
        rfl
      · exact hq.past hpast (by rw [hkept]) (by rw [hkept]) (Nat.le_of_lt hlt)
  | case4 r run? span value next hn ih =>
    obtain ⟨hspan, hlt⟩ := span_of_next? hn
    have hspan : span = ⟨r.offset, next.offset⟩ := hspan
    have hextend : (extend run? span value).1.stop = next.offset := by
      rw [hspan]
      cases run? <;> rfl
    obtain ⟨text, hsome, hle⟩ := le_of_collect h (Nat.le_of_eq hextend)
    have hstop := htext text hsome
    obtain ⟨e', rest', hn', he', hrest'⟩ := hq.next? hn (by omega)
    cases e' with
    | token => cases he'
    | characters span' value' =>
      obtain ⟨hspan', rfl⟩ := Event.characters.inj he'
      have hrun' : (some (extend run'? span' value')).map (TextRun.moved shift) =
          some (extend run? span value') := by
        rw [← hrun, ← hspan']
        cases run'? <;> rfl
      rw [collect_characters hn']
      refine ih hrest' hrun' h ?_
      rw [← hrun', Option.map_map, Option.map_map]
      rfl

end Reader

theorem OpenElements.close_under {o under rest : OpenElements} {outer : List String} {mode : Mode}
    {name : String} {closes : Nat} (ho : o.names = under.names ++ outer)
    (h : o.close mode name = .ok (closes, rest)) (hd : outer.length ≤ rest.depth) :
    ∃ rest', under.close mode name = .ok (closes, rest') ∧ rest.names = rest'.names ++ outer := by
  obtain ⟨hle, hnames, hone⟩ := of_close h
  have hinner : closes ≤ under.names.length := by
    rw [depth, ho, List.length_append] at hle
    rw [depth, hnames, ho, List.length_drop, List.length_append] at hd
    omega
  rw [ho, List.drop_append_of_le_length hinner] at hnames
  refine ⟨⟨under.names.drop closes⟩, ?_, hnames⟩
  cases mode with
  | xml =>
    obtain rfl := hone rfl
    cases hu : under.names with
    | nil =>
      rw [hu] at hinner
      cases hinner
    | cons inner names =>
      simp only [close, innermost?, ho, hu, List.cons_append, List.head?_cons] at h ⊢
      split at h
      · rw [if_pos ‹_›]
      · cases h
  | html =>
    simp only [close, ho, List.findIdx?_append] at h ⊢
    cases hi : under.names.findIdx? fun openName => foldCase openName = foldCase name with
    | some i =>
      rw [hi] at h
      cases h
      rfl
    | none =>
      rw [hi] at h
      cases hj : outer.findIdx? fun openName => foldCase openName = foldCase name with
      | some j =>
        rw [hj] at h
        cases h
        have hinner : j + under.names.length + 1 ≤ under.names.length := hinner
        omega
      | none =>
        rw [hj] at h
        cases h
        rfl

namespace Tokenizer
variable {depth shift stop : Nat} {outer : List String} {t v u rest last : Tokenizer}
  {token : Token} {tokens : List Token}

/-! What is read ahead of a run -/

private theorem le_position (ht : t.Aligned) (hn : t.next = .ok (some (token, rest)))
    (hr : rest.Run depth tokens last) : token.span.stop ≤ last.position := by
  have hle := (hr.tile (ht.next hn).1).2.le
  rwa [(next_kept hn).2.2.1] at hle

/-- A token that waits to be handed out lies before the end of a run or behind it. -/
private theorem pending_within (ht : t.Aligned) (hr : t.Run depth tokens last) :
    ∀ m ∈ t.pending?, m.span.start < last.position → m.span.stop ≤ last.position := by
  intro m hm hlt
  cases hr with
  | done =>
    have hstart := ht.start_pending hm
    omega
  | step hn _ hr =>
    have hle := le_position ht hn hr
    obtain ⟨taken, u, htake, hh⟩ := next_eq_some_iff.mp hn
    obtain rfl : m = taken := by
      rw [take?_pending hm] at htake
      cases htake
      rfl
    rwa [(handOut_kept hh).1] at hle

private theorem next?_within_of_none (ht : t.Aligned) (hp : t.pending? = none)
    (hr : t.Run depth tokens last) (hlt : t.reader.offset < last.position) :
    ∃ e behind, t.reader.next? = .ok (some (e, behind)) ∧ behind.offset ≤ last.position := by
  have hstart := ht.position_eq hp
  cases hr with
  | done => omega
  | step hn _ hr =>
    have hle := le_position ht hn hr
    obtain ⟨taken, u, htake, hh⟩ := next_eq_some_iff.mp hn
    rw [(handOut_kept hh).1] at hle
    rcases take?_cases htake with ⟨m, hm, -⟩ | ⟨-, text?, markup?, reader, hc, htaken, -⟩
    · rw [hp] at hm
      cases hm
    · rw [Reader.collect] at hc
      split at hc
      · cases hc
      · cases hc
        cases htaken
      · rename_i token behind hnext
        cases hc
        cases htaken
        have hspan : taken.span = ⟨t.reader.offset, reader.offset⟩ :=
          (Reader.span_of_next? hnext).1
        rw [hspan] at hle
        exact ⟨_, reader, hnext, hle⟩
      · rename_i span value behind hnext
        have hspan : span = ⟨t.reader.offset, behind.offset⟩ := (Reader.span_of_next? hnext).1
        obtain ⟨text, rfl, hreach⟩ := Reader.le_of_collect hc (by rw [hspan]; exact Nat.le_refl _)
        cases htaken
        rw [hspan] at hreach
        have hreach : behind.offset ≤ taken.span.stop := hreach
        exact ⟨_, behind, hnext, Nat.le_trans hreach hle⟩

/-- An event that begins before the end of a run does not reach past it. -/
private theorem next?_within (ht : t.Aligned) (hp : ∀ m ∈ t.pending?, ¬m.form.isNesting)
    (hr : t.Run depth tokens last) (hlt : t.reader.offset < last.position) :
    ∃ e behind, t.reader.next? = .ok (some (e, behind)) ∧ behind.offset ≤ last.position := by
  cases hm : t.pending? with
  | none => exact next?_within_of_none ht hm hr hlt
  | some m =>
    cases hr with
    | done =>
      have hle := ht.tiles.le
      omega
    | step hn _ hr =>
      obtain ⟨taken, u, htake, hh⟩ := next_eq_some_iff.mp hn
      rw [take?_pending hm] at htake
      cases htake
      rw [handOut_of_not_isNesting (hp m hm)] at hh
      cases hh
      exact next?_within_of_none (t := { t with pending? := none, position := m.span.stop })
        (ht.next hn).1 rfl hr hlt

/-! The excerpt -/

/-- Whether `v` goes on alone where `t` goes on inside the elements `outer`. -/
structure Excerpt (shift stop : Nat) (outer : List String) (v t : Tokenizer) : Prop where
  reader : v.reader.Excerpt shift stop t.reader
  pending : v.pending?.map (·.moved shift) = t.pending?.filter (·.span.start < stop)
  names : t.openElements.names = v.openElements.names ++ outer

namespace Excerpt

private theorem take? (hv : v.Excerpt shift stop outer t) {taken : Token}
    (h : t.take? = .ok (some taken, u)) (hstart : taken.span.start < stop)
    (hstop : taken.span.stop ≤ stop)
    (hpending : ∀ m ∈ u.pending?, m.span.start < stop → m.span.stop ≤ stop) :
    ∃ taken' u', v.take? = .ok (some taken', u') ∧ taken'.moved shift = taken ∧
      u'.Excerpt shift stop outer u := by
  rcases take?_cases h with ⟨token, hp, htaken, rfl⟩ | ⟨hp, text?, markup?, reader, hc, htaken, rfl⟩
  · cases htaken
    have hv' := hv.pending
    rw [hp, Option.filter_some, if_pos (decide_eq_true hstart)] at hv'
    obtain ⟨taken', hp', hmoved⟩ := Option.map_eq_some_iff.mp hv'
    exact ⟨taken', _, take?_pending hp', hmoved, hv.reader, rfl, hv.names⟩
  · have hp' : v.pending? = none := by
      have hv' := hv.pending
      rw [hp] at hv'
      exact Option.map_eq_none_iff.mp hv'
    cases text? with
    | some text =>
      cases htaken
      obtain ⟨text'?, markup'?, reader', hc', htext', hmarkup', hreader'⟩ :=
        hv.reader.collects (Option.map_none _) hc (by rintro _ ⟨⟩; exact hstop) hpending
      obtain ⟨taken', rfl, hmoved⟩ := Option.map_eq_some_iff.mp htext'
      exact ⟨taken', _, take?_collect hp' hc', hmoved, hreader', hmarkup', hv.names⟩
    | none =>
      obtain rfl : some taken = markup? := htaken
      obtain ⟨text'?, markup'?, reader', hc', htext', hmarkup', hreader'⟩ :=
        hv.reader.collects (Option.map_none _) hc (by simp) (by rintro _ ⟨⟩ _; exact hstop)
      obtain rfl : text'? = none := Option.map_eq_none_iff.mp htext'
      rw [Option.filter_some, if_pos (decide_eq_true hstart)] at hmarkup'
      obtain ⟨taken', rfl, hmoved⟩ := Option.map_eq_some_iff.mp hmarkup'
      exact ⟨taken', _, take?_collect hp' hc', hmoved, hreader', rfl, hv.names⟩

/-- Raw text inside an excerpt ends in the same place: there is no end of an excerpt between the two ends
of the mark that ends raw text. -/
private theorem splitRawText_eq {name : String} (hname : isRawTextElement name)
    (ht : (t.queueRawText name).Aligned) (hr : (t.queueRawText name).Run depth tokens last)
    (hlt : t.reader.offset < last.position) {raw behind : Bytes}
    (hsplit : splitRawText name t.reader.source = (raw, behind)) :
    raw.length ≤ last.position - t.reader.offset ∧
      splitRawText name (t.reader.source.take (last.position - t.reader.offset)) =
        (raw, behind.take (last.position - t.reader.offset - raw.length)) := by
  have hle : t.reader.offset + raw.length ≤ last.position := by
    by_cases hraw : raw = []
    · rw [hraw, List.length_nil]
      omega
    · refine pending_within ht hr ⟨.text (Text.decodeLossy raw), ⟨_, _⟩⟩ ?_ hlt
      rw [queueRawText, hsplit]
      exact if_neg (by simpa using hraw)
  refine ⟨by omega, splitRawText_take hsplit ?_⟩
  -- If the run goes on behind the raw text, then through the whole end tag.
  rcases Nat.eq_or_lt_of_le hle with heq | hlt
  · exact .inl (by omega)
  · right
    have hreader : (t.queueRawText name).reader =
        .startingAt t.mode (t.reader.offset + raw.length) behind := by
      rw [queueRawText, hsplit]
    have htext : ∀ m ∈ (t.queueRawText name).pending?, ¬m.form.isNesting := by
      intro m hm
      rw [queueRawText] at hm
      dsimp only at hm
      split at hm
      · cases hm
      · cases hm
        exact Bool.false_ne_true
    have hbehind : behind = [] ∨ beginsEndTag (foldCase name) behind := by
      have hbehind := beginsEndTag_splitRawText name t.reader.source
      rwa [hsplit] at hbehind
    have hmark : ¬Reader.startsWithMark behind := by
      have hmark := startsWithMark_splitRawText name t.reader.source
      rwa [hsplit] at hmark
    obtain ⟨e, after, hnext, hstop⟩ := next?_within ht htext hr (by rw [hreader]; exact hlt)
    obtain ⟨piece, others, hread, -, rfl⟩ := Reader.next?_cases hnext
    rw [hreader, Reader.startingAt, if_neg hmark] at hread hstop
    rw [List.drop_zero] at hread
    dsimp only at hstop
    rcases hbehind with rfl | hbegins
    · cases hread
    · have := length_endMark_le hname hbegins hread
      omega

private theorem queueRawText (hv : v.Excerpt shift last.position outer t)
    {name : String} (hname : isRawTextElement name) (ht : (t.queueRawText name).Aligned)
    (hr : (t.queueRawText name).Run depth tokens last) :
    (v.queueRawText name).Excerpt shift last.position outer (t.queueRawText name) := by
  obtain ⟨⟨hmode, -, hoffset, hsource⟩, -, hnames⟩ := hv
  obtain ⟨raw, behind, hsplit⟩ : ∃ raw behind, splitRawText name t.reader.source = (raw, behind) :=
    ⟨_, _, rfl⟩
  by_cases hlt : t.reader.offset < last.position
  · obtain ⟨hle, hsplit'⟩ := splitRawText_eq hname ht hr hlt hsplit
    rw [← hsource] at hsplit'
    refine ⟨⟨hmode, ⟨if_neg (startsWithMark_splitRawText name v.reader.source),
      if_neg (startsWithMark_splitRawText name t.reader.source)⟩, ?_, ?_⟩, ?_, hnames⟩
    · simp only [Tokenizer.queueRawText, Reader.startingAt, hsplit, hsplit']
      omega
    · simp only [Tokenizer.queueRawText, Reader.startingAt, hsplit, hsplit', Nat.sub_sub]
    · have hstart : v.reader.offset + shift = t.reader.offset := by omega
      simp only [Tokenizer.queueRawText, hsplit, hsplit']
      split
      · rfl
      · rw [Option.map_some, Option.filter_some, if_pos (decide_eq_true hlt), Token.moved,
          Span.moved, hstart, Nat.add_right_comm, hstart]
  · have hpast := Nat.le_of_not_lt hlt
    have hsplit' : splitRawText name v.reader.source = ([], []) := by
      rw [hsource, Nat.sub_eq_zero_of_le hpast, List.take_zero]
      simp [splitRawText, Text.splitWhere?, beginsEndTag]
    refine ⟨⟨hmode, ⟨if_neg (startsWithMark_splitRawText name v.reader.source),
      if_neg (startsWithMark_splitRawText name t.reader.source)⟩, ?_, ?_⟩, ?_, hnames⟩
    · simp only [Tokenizer.queueRawText, Reader.startingAt, hsplit, hsplit', List.length_nil]
      omega
    · simp only [Tokenizer.queueRawText, Reader.startingAt, hsplit, hsplit']
      rw [Nat.sub_eq_zero_of_le (by omega), List.take_zero]
    · simp only [Tokenizer.queueRawText, hsplit, hsplit', List.isEmpty_nil, if_true]
      split
      · rfl
      · rw [Option.filter_some, if_neg (by simpa using hpast)]
        rfl

private theorem handOut (hu : v.Excerpt shift last.position outer t) {taken handed : Token}
    (h : t.handOut (taken.moved shift) = .ok (handed, rest)) (hrest : rest.Aligned)
    (hd : outer.length ≤ rest.depth) (hr : rest.Run depth tokens last) :
    ∃ handed' v', v.handOut taken = .ok (handed', v') ∧ handed'.moved shift = handed ∧
      v'.Excerpt shift last.position outer rest := by
  rcases handOut_cases h with ⟨name, attributes, hf, rfl, rfl⟩ |
    ⟨name, counted, closes, openElements, hf, hc, rfl, rfl⟩ | ⟨hn, rfl, rfl⟩
  · refine ⟨taken, _, handOut_startTag hf, rfl, ?_⟩
    have henter : (v.enter taken name).Excerpt shift last.position outer
        (t.enter (taken.moved shift) name) :=
      ⟨hu.reader, hu.pending, congrArg (name :: ·) hu.names⟩
    have hmode : v.mode = t.mode := hu.reader.mode
    rw [hmode]
    by_cases hraw : t.mode = .html ∧ isRawTextElement name
    · rw [if_pos hraw] at hrest hr ⊢
      rw [if_pos hraw]
      exact henter.queueRawText hraw.2 hrest hr
    · rw [if_neg hraw, if_neg hraw]
      exact henter
  · have hmode : v.mode = t.mode := hu.reader.mode
    obtain ⟨openElements', hc', hnames⟩ := OpenElements.close_under hu.names hc hd
    rw [← hmode] at hc'
    exact ⟨_, _, handOut_endTag hf hc', rfl, hu.reader, hu.pending, hnames⟩
  · exact ⟨taken, _, handOut_of_not_isNesting hn, rfl, hu.reader, hu.pending, hu.names⟩

/-- A token that is handed out inside an excerpt is handed out by the excerpt alone. -/
theorem next (hv : v.Excerpt shift last.position outer t) (ht : t.Aligned)
    (hn : t.next = .ok (some (token, rest))) (hd : outer.length ≤ rest.depth)
    (hr : rest.Run depth tokens last) :
    ∃ token' v', v.next = .ok (some (token', v')) ∧ token'.moved shift = token ∧
      v'.Excerpt shift last.position outer rest := by
  obtain ⟨hrest, hstart, hlt⟩ := ht.next hn
  have hstop := le_position ht hn hr
  obtain ⟨taken, u, htake, hh⟩ := next_eq_some_iff.mp hn
  rw [(handOut_kept hh).1] at hstart hlt hstop
  have hpending : ∀ m ∈ u.pending?, m.span.start < last.position → m.span.stop ≤ last.position := by
    intro m hm
    refine pending_within hrest hr m ?_
    rcases handOut_cases hh with ⟨name, attributes, hf, -, -⟩ |
      ⟨name, counted, closes, openElements, hf, hc, -, rfl⟩ | ⟨-, -, rfl⟩
    · rw [pending_of_take? htake (by rw [hf]; rfl)] at hm
      cases hm
    · exact hm
    · exact hm
  obtain ⟨taken', u', htake', rfl, hu⟩ := hv.take? htake (by omega) hstop hpending
  obtain ⟨token', v', hh', hmoved, hv'⟩ := hu.handOut hh hrest hd hr
  exact ⟨token', v', next_eq_some_iff.mpr ⟨taken', u', htake', hh'⟩, hmoved, hv'⟩

/-- A run inside the elements `outer` is a run of the excerpt. -/
theorem run (hr : t.Run outer.length tokens last) (ht : t.Aligned)
    (hv : v.Excerpt shift last.position outer t) :
    ∃ tokens' w, v.Run 0 tokens' w ∧ tokens'.map (·.moved shift) = tokens ∧
      w.Excerpt shift last.position outer last := by
  induction hr generalizing v with
  | done t => exact ⟨[], v, .done v, rfl, hv⟩
  | step hn hd hr ih =>
    obtain ⟨token', v', hn', rfl, hv'⟩ := hv.next ht hn hd hr
    obtain ⟨tokens', w, hr', rfl, hw⟩ := ih (ht.next hn).1 hv'
    exact ⟨token' :: tokens', w, .step hn' (Nat.zero_le _) hr', rfl, hw⟩

/-- An excerpt ends where its last token ends. -/
theorem next_none (hv : v.Excerpt shift t.position outer t) (ht : t.Aligned)
    (hopen : v.mode = .xml → v.openElements.names = []) : v.next = .ok none := by
  have hp : v.pending? = none := by
    refine Option.map_eq_none_iff.mp (hv.pending.trans (Option.filter_eq_none_iff.mpr ?_))
    intro m hm
    have hstart := ht.start_pending hm
    simp [hstart]
  have hc := Reader.collect_end hv.reader.ahead.1 (hv.reader.exhausted ht.tiles.le) none
  exact next_eq_none_iff.mpr ⟨_, take?_collect hp hc, hopen⟩

end Excerpt

/-- Behind a start tag whose content is not raw text nothing has been read yet. -/
theorem behind_startTag {start : Token} {name : String} {attributes : List Attribute}
    (ht : t.Aligned) (hf : start.form = .startTag name attributes)
    (hraw : start.form.opensRaw? t.mode = none) (hn : t.next = .ok (some (start, rest))) :
    rest.pending? = none ∧ rest.position = start.span.stop ∧ rest.reader.offset = start.span.stop := by
  have hposition := (next_kept hn).2.2.1
  have hrest := (ht.next hn).1
  obtain ⟨taken, u, htake, hh⟩ := next_eq_some_iff.mp hn
  have hp : rest.pending? = none := by
    rcases handOut_cases hh with ⟨name', attributes', hf', rfl, rfl⟩ |
      ⟨name', counted, closes, openElements, hf', hc, rfl, rfl⟩ | ⟨hno, rfl, rfl⟩
    · rw [hf', TokenForm.opensRaw?, ← (take?_kept htake).2.2] at hraw
      split at hraw
      · cases hraw
      · rw [if_neg ‹_›]
        change u.pending? = none
        exact pending_of_take? htake (by rw [hf']; rfl)
    · cases hf
    · exact absurd (by rw [hf]; rfl) hno
  exact ⟨hp, hposition, (hrest.position_eq hp).symm.trans hposition⟩

/-- In XML the elements inside an excerpt are closed at its end. -/
private theorem Excerpt.names_eq_nil {stop : Nat}
    (hv : v.Excerpt shift stop t.openElements.names last)
    (hends : t.Ends last u stop) (hm : v.mode = .xml) : v.openElements.names = [] := by
  have hm : last.mode = .xml := hv.reader.mode.symm.trans hm
  have hdepth : last.depth = v.openElements.names.length + t.depth := by
    rw [depth, OpenElements.depth, hv.names, List.length_append]
    rfl
  rcases hends with ⟨closing, hn, hd, -⟩ | ⟨hn, -, -⟩
  · have := depth_le_of_next hm hn
    exact List.length_eq_zero_iff.mp (by omega)
  · obtain ⟨w, htake, hopen⟩ := next_eq_none_iff.mp hn
    obtain ⟨-, hnames, hmode⟩ := take?_kept htake
    have hnil := hopen (hmode.trans hm)
    rw [hnames, hv.names] at hnil
    exact (List.append_eq_nil_iff.mp hnil).1

end Tokenizer

section
variable {mode : Mode} {input content : Bytes} {before : List Token} {start : Token} {name : String}
  {attributes : List Attribute} {t u : Tokenizer}

/-- What is cut out behind a start tag is tokenized alone into the tokens that are passed over in its
place, moved by where it begins. The reader must not be ahead of its offsets: the input begins with no
byte-order mark, or raw text has been read before. -/
theorem rawContent_tokenized
    (hmark : Reader.startsWithMark input → ∃ token ∈ before, (token.form.opensRaw? mode).isSome)
    (hrun : (Tokenizer.ofBytes mode input).Run 0 (before ++ [start]) t)
    (hf : start.form = .startTag name attributes) (hraw : start.form.opensRaw? mode = none)
    (h : t.rawContent start = .ok (content, u)) (hcontent : ¬Reader.startsWithMark content) :
    ∃ alone inside last, tokenize mode content = .ok alone ∧ t.Run t.depth inside last ∧
      ((∃ closing, last.next = .ok (some (closing, u)) ∧ u.depth < t.depth) ∨
        last.next = .ok none ∧ u = last) ∧
      alone.map (·.moved start.span.stop) = inside := by
  have hahead : t.reader.ahead = 0 := by
    rw [hrun.ahead]
    split
    · rfl
    · rename_i hnone
      refine if_neg fun hm => hnone ?_
      obtain ⟨token, htoken, hopens⟩ := hmark hm
      exact List.any_eq_true.mpr ⟨token, List.mem_append_left _ htoken, hopens⟩
  obtain ⟨hinput, hmode⟩ := hrun.kept
  obtain ⟨s, hbefore, hstep⟩ := hrun.split
  cases hstep with
  | step hn _ hdone =>
    cases hdone
    have hs := (hbefore.tile (Tokenizer.aligned_ofBytes mode input)).1
    have ht := (hs.next hn).1
    obtain ⟨hp, hposition, hoffset⟩ :=
      Tokenizer.behind_startTag hs hf (by rw [hbefore.kept.2]; exact hraw) hn
    obtain ⟨inside, last, stop, hr, hends, hcut⟩ := Tokenizer.rawContent_cases hf h
    obtain ⟨hlast, htiles⟩ := hr.tile ht
    have hstop : stop = last.position := by
      rcases hends with ⟨closing, hn, -, rfl⟩ | ⟨hn, -, rfl⟩
      · exact (hlast.next hn).2.1
      · have hstop := hlast.stop hn
        rw [hr.ahead, hahead, ite_self, hr.kept.1] at hstop
        exact hstop.symm
    subst hstop
    have hle := htiles.le
    have hv : (Tokenizer.ofBytes mode content).Excerpt start.span.stop last.position
        t.openElements.names t := by
      refine ⟨⟨hmode.symm, ⟨if_neg hcontent, hahead⟩, ?_, ?_⟩, ?_, rfl⟩
      · change 0 + start.span.stop = _
        omega
      · change content = _
        rw [hcut, Span.cut, List.drop_take, ht.reader.source, hoffset]
      · rw [hp]
        rfl
    obtain ⟨alone, w, hr', hmoved, hw⟩ := hv.run hr ht
    have hend := hw.next_none hlast (hw.names_eq_nil hends)
    refine ⟨alone, inside, last, tokenize_eq_ok_iff.mpr ⟨w, hr', hend⟩, hr, ?_, hmoved⟩
    rcases hends with ⟨closing, hn, hd, -⟩ | ⟨hn, rfl, -⟩
    · exact .inl ⟨closing, hn, hd⟩
    · exact .inr ⟨hn, rfl⟩

/-- The end tag closes two elements, and the stray one inside none. -/
theorem rawContent_tokenized_unclosed : ∃ start t u alone last,
    (Tokenizer.ofBytes .html (Text.encode "<div><p>a</q><style>x</style>b</div>c")).next =
        .ok (some (start, t)) ∧
      t.rawContent start = .ok (Text.encode "<p>a</q><style>x</style>b", u) ∧
      tokenize .html (Text.encode "<p>a</q><style>x</style>b") = .ok alone ∧
      alone = [⟨.startTag "p" [], ⟨0, 3⟩⟩, ⟨.text "a", ⟨3, 4⟩⟩, ⟨.endTag "q" 0, ⟨4, 8⟩⟩,
        ⟨.startTag "style" [], ⟨8, 15⟩⟩, ⟨.text "x", ⟨15, 16⟩⟩, ⟨.endTag "style" 1, ⟨16, 24⟩⟩,
        ⟨.text "b", ⟨24, 25⟩⟩] ∧
      t.Run t.depth (alone.map (·.moved 5)) last := by
  have hread : ((Tokenizer.ofBytes .html (Text.encode "<div><p>a</q><style>x</style>b</div>c")).next
      ).toOption.join.bind (fun v =>
        (v.2.rawContent v.1).toOption.map fun w => (v.1, w.1)) =
      some (⟨.startTag "div" [], ⟨0, 5⟩⟩, Text.encode "<p>a</q><style>x</style>b") := by
    decide +kernel
  obtain ⟨⟨start, t⟩, hnext, hcontent⟩ := Option.bind_eq_some_iff.mp hread
  obtain ⟨⟨content, u⟩, hcontent, hpair⟩ := Option.map_eq_some_iff.mp hcontent
  cases hpair
  have hnext := eq_ok_of_toOption (Option.join_eq_some_iff.mp hnext)
  have hcontent := eq_ok_of_toOption hcontent
  have halone : tokenize .html (Text.encode "<p>a</q><style>x</style>b") = .ok [
      ⟨.startTag "p" [], ⟨0, 3⟩⟩, ⟨.text "a", ⟨3, 4⟩⟩, ⟨.endTag "q" 0, ⟨4, 8⟩⟩,
      ⟨.startTag "style" [], ⟨8, 15⟩⟩, ⟨.text "x", ⟨15, 16⟩⟩, ⟨.endTag "style" 1, ⟨16, 24⟩⟩,
      ⟨.text "b", ⟨24, 25⟩⟩] := eq_ok_of_toOption (by decide +kernel)
  obtain ⟨alone, inside, last, htokens, hr, -, rfl⟩ :=
    rawContent_tokenized (fun hm => absurd hm (by decide))
      (show Tokenizer.Run 0 _ ([] ++ [_]) t from .step hnext (Nat.zero_le _) (.done t)) rfl
      (by decide +kernel) hcontent (by decide)
  exact ⟨_, t, u, alone, last, hnext, hcontent, htokens,
    Except.ok.inj (htokens.symm.trans halone), hr⟩

end
end MarkupGraft.Markup
