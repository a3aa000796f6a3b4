import MarkupGraft.Proofs.Markup.RawText
import MarkupGraft.Proofs.Markup.Run

/-!
Token sequences written as markup are read back, one token after the other. Runs of text come back as
one token, and empty text as none.
-/

namespace MarkupGraft.Markup
open Text (encode encode_append)

/-! Text -/

/-- Whether text ends in front of a sequence. -/
def EndsText (bytes : Bytes) : Prop := ∀ b ∈ bytes.head?, b = 0x3C

namespace Piece

private theorem read?_plain {text : Bytes} (hne : text ≠ [])
    (h : ∀ b ∈ text, b ≠ 0x3C ∧ b ≠ 0x26) {rest : Bytes}
    (hrest : ∀ b ∈ rest.head?, b = 0x3C ∨ b = 0x26) (mode : Mode) :
    read? mode (text ++ rest) = .ok (some (⟨.text, text⟩, rest)) := by
  refine read?_of_measure hne ?_
  have htake : (text ++ rest).takeWhile (fun b => b ≠ 0x3C && b ≠ 0x26) = text := by
    have hall : ∀ b ∈ text, (b ≠ 0x3C && b ≠ 0x26) = true := by simpa using h
    rw [List.takeWhile_append_of_pos hall]
    cases rest with
    | nil => simp
    | cons b rest =>
      rw [List.takeWhile_cons_of_neg, List.append_nil]
      rcases hrest b rfl with rfl | rfl <;> decide
  cases text with
  | nil => exact absurd rfl hne
  | cons b text =>
    obtain ⟨h₁, h₂⟩ := h b List.mem_cons_self
    unfold measure
    split
    · rename_i he
      exact absurd (Option.some.inj he) h₁
    · rename_i he
      exact absurd (Option.some.inj he) h₂
    · rw [htake]

private theorem read?_reference {name : Bytes} (h : ∀ b ∈ name, !endsReference b)
    (mode : Mode) (rest : Bytes) :
    read? mode ((0x26 :: (name ++ [0x3B])) ++ rest) =
      .ok (some (⟨.reference, 0x26 :: (name ++ [0x3B])⟩, rest)) := by
  refine read?_of_measure (by simp) ?_
  have hsource : (0x26 :: (name ++ [0x3B])) ++ rest = 0x26 :: (name ++ 0x3B :: rest) := by simp
  have htake : (name ++ 0x3B :: rest).takeWhile (!endsReference ·) = name := by
    rw [List.takeWhile_append_of_pos h, List.takeWhile_cons_of_neg (by decide), List.append_nil]
  simp [hsource, measure, measureReference, htake]

end Piece

private theorem encode_escape_append (a b : List Char) :
    encode (escape (String.ofList (a ++ b))) =
      encode (escape (String.ofList a)) ++ encode (escape (String.ofList b)) := by
  rw [String.ofList_append, escape_append, encode_append]

/-- The bytes of a reference. -/
private theorem encode_escape_singleton {c : Char} (h : isEscaped c) :
    ∃ name, encode (escape (String.ofList [c])) = 0x26 :: (name ++ [0x3B]) ∧
      ∀ b ∈ name, !Piece.endsReference b := by
  obtain ⟨name, hescape, hname, -⟩ := escapeChar_of_isEscaped h
  have hmarks : ∀ n ∈ name, n ≠ '&' ∧ n ≠ ';' ∧ n ≠ '<' := fun n hn =>
    (of_isReferenceCharacter (hname n hn)).2
  refine ⟨encode (String.ofList name), ?_, fun b hb => ?_⟩
  · have hamp : String.utf8EncodeChar '&' = [0x26] := by decide
    have hsemi : String.utf8EncodeChar ';' = [0x3B] := by decide
    simp [escape, hescape, encode, hamp, hsemi]
  · have hends {e : Char} (he : e.toNat < 128) (hno : e ∉ name) : b ≠ UInt8.ofNat e.toNat := by
      rintro rfl
      exact hno (by simpa using Text.mem_of_mem_encode he hb)
    simp only [Piece.endsReference, Bool.not_eq_true', Bool.or_eq_false_iff,
      decide_eq_false_iff_not]
    exact ⟨⟨hends (e := ';') (by decide) fun he => (hmarks _ he).2.1 rfl,
      hends (e := '&') (by decide) fun he => (hmarks _ he).1 rfl⟩,
      hends (e := '<') (by decide) fun he => (hmarks _ he).2.2 rfl⟩

private theorem escape_of_plain {chars : List Char} (h : ∀ c ∈ chars, ¬isEscaped c) :
    escape (String.ofList chars) = String.ofList chars := by
  rw [escape, String.toList_ofList]
  induction chars with
  | nil => rfl
  | cons c chars ih =>
    obtain ⟨hc, hchars⟩ := List.forall_mem_cons.mp h
    have := congrArg String.toList (ih hchars)
    rw [String.toList_ofList, String.toList_ofList] at this
    rw [List.flatMap_cons, escapeChar_of_not_isEscaped hc, this]
    rfl

/-- Characters that are not escaped are cut off in one piece. -/
private theorem read?_run (mode : Mode) {segment others : List Char} (hne : segment ≠ [])
    (hplain : ∀ c ∈ segment, ¬isEscaped c) (hothers : ∀ c ∈ others.head?, isEscaped c)
    {rest : Bytes} (hrest : EndsText rest) :
    Piece.read? mode (encode (escape (String.ofList (segment ++ others))) ++ rest) =
      .ok (some (⟨.text, encode (escape (String.ofList segment))⟩,
        encode (escape (String.ofList others)) ++ rest)) := by
  have hstop : ∀ b ∈ (encode (escape (String.ofList others)) ++ rest).head?,
      b = 0x3C ∨ b = 0x26 := by
    cases others with
    | nil => exact fun b hb => .inl (hrest b hb)
    | cons c others =>
      obtain ⟨name, hbytes, -⟩ := encode_escape_singleton (hothers c rfl)
      have hcons : c :: others = [c] ++ others := rfl
      rw [hcons, encode_escape_append, hbytes]
      rintro b ⟨⟩
      exact .inr rfl
  rw [encode_escape_append, List.append_assoc, escape_of_plain hplain]
  refine Piece.read?_plain ?_ ?_ hstop mode
  · exact Text.encode_ne_nil (by simpa [String.ext_iff] using hne)
  · intro b hb
    constructor <;> rintro rfl
    · exact hplain '<' (by simpa using Text.mem_of_mem_encode (c := '<') (by decide) hb) rfl
    · exact hplain '&' (by simpa using Text.mem_of_mem_encode (c := '&') (by decide) hb) rfl

/-- Escaped text begins with a piece of its own. -/
private theorem exists_segment (mode : Mode) {chars : List Char} (hne : chars ≠ []) {rest : Bytes}
    (hrest : EndsText rest) : ∃ segment others kind, chars = segment ++ others ∧ segment ≠ [] ∧
      (kind = .text ∨ kind = .reference) ∧
      Piece.read? mode (encode (escape (String.ofList chars)) ++ rest) =
        .ok (some (⟨kind, encode (escape (String.ofList segment))⟩,
          encode (escape (String.ofList others)) ++ rest)) := by
  cases chars with
  | nil => exact absurd rfl hne
  | cons c chars =>
    by_cases hc : isEscaped c = true
    · refine ⟨[c], chars, .reference, rfl, by simp, .inr rfl, ?_⟩
      obtain ⟨name, hbytes, hends⟩ := encode_escape_singleton hc
      have hcons : c :: chars = [c] ++ chars := rfl
      rw [hcons, encode_escape_append, List.append_assoc, hbytes]
      exact Piece.read?_reference hends mode _
    · let p : Char → Bool := fun c => !isEscaped c
      have hsplit : c :: chars = (c :: chars).takeWhile p ++ (c :: chars).dropWhile p :=
        List.takeWhile_append_dropWhile.symm
      have hsegment : (c :: chars).takeWhile p ≠ [] := by
        rw [List.takeWhile_cons_of_pos (by simpa [p] using hc)]
        exact List.cons_ne_nil _ _
      have hplain : ∀ e ∈ (c :: chars).takeWhile p, ¬isEscaped e := by
        intro e he
        have := List.all_takeWhile (l := c :: chars) (p := p)
        simpa [p] using List.all_eq_true.mp this e he
      have hothers : ∀ e ∈ ((c :: chars).dropWhile p).head?, isEscaped e := by
        intro e he
        have := List.head?_dropWhile_not p (c :: chars)
        rw [he] at this
        simpa [p] using this
      refine ⟨_, _, .text, hsplit, hsegment, .inl rfl, ?_⟩
      have hread := read?_run mode hsegment hplain hothers hrest
      rwa [← hsplit] at hread

namespace Reader

private theorem event_escape (mode : Mode) {kind : PieceKind}
    (hk : kind = .text ∨ kind = .reference) (text : String) (span : Span) :
    event mode ⟨kind, encode (escape text)⟩ span (encode (escape text)) =
      .ok (.characters span text) := by
  rcases hk with rfl | rfl <;>
    simp only [event, decodeAt_encode, unescapeAt_escape, bind, Except.bind] <;> rfl

/-- What has been read of a text, with more behind it. -/
def textBefore (run? : Option TextRun) : Option String := run?.map (·.2)

private theorem textBefore_extend (run? : Option TextRun) (span : Span) (value : String) :
    textBefore (some (extend run? span value)) = some ((textBefore run?).getD "" ++ value) := by
  cases run? <;> simp [textBefore, extend]

private theorem next?_segment {r : Reader} (ha : r.ahead = 0) {kind : PieceKind}
    (hk : kind = .text ∨ kind = .reference) {text : String} {rest : Bytes}
    (hread : Piece.read? r.mode r.source = .ok (some (⟨kind, encode (escape text)⟩, rest))) :
    ∃ (span : Span) (after : Reader), r.next? = .ok (some (.characters span text, after)) ∧
      after.mode = r.mode ∧ after.ahead = 0 ∧ after.source = rest :=
  ⟨_, _, next?_of_read? ha hread (event_escape _ hk _ _), rfl, ha, rfl⟩

/-- Reading on through escaped text collects the text. -/
theorem collect_escape {chars : List Char} {rest : Bytes} (hrest : EndsText rest) {r : Reader}
    (ha : r.ahead = 0)
    (hs : r.source = encode (escape (String.ofList chars)) ++ rest) (run? : Option TextRun) :
    ∃ (next : Reader) (read? : Option TextRun), next.mode = r.mode ∧ next.ahead = 0 ∧
      next.source = rest ∧ r.collect run? = next.collect read? ∧
      textBefore read? = if chars = [] then textBefore run?
        else some ((textBefore run?).getD "" ++ String.ofList chars) := by
  induction hlength : chars.length using Nat.strongRecOn generalizing chars r run? with
  | ind n ih =>
    by_cases hne : chars = []
    · subst hne
      exact ⟨r, run?, rfl, ha, hs, rfl, by simp⟩
    · obtain ⟨segment, others, kind, rfl, hsegment, hk, hread⟩ := exists_segment r.mode hne hrest
      rw [← hs] at hread
      obtain ⟨span, after, hnext, hm₁, ha₁, hs₁⟩ := next?_segment ha hk hread
      have hshorter : others.length < n := by
        have := List.length_pos_iff.mpr hsegment
        rw [← hlength, List.length_append]
        omega
      obtain ⟨next, read?, hm₂, ha₂, hs₂, hcollect, htext⟩ :=
        ih others.length hshorter ha₁ hs₁ (some (extend run? span (String.ofList segment))) rfl
      refine ⟨next, read?, hm₂.trans hm₁, ha₂, hs₂, (collect_characters hnext).trans hcollect, ?_⟩
      rw [htext, textBefore_extend, if_neg hne]
      split
      · rename_i he
        simp [he]
      · simp [String.append_assoc]

end Reader

/-! Token sequences -/

namespace TokenForm

/-- The raw-text element that a token opens: what is inside it is written as it stands. -/
def opensRaw? (mode : Mode) : TokenForm → Option String
  | .startTag name _ => if mode = .html ∧ isRawTextElement name then some name else none
  | _ => none

/-- The markup of a token, where a raw-text element may have been opened just before it. -/
def markupIn (raw? : Option String) (form : TokenForm) : String :=
  match raw?, form with
  | some _, .text value => value
  | _, form => form.markup

def markupAll (mode : Mode) (raw? : Option String) : List TokenForm → String
  | [] => ""
  | form :: forms => form.markupIn raw? ++ markupAll mode (form.opensRaw? mode) forms

theorem markupIn_none (form : TokenForm) : form.markupIn none = form.markup := rfl

theorem markupIn_of_not_isText {form : TokenForm} (h : ¬form.isText) (raw? : Option String) :
    form.markupIn raw? = form.markup := by
  cases raw? with
  | none => rfl
  | some =>
    cases form with
    | text => exact absurd rfl h
    | _ => rfl

/-- Whether a sequence holds nothing but raw text in front of an end tag. -/
def RawInside (name : String) : List TokenForm → Prop
  | .text value :: .endTag _ _ :: _ => IsRawText name value
  | .endTag _ _ :: _ => True
  | _ => False

/-- Whether every raw-text element has raw text inside. -/
def RawTextKept (mode : Mode) : List TokenForm → Prop
  | [] => True
  | form :: forms =>
    (∀ name ∈ form.opensRaw? mode, RawInside name forms) ∧ RawTextKept mode forms

def startsText (forms : List TokenForm) : Bool := forms.head?.any isText

/-- Text stands between two tokens of other kinds, and is not empty. -/
def Joined : List TokenForm → Prop
  | [] => True
  | .text value :: forms => value ≠ "" ∧ ¬startsText forms ∧ Joined forms
  | _ :: forms => Joined forms

/-- Every end tag closes the innermost element, where those named are open before the sequence and
none are open behind it. -/
def Balanced : (names : List String) → List TokenForm → Prop
  | names, [] => names = []
  | names, .startTag name _ :: forms => Balanced (name :: names) forms
  | names, .endTag name closes :: forms =>
    closes = 1 ∧ ∃ outer, names = name :: outer ∧ Balanced outer forms
  | names, _ :: forms => Balanced names forms

/-- Puts text in front of a sequence. -/
def prependText (value : String) : List TokenForm → List TokenForm
  | .text next :: forms => .text (value ++ next) :: forms
  | forms => if value = "" then forms else .text value :: forms

/-- Merges runs of text and drops empty text. -/
def join : List TokenForm → List TokenForm
  | [] => []
  | .text value :: forms => prependText value (join forms)
  | form :: forms => form :: join forms

theorem prependText_eq (value : String) (forms : List TokenForm) :
    (∃ next rest, forms = .text next :: rest ∧
        prependText value forms = .text (value ++ next) :: rest) ∨
      (¬startsText forms ∧ prependText value forms =
        if value = "" then forms else .text value :: forms) := by
  unfold prependText
  split
  · exact .inl ⟨_, _, rfl, rfl⟩
  · rename_i hno
    refine .inr ⟨?_, rfl⟩
    cases forms with
    | nil => simp [startsText]
    | cons form forms =>
      cases form with
      | text next => exact absurd rfl (hno next forms)
      | _ => simp [startsText, isText]

theorem join_cons {form : TokenForm} (h : ¬form.isText) (forms : List TokenForm) :
    join (form :: forms) = form :: join forms := by
  cases form with
  | text => exact absurd rfl h
  | _ => rfl

section
variable {mode : Mode}

private theorem markupAll_prependText (value : String) (forms : List TokenForm) :
    markupAll mode none (prependText value forms) = escape value ++ markupAll mode none forms := by
  rcases prependText_eq value forms with ⟨next, rest, rfl, h⟩ | ⟨-, h⟩
  · rw [h, markupAll, markupAll, markupIn_none, markupIn_none, markup, markup, escape_append,
      String.append_assoc]
    rfl
  · rw [h]
    split
    · rename_i hv
      rw [hv, escape_empty, String.empty_append]
    · rfl

private theorem rawInside_cases {name : String} {forms : List TokenForm} (h : RawInside name forms) :
    (∃ value tag closes rest, forms = .text value :: .endTag tag closes :: rest ∧
      IsRawText name value) ∨ ∃ tag closes rest, forms = .endTag tag closes :: rest := by
  unfold RawInside at h
  split at h
  · exact .inl ⟨_, _, _, _, rfl, h⟩
  · exact .inr ⟨_, _, _, rfl⟩
  · cases h

/-- Raw text stays what it is when it is joined: nothing but an end tag follows it. -/
private theorem join_of_rawInside {name : String} {forms : List TokenForm}
    (h : RawInside name forms) : ∃ value tag closes rest, IsRawText name value ∧
      (forms = .text value :: .endTag tag closes :: rest ∨
        value = "" ∧ forms = .endTag tag closes :: rest) ∧
      join forms = if value = "" then .endTag tag closes :: join rest
        else .text value :: .endTag tag closes :: join rest := by
  rcases rawInside_cases h with ⟨value, tag, closes, rest, rfl, hvalue⟩ | ⟨tag, closes, rest, rfl⟩
  · exact ⟨value, tag, closes, rest, hvalue, .inl rfl, rfl⟩
  · exact ⟨"", tag, closes, rest, isRawText_empty name, .inr ⟨rfl, rfl⟩, rfl⟩

/-- Joined text is written alike. -/
theorem markupAll_join {raw? : Option String} {forms : List TokenForm}
    (hraw : ∀ name ∈ raw?, RawInside name forms) (hk : RawTextKept mode forms) :
    markupAll mode raw? (join forms) = markupAll mode raw? forms := by
  induction forms generalizing raw? with
  | nil => rfl
  | cons form forms ih =>
    obtain ⟨hinside, hk⟩ := hk
    by_cases ht : form.isText
    · cases form with
      | text value =>
        have hnone : markupAll mode none (join forms) = markupAll mode none forms :=
          ih (by simp) hk
        cases raw? with
        | none =>
          rw [join, markupAll_prependText, hnone]
          rfl
        | some name =>
          obtain ⟨text, tag, closes, rest, -, he, hjoin⟩ := join_of_rawInside (hraw name rfl)
          obtain ⟨rfl, rfl⟩ : value = text ∧ forms = .endTag tag closes :: rest := by
            simpa using he
          rw [hjoin]
          split
          · rename_i hv
            subst hv
            exact hnone.trans String.empty_append.symm
          · exact congrArg (value ++ ·) hnone
      | _ => cases ht
    · rw [join_cons ht, markupAll, markupAll, ih hinside hk]

private theorem rawTextKept_prependText (value : String) {forms : List TokenForm}
    (h : RawTextKept mode forms) : RawTextKept mode (prependText value forms) := by
  have hnone (v : String) (gs : List TokenForm) (hg : RawTextKept mode gs) :
      RawTextKept mode (.text v :: gs) := ⟨by simp [opensRaw?], hg⟩
  rcases prependText_eq value forms with ⟨next, rest, rfl, he⟩ | ⟨-, he⟩
  · rw [he]
    exact hnone _ _ h.2
  · rw [he]
    split
    · exact h
    · exact hnone _ _ h

theorem rawTextKept_join {forms : List TokenForm} (h : RawTextKept mode forms) :
    RawTextKept mode (join forms) := by
  fun_induction join forms with
  | case1 => exact h
  | case2 value forms ih => exact rawTextKept_prependText value (ih h.2)
  | case3 form forms _ ih =>
    refine ⟨fun name hname => ?_, ih h.2⟩
    obtain ⟨value, tag, closes, rest, hvalue, -, hjoin⟩ := join_of_rawInside (h.1 name hname)
    rw [hjoin]
    split
    · trivial
    · exact hvalue

end

private theorem joined_prependText (value : String) {forms : List TokenForm} (h : Joined forms) :
    Joined (prependText value forms) := by
  rcases prependText_eq value forms with ⟨next, rest, rfl, he⟩ | ⟨hs, he⟩
  · obtain ⟨hn, hs, hj⟩ := h
    rw [he]
    exact ⟨by simp [hn], hs, hj⟩
  · rw [he]
    split
    · exact h
    · exact ⟨‹_›, hs, h⟩

theorem joined_join (forms : List TokenForm) : Joined (join forms) := by
  fun_induction join forms with
  | case1 => trivial
  | case2 value forms ih => exact joined_prependText value ih
  | case3 form forms hno ih =>
    cases form with
    | text value => exact absurd rfl (hno value)
    | _ => exact ih

private theorem balanced_prependText {value : String} {forms : List TokenForm}
    {names : List String} (h : Balanced names forms) :
    Balanced names (prependText value forms) := by
  rcases prependText_eq value forms with ⟨next, rest, rfl, he⟩ | ⟨-, he⟩
  · rw [he]
    exact h
  · rw [he]
    split <;> exact h

theorem balanced_join {forms : List TokenForm} {names : List String} (h : Balanced names forms) :
    Balanced names (join forms) := by
  induction forms generalizing names with
  | nil => exact h
  | cons form forms ih =>
    cases form with
    | text value => exact balanced_prependText (ih h)
    | startTag => exact ih h
    | endTag =>
      obtain ⟨rfl, outer, rfl, h⟩ := h
      exact ⟨rfl, outer, rfl, ih h⟩
    | _ => exact ih h

theorem legibleIn_join {mode : Mode} {forms : List TokenForm}
    (h : ∀ f ∈ forms, f.LegibleIn mode) : ∀ f ∈ join forms, f.LegibleIn mode := by
  have htext (value : String) : LegibleIn mode (.text value) := by
    cases mode <;> exact ⟨trivial, trivial⟩
  fun_induction join forms with
  | case1 => exact h
  | case2 value forms ih =>
    have hforms := ih fun f hf => h f (List.mem_cons_of_mem _ hf)
    rcases prependText_eq value (join forms) with ⟨next, rest, hj, he⟩ | ⟨-, he⟩
    · rw [he]
      rw [hj] at hforms
      exact List.forall_mem_cons.mpr ⟨htext _, (List.forall_mem_cons.mp hforms).2⟩
    · rw [he]
      split
      · exact hforms
      · exact List.forall_mem_cons.mpr ⟨htext value, hforms⟩
  | case3 form forms _ ih =>
    obtain ⟨hform, hforms⟩ := List.forall_mem_cons.mp h
    exact List.forall_mem_cons.mpr ⟨hform, ih hforms⟩

private theorem endsText_markupAll {mode : Mode} {forms : List TokenForm} (h : ¬startsText forms) :
    EndsText (encode (markupAll mode none forms)) := by
  cases forms with
  | nil => exact fun b hb => by cases hb
  | cons form forms =>
    have hhead : (encode form.markup).head? = some 0x3C := by
      cases form with
      | startTag => rw [encode_startTag]; rfl
      | emptyTag => rw [encode_emptyTag]; rfl
      | endTag => rw [encode_endTag]; rfl
      | text => exact absurd rfl h
      | comment => rw [encode_comment]; rfl
      | instruction => rw [encode_instruction]; rfl
      | doctype => rw [encode_doctype]; rfl
    intro b hb
    rw [markupAll, markupIn_none, encode_append, List.head?_append, hhead] at hb
    exact (Option.some.inj hb).symm

end TokenForm

namespace Tokenizer
open TokenForm (Balanced Joined LegibleIn RawInside RawTextKept markupAll startsText)

/-- The tokens still to be handed out, one of which may have been cut already. What has been cut from
the input may end with the start tag of a raw-text element. -/
structure About (t : Tokenizer) (raw? : Option String) (forms : List TokenForm) : Prop where
  ahead : t.reader.ahead = 0
  source : match t.pending? with
    | none => t.reader.source = encode (markupAll t.mode raw? forms)
    | some token => raw? = none ∧ ∃ form rest, forms = form :: rest ∧
        token.form = form.uncounted ∧
        t.reader.source = encode (markupAll t.mode (form.opensRaw? t.mode) rest)

variable {t : Tokenizer} {form : TokenForm} {forms : List TokenForm}

/-- The first of the tokens to be handed out, cut from the input, and what is left to be handed out
behind it. -/
def Takes (t : Tokenizer) (form : TokenForm) (forms : List TokenForm) : Prop :=
  ∃ token rest, t.take? = .ok (some token, rest) ∧ token.form = form.uncounted ∧
    rest.About (form.opensRaw? t.mode) forms ∧ rest.openElements = t.openElements ∧
    rest.mode = t.mode

/-- A run of text ends with the markup behind it, or with the input. -/
private theorem takes_text {value : String} (hp : t.pending? = none)
    (h : t.About none (.text value :: forms)) (hl : ∀ f ∈ forms, f.LegibleIn t.mode)
    (hj : Joined (.text value :: forms)) : t.Takes (.text value) forms := by
  obtain ⟨hv, hs, -⟩ := hj
  have hsource := h.source
  rw [hp] at hsource
  dsimp only at hsource
  rw [markupAll, encode_append, TokenForm.markupIn_none, TokenForm.markup,
    ← String.ofList_toList (s := value)] at hsource
  obtain ⟨next, read?, hm, ha, hrest, hcollect, htext⟩ :=
    Reader.collect_escape (TokenForm.endsText_markupAll hs) h.ahead hsource none
  rw [if_neg (by simpa using hv)] at htext
  obtain ⟨run, rfl, hread⟩ := Option.map_eq_some_iff.mp htext
  have hvalue : run.token.form = .text value := by
    simpa [Reader.TextRun.token, Reader.textBefore] using hread
  cases forms with
  | nil =>
    have hend := hcollect.trans (Reader.collect_end ha hrest (some run))
    exact ⟨_, _, take?_collect hp hend, hvalue, ⟨ha, hrest⟩, rfl, hm⟩
  | cons form forms =>
    obtain ⟨hform, -⟩ := List.forall_mem_cons.mp hl
    have ht : ¬form.isText := hs
    rw [markupAll, encode_append, TokenForm.markupIn_none] at hrest
    have hmode : next.mode = t.mode := hm
    obtain ⟨tokenSpan, hnext⟩ := Reader.next?_markup ha (hmode ▸ hform) ht hrest
    have hend := hcollect.trans (Reader.collect_token hnext)
    refine ⟨_, _, take?_collect hp hend, hvalue, ⟨ha, rfl, form, forms, rfl, rfl, ?_⟩, rfl, hm⟩
    change _ = encode (markupAll next.mode (form.opensRaw? next.mode) forms)
    rw [hmode]

private theorem takes_markup {raw? : Option String} (hp : t.pending? = none)
    (h : t.About raw? (form :: forms)) (hl : form.LegibleIn t.mode) (ht : ¬form.isText) :
    t.Takes form forms := by
  have hsource := h.source
  rw [hp] at hsource
  dsimp only at hsource
  rw [markupAll, encode_append, TokenForm.markupIn_of_not_isText ht] at hsource
  obtain ⟨span, hnext⟩ := Reader.next?_markup h.ahead hl ht hsource
  exact ⟨_, _, take?_collect hp (Reader.collect_token hnext), rfl, ⟨h.ahead, rfl⟩, rfl, rfl⟩

/-- The first of the tokens to be handed out is taken. -/
theorem takes_of_about (h : t.About none (form :: forms))
    (hl : ∀ f ∈ form :: forms, f.LegibleIn t.mode) (hj : Joined (form :: forms)) :
    t.Takes form forms := by
  obtain ⟨hform, hforms⟩ := List.forall_mem_cons.mp hl
  cases hp : t.pending? with
  | some token =>
    have hsource := h.source
    rw [hp] at hsource
    obtain ⟨-, form', rest, he, htoken, hrest⟩ := hsource
    cases he
    exact ⟨token, { t with pending? := none }, take?_pending hp, htoken, ⟨h.ahead, hrest⟩, rfl, rfl⟩
  | none =>
    by_cases ht : form.isText
    · cases form with
      | text value => exact takes_text hp h hforms hj
      | _ => cases ht
    · exact takes_markup hp h hform ht

private theorem take?_end (h : t.About none []) : t.take? = .ok (none, t) := by
  have hsource := h.source
  cases hp : t.pending? with
  | some token =>
    rw [hp] at hsource
    obtain ⟨-, form', rest, he, -⟩ := hsource
    cases he
  | none =>
    rw [hp] at hsource
    rw [take?_collect hp (Reader.collect_end h.ahead hsource none)]
    obtain ⟨input, reader, openElements, pending?, position⟩ := t
    obtain rfl : pending? = none := hp
    rfl

private theorem splitRawText_source {name value : String} (hn : IsWord name)
    (hv : IsRawText name value) {mode : Mode} {closes : Nat} {rest : List TokenForm} :
    splitRawText name (encode (value ++ markupAll mode none (.endTag name closes :: rest))) =
      (encode value, encode (markupAll mode none (.endTag name closes :: rest))) := by
  rw [encode_append, markupAll, encode_append]
  exact splitRawText_encode hn hv closes _

private theorem ahead_endTag (mode : Mode) (offset : Nat) (name : String) (closes : Nat)
    (rest : List TokenForm) : (Reader.startingAt mode offset
      (encode (markupAll mode none (.endTag name closes :: rest)))).ahead = 0 := by
  rw [markupAll, encode_append, TokenForm.markupIn_none, TokenForm.encode_endTag]
  rfl

/-- Behind the start tag of a raw-text element its inside is cut off as it stands. -/
private theorem about_queueRawText {name : String} (hn : IsWord name)
    (h : t.About (some name) forms) (hr : RawInside name forms) (hj : Joined forms)
    (hb : Balanced t.openElements.names forms) (ho : t.openElements.innermost? = some name) :
    (t.queueRawText name).About none forms := by
  have hp : t.pending? = none := by
    have hsource := h.source
    cases hp : t.pending? with
    | none => rfl
    | some token =>
      rw [hp] at hsource
      cases hsource.1
  have hsource := h.source
  rw [hp] at hsource
  dsimp only at hsource
  have hinner {tag : String} {outer : List String} (hnames : t.openElements.names = tag :: outer) :
      tag = name := by
    rw [OpenElements.innermost?, hnames] at ho
    exact Option.some.inj ho
  rcases TokenForm.rawInside_cases hr with
    ⟨value, tag, closes, rest, rfl, hvalue⟩ | ⟨tag, closes, rest, rfl⟩
  · obtain ⟨-, outer, hnames, -⟩ := hb
    obtain rfl := hinner hnames
    have hsplit : splitRawText tag t.reader.source = (encode value, _) :=
      hsource ▸ splitRawText_source hn hvalue
    have hne : (encode value).isEmpty = false := by
      simpa using Text.encode_ne_nil hj.1
    refine ⟨?_, ?_⟩
    · simp only [queueRawText, hsplit]
      exact ahead_endTag ..
    · simp only [queueRawText, hsplit, hne, Text.decodeLossy_encode]
      exact ⟨trivial, _, _, rfl, rfl, rfl⟩
  · obtain ⟨-, outer, hnames, -⟩ := hb
    obtain rfl := hinner hnames
    have hsplit : splitRawText tag t.reader.source =
        ([], encode (markupAll t.mode none (.endTag tag closes :: rest))) := by
      rw [hsource, ← Text.encode_empty, ← splitRawText_source hn (isRawText_empty tag),
        String.empty_append]
      rfl
    refine ⟨?_, ?_⟩
    · simp only [queueRawText, hsplit]
      exact ahead_endTag ..
    · simp only [queueRawText, hsplit]
      rfl

/-- Handing out a token counts what it closes, and passes over the inside of a raw-text element. -/
theorem handOut_of_about {token : Token} (h : t.About (form.opensRaw? t.mode) forms)
    (hl : form.LegibleIn t.mode) (hr : RawTextKept t.mode (form :: forms)) (hj : Joined forms)
    (hb : Balanced t.openElements.names (form :: forms)) (hf : token.form = form.uncounted) :
    ∃ handed rest, t.handOut token = .ok (handed, rest) ∧ handed.form = form ∧
      rest.About none forms ∧ Balanced rest.openElements.names forms ∧ rest.mode = t.mode := by
  cases form with
  | startTag name attributes =>
    have hbalanced : Balanced (t.enter token name).openElements.names forms := hb
    have hhand := handOut_startTag (t := t) hf
    by_cases hraw : t.mode = .html ∧ isRawTextElement name
    · have hopens : TokenForm.opensRaw? t.mode (.startTag name attributes) = some name := if_pos hraw
      have habout : (t.enter token name).About (some name) forms := hopens ▸ ⟨h.ahead, h.source⟩
      rw [if_pos hraw] at hhand
      exact ⟨token, _, hhand, hf,
        about_queueRawText hl.1.1 habout (hr.1 name hopens) hj hbalanced rfl, hbalanced, rfl⟩
    · have hopens : TokenForm.opensRaw? t.mode (.startTag name attributes) = none := if_neg hraw
      have habout : (t.enter token name).About none forms := hopens ▸ ⟨h.ahead, h.source⟩
      rw [if_neg hraw] at hhand
      exact ⟨token, _, hhand, hf, habout, hbalanced, rfl⟩
  | endTag name closes =>
    obtain ⟨rfl, outer, hnames, hb⟩ := hb
    have hclose : t.openElements.close t.mode name = .ok (1, ⟨outer⟩) := by
      cases hm : t.mode <;> simp [OpenElements.close, OpenElements.innermost?, hnames,
        List.findIdx?_cons]
    exact ⟨_, _, handOut_endTag hf hclose, rfl, ⟨h.ahead, h.source⟩, hb, rfl⟩
  | _ =>
    have hnesting : ¬token.form.isNesting := by
      rw [hf]
      exact Bool.false_ne_true
    exact ⟨token, _, handOut_of_not_isNesting hnesting, hf, ⟨h.ahead, h.source⟩, hb, rfl⟩

/-- The tokens of a sequence written as markup are handed out one after the other. -/
theorem run_of_about (h : t.About none forms) (hl : ∀ f ∈ forms, f.LegibleIn t.mode)
    (hr : RawTextKept t.mode forms) (hj : Joined forms)
    (hb : Balanced t.openElements.names forms) :
    ∃ tokens last, t.Run 0 tokens last ∧ last.next = .ok none ∧ tokens.map (·.form) = forms := by
  induction forms generalizing t with
  | nil =>
    have hnames : t.openElements.names = [] := hb
    exact ⟨[], t, .done t, next_eq_none_iff.mpr ⟨t, take?_end h, fun _ => hnames⟩, rfl⟩
  | cons form forms ih =>
    obtain ⟨token, taken, htake, hform, habout, hopen, hmode⟩ := takes_of_about h hl hj
    obtain ⟨hlform, hl⟩ := List.forall_mem_cons.mp hl
    have hjoined : Joined forms := by
      cases form with
      | text => exact hj.2.2
      | _ => exact hj
    rw [← hmode] at habout hlform hr hl
    obtain ⟨handed, rest, hhand, hhanded, hrest, hbalanced, hmode'⟩ :=
      handOut_of_about habout hlform hr hjoined (hopen ▸ hb) hform
    rw [← hmode'] at hl hr
    obtain ⟨tokens, last, hrun, hend, hforms⟩ := ih hrest hl hr.2 hjoined hbalanced
    have hnext := next_eq_some_iff.mpr ⟨token, taken, htake, hhand⟩
    exact ⟨handed :: tokens, last, .step hnext (Nat.zero_le _) hrun, hend,
      by rw [List.map_cons, hhanded, hforms]⟩

end Tokenizer

/-- A sequence of tokens is read back from its markup, with its text joined. -/
theorem tokenize_markupAll {mode : Mode} {forms : List TokenForm}
    (hl : ∀ f ∈ forms, f.LegibleIn mode) (hr : TokenForm.RawTextKept mode forms)
    (hb : TokenForm.Balanced [] forms)
    (hmark : ¬Reader.startsWithMark (encode (TokenForm.markupAll mode none forms))) :
    ∃ tokens, tokenize mode (encode (TokenForm.markupAll mode none forms)) = .ok tokens ∧
      tokens.map (·.form) = TokenForm.join forms := by
  rw [← TokenForm.markupAll_join (by simp) hr] at hmark ⊢
  have habout : (Tokenizer.ofBytes mode
      (encode (TokenForm.markupAll mode none (TokenForm.join forms)))).About none
        (TokenForm.join forms) :=
    ⟨if_neg hmark, rfl⟩
  obtain ⟨tokens, last, hrun, hend, hforms⟩ := Tokenizer.run_of_about habout
    (TokenForm.legibleIn_join hl) (TokenForm.rawTextKept_join hr) (TokenForm.joined_join forms)
    (TokenForm.balanced_join hb)
  exact ⟨tokens, tokenize_eq_ok_iff.mpr ⟨last, hrun, hend⟩, hforms⟩

end MarkupGraft.Markup
