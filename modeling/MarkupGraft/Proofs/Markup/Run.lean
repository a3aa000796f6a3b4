import MarkupGraft.Markup.Tokenizer

/-!
Runs of a tokenizer: the tokens that it hands out on its way from one state to another. What a single
step does is said here once, and what holds of a run follows by induction on the run.
-/

namespace MarkupGraft.Markup

theorem eq_ok_of_toOption {ε α : Type} {result : Except ε α} {a : α}
    (h : result.toOption = some a) : result = .ok a := by
  cases result with
  | error => cases h
  | ok b => rw [Option.some.inj h]

theorem bind_eq_ok_iff {ε α β : Type} {result : Except ε α} {f : α → Except ε β} {b : β} :
    result >>= f = .ok b ↔ ∃ a, result = .ok a ∧ f a = .ok b := by
  cases result <;> simp [bind, Except.bind]

theorem bind_eq_error_iff {ε α β : Type} {result : Except ε α} {f : α → Except ε β} {e : ε} :
    result >>= f = .error e ↔ result = .error e ∨ ∃ a, result = .ok a ∧ f a = .error e := by
  cases result <;> simp [bind, Except.bind]

theorem map_eq_ok_iff {ε α β : Type} {result : Except ε α} {f : α → β} {b : β} :
    result.map f = .ok b ↔ ∃ a, result = .ok a ∧ f a = b := by
  cases result <;> simp [Except.map]

theorem map_eq_error_iff {ε α β : Type} {result : Except ε α} {f : α → β} {e : ε} :
    result.map f = .error e ↔ result = .error e := by
  cases result <;> simp [Except.map]

/-- How many elements are open behind a token. -/
def Token.depthAfter (t : Token) (depth : Nat) : Nat :=
  match t.form with
  | .startTag _ _ => depth + 1
  | .endTag _ closes => depth - closes
  | _ => depth

/-- Whether a token opens or closes elements. -/
def TokenForm.isNesting : TokenForm → Bool
  | .startTag _ _ | .endTag _ _ => true
  | _ => false

theorem Token.depthAfter_of_not_isNesting {t : Token} (h : ¬t.form.isNesting) (depth : Nat) :
    t.depthAfter depth = depth := by
  unfold depthAfter
  split
  · rename_i name attributes hs
    exact absurd (by rw [hs]; rfl) h
  · rename_i name closes he
    exact absurd (by rw [he]; rfl) h
  · rfl

theorem OpenElements.of_close {o rest : OpenElements} {mode : Mode} {name : String} {closes : Nat}
    (h : o.close mode name = .ok (closes, rest)) :
    closes ≤ o.depth ∧ rest.names = o.names.drop closes ∧ (mode = .xml → closes = 1) := by
  cases mode with
  | xml =>
    simp only [close] at h
    split at h
    · rename_i hname
      cases h
      refine ⟨List.length_pos_iff.mpr fun hnil => ?_, rfl, fun _ => rfl⟩
      rw [innermost?, hnil] at hname
      cases hname
    · cases h
  | html =>
    simp only [close] at h
    split at h
    · rename_i i hi
      cases h
      exact ⟨(List.findIdx?_eq_some_iff_getElem.mp hi).1, rfl, by simp⟩
    · cases h
      exact ⟨Nat.zero_le _, rfl, by simp⟩

/-- XML admits no end tag but that of the innermost element. -/
theorem OpenElements.innermost_of_close {o rest : OpenElements} {name : String} {closes : Nat}
    (h : o.close .xml name = .ok (closes, rest)) : closes = 1 ∧ o.innermost? = some name := by
  rw [close] at h
  split at h
  · rename_i hname
    cases h
    exact ⟨rfl, hname⟩
  · cases h

namespace Reader

/-- An event is cut from the piece that the reader stands in front of. -/
theorem next?_cases {r rest : Reader} {e : Event} (h : r.next? = .ok (some (e, rest))) :
    ∃ piece others, Piece.read? r.mode (r.source.drop r.ahead) = .ok (some (piece, others)) ∧
      event r.mode piece ⟨r.offset, r.offset + piece.bytes.length⟩
        (r.source.take piece.bytes.length) = .ok e ∧
      rest = { r with
        offset := r.offset + piece.bytes.length, source := r.source.drop piece.bytes.length } := by
  unfold next? at h
  split at h
  · cases h
  · cases h
  · rename_i piece others hp
    obtain ⟨event, he, hsome⟩ := map_eq_ok_iff.mp h
    cases hsome
    exact ⟨piece, others, hp, he, rfl⟩

theorem next?_kept {r rest : Reader} {e : Event} (h : r.next? = .ok (some (e, rest))) :
    rest.mode = r.mode ∧ rest.ahead = r.ahead := by
  obtain ⟨piece, others, -, -, rfl⟩ := next?_cases h
  exact ⟨rfl, rfl⟩

theorem source_of_next?_none {r : Reader} (h : r.next? = .ok none) : r.source.drop r.ahead = [] := by
  unfold next? at h
  split at h
  · cases h
  · rename_i hread
    cases hs : r.source.drop r.ahead with
    | nil => rfl
    | cons b bytes =>
      rw [hs, Piece.read?] at hread
      cases hm : Piece.measure r.mode (b :: bytes) <;> rw [hm] at hread <;> cases hread
  · obtain ⟨event, -, hsome⟩ := map_eq_ok_iff.mp h
    cases hsome

theorem collect_characters {r next : Reader} {run? : Option TextRun} {span : Span}
    {value : String} (h : r.next? = .ok (some (.characters span value, next))) :
    r.collect run? = next.collect (some (extend run? span value)) := by
  rw [collect]
  split <;> simp_all

theorem collect_token {r next : Reader} {run? : Option TextRun} {token : Token}
    (h : r.next? = .ok (some (.token token, next))) :
    r.collect run? = .ok (run?.map TextRun.token, some token, next) := by
  rw [collect]
  split <;> simp_all

theorem collect_end {r : Reader} (ha : r.ahead = 0) (hs : r.source = [])
    (run? : Option TextRun) : r.collect run? = .ok (run?.map TextRun.token, none, r) := by
  have hnext : r.next? = .ok none := by simp [next?, ha, hs, Piece.read?]
  rw [collect]
  split <;> simp_all

theorem collect_kept {r rest : Reader} {run? : Option TextRun} {text? markup? : Option Token}
    (h : r.collect run? = .ok (text?, markup?, rest)) :
    rest.mode = r.mode ∧ rest.ahead = r.ahead ∧ ∀ t ∈ text?, ¬t.form.isNesting := by
  have htext (run? : Option TextRun) : ∀ t ∈ run?.map TextRun.token, ¬t.form.isNesting := by
    intro t ht
    obtain ⟨run, -, rfl⟩ := Option.map_eq_some_iff.mp ht
    exact Bool.false_ne_true
  fun_induction collect r run? with
  | case1 => cases h
  | case2 r run? hn =>
    cases h
    exact ⟨rfl, rfl, htext run?⟩
  | case3 r run? token rest hn =>
    cases h
    obtain ⟨piece, others, -, -, rfl⟩ := next?_cases hn
    exact ⟨rfl, rfl, htext run?⟩
  | case4 r run? span value next hn ih =>
    obtain ⟨piece, others, -, -, rfl⟩ := next?_cases hn
    exact ih h

end Reader

namespace Tokenizer
variable {t rest : Tokenizer} {token : Token}

/-! Single steps -/

private theorem next_of_taken {taken : Token} (h : t.take? = .ok (some taken, rest)) :
    t.next = (rest.handOut taken).map some := by
  simp only [next, h, bind, Except.bind]
  rfl

private theorem next_of_end (h : t.take? = .ok (none, rest)) :
    t.next = match rest.mode, rest.openElements.names with
      | .xml, name :: _ => .error (.unclosed name)
      | _, _ => .ok none := by
  simp only [next, h, bind, Except.bind, OpenElements.innermost?]
  cases rest.mode <;> cases rest.openElements.names <;> rfl

theorem next_eq_some_iff : t.next = .ok (some (token, rest)) ↔
    ∃ taken u, t.take? = .ok (some taken, u) ∧ u.handOut taken = .ok (token, rest) := by
  constructor
  · intro h
    obtain ⟨⟨taken?, u⟩, ht, -⟩ := bind_eq_ok_iff.mp h
    cases taken? with
    | none =>
      rw [next_of_end ht] at h
      split at h <;> cases h
    | some taken =>
      rw [next_of_taken ht] at h
      obtain ⟨handed, hh, hsome⟩ := map_eq_ok_iff.mp h
      cases hsome
      exact ⟨taken, u, ht, hh⟩
  · rintro ⟨taken, u, ht, hh⟩
    rw [next_of_taken ht, hh]
    rfl

theorem next_eq_none_iff : t.next = .ok none ↔
    ∃ u, t.take? = .ok (none, u) ∧ (u.mode = .xml → u.openElements.names = []) := by
  constructor
  · intro h
    obtain ⟨⟨taken?, u⟩, ht, -⟩ := bind_eq_ok_iff.mp h
    cases taken? with
    | none =>
      rw [next_of_end ht] at h
      refine ⟨u, ht, fun hm => ?_⟩
      cases hn : u.openElements.names with
      | nil => rfl
      | cons name names =>
        simp only [hm, hn] at h
        cases h
    | some taken =>
      rw [next_of_taken ht] at h
      obtain ⟨handed, -, hsome⟩ := map_eq_ok_iff.mp h
      cases hsome
  · rintro ⟨u, ht, hu⟩
    rw [next_of_end ht]
    split
    · rename_i hm hn
      cases (hu hm).symm.trans hn
    · rfl

/-- What is handed out next was read already, or is read now. Behind text, the markup that ends it has
been read too. -/
theorem take?_cases {token? : Option Token} (h : t.take? = .ok (token?, rest)) :
    (∃ token, t.pending? = some token ∧ token? = some token ∧ rest = { t with pending? := none }) ∨
      t.pending? = none ∧ ∃ text? markup? reader,
        t.reader.collect none = .ok (text?, markup?, reader) ∧ token? = text?.or markup? ∧
          rest = { t with reader, pending? := text?.bind fun _ => markup? } := by
  unfold take? at h
  split at h
  · rename_i token hp
    cases h
    exact .inl ⟨token, hp, rfl, rfl⟩
  · rename_i hp
    obtain ⟨⟨text?, markup?, reader⟩, hc, htaken⟩ := map_eq_ok_iff.mp h
    refine .inr ⟨hp, text?, markup?, reader, hc, ?_⟩
    cases text? <;> cases htaken
    · exact ⟨rfl, by rw [Option.bind_none, hp]⟩
    · exact ⟨rfl, rfl⟩

theorem take?_pending (h : t.pending? = some token) :
    t.take? = .ok (some token, { t with pending? := none }) := by
  rw [take?, h]

theorem take?_collect (hp : t.pending? = none) {text? markup? : Option Token} {reader : Reader}
    (h : t.reader.collect none = .ok (text?, markup?, reader)) : t.take? =
      .ok (text?.or markup?, { t with reader, pending? := text?.bind fun _ => markup? }) := by
  obtain ⟨input, before, openElements, pending?, position⟩ := t
  obtain rfl : pending? = none := hp
  rw [take?]
  simp only [h]
  cases text? <;> rfl

/-- The state inside an element, behind its start tag. -/
def enter (t : Tokenizer) (tag : Token) (name : String) : Tokenizer :=
  { t with position := tag.span.stop, openElements := t.openElements.push name }

theorem handOut_startTag {name : String} {attributes : List Attribute}
    (hf : token.form = .startTag name attributes) : t.handOut token = .ok (token,
      if t.mode = .html ∧ isRawTextElement name then (t.enter token name).queueRawText name
      else t.enter token name) := by
  simp only [handOut, hf]
  rfl

theorem handOut_endTag {name : String} {counted closes : Nat} {openElements : OpenElements}
    (hf : token.form = .endTag name counted)
    (hc : t.openElements.close t.mode name = .ok (closes, openElements)) : t.handOut token =
      .ok (⟨.endTag name closes, token.span⟩,
        { t with position := token.span.stop, openElements }) := by
  simp only [handOut, hf]
  simp only [mode] at hc ⊢
  rw [hc]
  rfl

theorem handOut_of_not_isNesting (hf : ¬token.form.isNesting) :
    t.handOut token = .ok (token, { t with position := token.span.stop }) := by
  unfold handOut
  split
  · rename_i name attributes hs
    exact absurd (by rw [hs]; rfl) hf
  · rename_i name closes he
    exact absurd (by rw [he]; rfl) hf
  · rfl

theorem handOut_cases {handed : Token} (h : t.handOut token = .ok (handed, rest)) :
    (∃ name attributes, token.form = .startTag name attributes ∧ handed = token ∧
      rest = if t.mode = .html ∧ isRawTextElement name then (t.enter token name).queueRawText name
        else t.enter token name) ∨
      (∃ name counted closes openElements, token.form = .endTag name counted ∧
        t.openElements.close t.mode name = .ok (closes, openElements) ∧
        handed = ⟨.endTag name closes, token.span⟩ ∧
        rest = { t with position := token.span.stop, openElements }) ∨
      ¬token.form.isNesting ∧ handed = token ∧ rest = { t with position := token.span.stop } := by
  cases hf : token.form with
  | startTag name attributes =>
    rw [handOut_startTag hf] at h
    cases h
    exact .inl ⟨name, attributes, rfl, rfl, rfl⟩
  | endTag name counted =>
    simp only [handOut, hf] at h
    obtain ⟨⟨closes, openElements⟩, hc, hpair⟩ := map_eq_ok_iff.mp h
    cases hpair
    exact .inr (.inl ⟨name, counted, closes, openElements, rfl, hc, rfl, rfl⟩)
  | _ =>
    have hn : ¬token.form.isNesting := by
      rw [hf]
      exact Bool.false_ne_true
    rw [handOut_of_not_isNesting hn] at h
    cases h
    exact .inr (.inr ⟨Bool.false_ne_true, rfl, rfl⟩)

/-- Behind a tag nothing has been read yet. -/
theorem pending_of_take? {taken : Token} (h : t.take? = .ok (some taken, rest))
    (hn : taken.form.isNesting) : rest.pending? = none := by
  rcases take?_cases h with ⟨-, -, -, rfl⟩ | ⟨-, text?, markup?, reader, hc, he, rfl⟩
  · rfl
  · cases text? with
    | none => rfl
    | some text =>
      cases he
      exact absurd hn ((Reader.collect_kept hc).2.2 taken rfl)

theorem take?_kept {token? : Option Token} (h : t.take? = .ok (token?, rest)) :
    rest.input = t.input ∧ rest.openElements = t.openElements ∧ rest.mode = t.mode := by
  rcases take?_cases h with ⟨-, -, -, rfl⟩ | ⟨-, _, _, _, hc, -, rfl⟩
  · exact ⟨rfl, rfl, rfl⟩
  · exact ⟨rfl, rfl, (Reader.collect_kept hc).1⟩

theorem handOut_kept {handed : Token} (h : t.handOut token = .ok (handed, rest)) :
    handed.span = token.span ∧ rest.input = t.input ∧ rest.mode = t.mode ∧
      rest.position = token.span.stop ∧ rest.depth = handed.depthAfter t.depth := by
  rcases handOut_cases h with ⟨name, attributes, hf, rfl, rfl⟩ |
    ⟨name, counted, closes, openElements, hf, hc, rfl, rfl⟩ | ⟨hn, rfl, rfl⟩
  · have hdepth : handed.depthAfter t.depth = t.depth + 1 := by rw [Token.depthAfter, hf]
    rw [hdepth]
    split <;> exact ⟨rfl, rfl, rfl, rfl, rfl⟩
  · obtain ⟨-, hnames, -⟩ := OpenElements.of_close hc
    refine ⟨rfl, rfl, rfl, rfl, ?_⟩
    rw [depth, OpenElements.depth, hnames, List.length_drop]
    rfl
  · exact ⟨rfl, rfl, rfl, rfl, (handed.depthAfter_of_not_isNesting hn t.depth).symm⟩

theorem next_kept (h : t.next = .ok (some (token, rest))) :
    rest.input = t.input ∧ rest.mode = t.mode ∧ rest.position = token.span.stop ∧
      rest.depth = token.depthAfter t.depth := by
  obtain ⟨taken, u, ht, hh⟩ := next_eq_some_iff.mp h
  obtain ⟨hinput, hopen, hmode⟩ := take?_kept ht
  obtain ⟨hspan, hinput', hmode', hposition, hdepth⟩ := handOut_kept hh
  refine ⟨hinput'.trans hinput, hmode'.trans hmode, hspan ▸ hposition, ?_⟩
  rw [hdepth, depth, depth, hopen]

/-- The names of the elements that are open behind a token. -/
theorem names_of_next (h : t.next = .ok (some (token, rest))) : rest.openElements.names =
    match token.form with
    | .startTag name _ => name :: t.openElements.names
    | .endTag _ closes => t.openElements.names.drop closes
    | _ => t.openElements.names := by
  obtain ⟨taken, u, ht, hh⟩ := next_eq_some_iff.mp h
  obtain ⟨-, hopen, -⟩ := take?_kept ht
  rw [← hopen]
  rcases handOut_cases hh with ⟨name, attributes, hf, rfl, rfl⟩ |
    ⟨name, counted, closes, openElements, hf, hc, rfl, rfl⟩ | ⟨hn, rfl, rfl⟩
  · rw [hf]
    split <;> rfl
  · exact (OpenElements.of_close hc).2.1
  · cases hf : token.form with
    | startTag | endTag => exact absurd (by rw [hf]; rfl) hn
    | _ => rfl

/-- An end tag closes elements that are open. -/
theorem closes_of_next {name : String} {closes : Nat} (h : t.next = .ok (some (token, rest)))
    (hf : token.form = .endTag name closes) : closes ≤ t.depth ∧
      (t.mode = .xml → closes = 1 ∧ t.openElements.innermost? = some name) := by
  obtain ⟨taken, u, ht, hh⟩ := next_eq_some_iff.mp h
  obtain ⟨-, hopen, hmode⟩ := take?_kept ht
  rw [depth, ← hopen, ← hmode]
  rcases handOut_cases hh with ⟨name', attributes, hs, rfl, -⟩ |
    ⟨name', counted, closes', openElements, -, hc, rfl, -⟩ | ⟨hn, rfl, -⟩
  · rw [hf] at hs
    cases hs
  · cases hf
    refine ⟨(OpenElements.of_close hc).1, fun hm => ?_⟩
    rw [hm] at hc
    exact OpenElements.innermost_of_close hc
  · exact absurd (by rw [hf]; rfl) hn

/-! Runs -/

/-- The tokens handed out on the way from one state to another, while at least `depth` elements stay
open. -/
inductive Run (depth : Nat) : Tokenizer → List Token → Tokenizer → Prop where
  | done (t : Tokenizer) : Run depth t [] t
  | step {t behind last : Tokenizer} {token : Token} {tokens : List Token} :
      t.next = .ok (some (token, behind)) → depth ≤ behind.depth → Run depth behind tokens last →
      Run depth t (token :: tokens) last

namespace Run
variable {depth : Nat} {tokens : List Token} {last : Tokenizer}

theorem mono {floor : Nat} (hf : floor ≤ depth) (h : Run depth t tokens last) :
    Run floor t tokens last := by
  induction h with
  | done t => exact .done t
  | step hn hd _ ih => exact .step hn (Nat.le_trans hf hd) ih

theorem append {others : List Token} (h : Run depth t tokens rest) (h' : Run depth rest others last) :
    Run depth t (tokens ++ others) last := by
  induction h with
  | done t => exact h'
  | step hn hd _ ih => exact .step hn hd (ih h')

theorem split {before behind : List Token} (h : Run depth t (before ++ behind) last) :
    ∃ u, Run depth t before u ∧ Run depth u behind last := by
  induction before generalizing t with
  | nil => exact ⟨t, .done t, h⟩
  | cons token before ih =>
    cases h with
    | step hn hd hr =>
      obtain ⟨u, hbefore, hbehind⟩ := ih hr
      exact ⟨u, .step hn hd hbefore, hbehind⟩

theorem kept (h : Run depth t tokens last) : last.input = t.input ∧ last.mode = t.mode := by
  induction h with
  | done t => exact ⟨rfl, rfl⟩
  | step hn _ _ ih =>
    obtain ⟨hinput, hmode, -⟩ := next_kept hn
    exact ⟨ih.1.trans hinput, ih.2.trans hmode⟩

theorem depth_le (h : Run depth t tokens last) (ht : depth ≤ t.depth) : depth ≤ last.depth := by
  induction h with
  | done t => exact ht
  | step _ hd _ ih => exact ih hd

end Run

/-- All tokens have been handed out when none is left. -/
theorem tokens_eq_iff {all : List Token} :
    t.tokens = (all, none) ↔ ∃ last, Run 0 t all last ∧ last.next = .ok none := by
  constructor
  · intro h
    fun_induction tokens t generalizing all with
    | case1 => cases h
    | case2 t hn =>
      cases h
      exact ⟨t, .done t, hn⟩
    | case3 t token behind hn others error? ht ih =>
      cases h
      obtain ⟨last, hr, hlast⟩ := ih ht
      exact ⟨last, .step hn (Nat.zero_le _) hr, hlast⟩
  · rintro ⟨last, hr, hlast⟩
    induction hr with
    | done t =>
      rw [Tokenizer.tokens]
      split <;> simp_all
    | step hn _ _ ih =>
      rw [Tokenizer.tokens]
      split <;> simp_all

/-- The tokens before an error have been handed out when it is met. -/
theorem exists_run_of_error {all : List Token} {e : ParseError} (h : t.tokens = (all, some e)) :
    ∃ last, Run 0 t all last ∧ last.next = .error e := by
  fun_induction tokens t generalizing all with
  | case1 t e' hn =>
    cases h
    exact ⟨t, .done t, hn⟩
  | case2 => cases h
  | case3 t token behind hn others error? ht ih =>
    cases h
    obtain ⟨last, hr, hlast⟩ := ih ht
    exact ⟨last, .step hn (Nat.zero_le _) hr, hlast⟩

/-- Content is skipped up to the token that closes it, or to the end. -/
theorem skipContent_cases {floor : Nat} {stop? : Option Nat}
    (h : t.skipContent floor = .ok (stop?, rest)) :
    ∃ inside last, Run floor t inside last ∧
      ((∃ closing, last.next = .ok (some (closing, rest)) ∧ rest.depth < floor ∧
        stop? = some closing.span.start) ∨
      last.next = .ok none ∧ stop? = none ∧ rest = last) := by
  fun_induction skipContent t floor with
  | case1 => cases h
  | case2 t hn =>
    cases h
    exact ⟨[], _, .done _, .inr ⟨hn, rfl, rfl⟩⟩
  | case3 t closing behind hn hd =>
    cases h
    exact ⟨[], _, .done _, .inl ⟨closing, hn, hd, rfl⟩⟩
  | case4 t token behind hn hd ih =>
    obtain ⟨inside, last, hr, hcases⟩ := ih h
    exact ⟨token :: inside, last, .step hn (Nat.le_of_not_lt hd) hr, hcases⟩

/-- Where content ends: at the token that closes its element, or where the input does. -/
def Ends (t last u : Tokenizer) (stop : Nat) : Prop :=
  (∃ closing, last.next = .ok (some (closing, u)) ∧ u.depth < t.depth ∧
    stop = closing.span.start) ∨ last.next = .ok none ∧ u = last ∧ stop = t.input.length

theorem rawContent_cases {start : Token} {name : String} {attributes : List Attribute}
    {content : Bytes} (hf : start.form = .startTag name attributes)
    (h : t.rawContent start = .ok (content, rest)) :
    ∃ inside last stop, t.Run t.depth inside last ∧ t.Ends last rest stop ∧
      content = (Span.mk start.span.stop stop).cut t.input := by
  simp only [rawContent, hf] at h
  obtain ⟨⟨stop?, u⟩, hs, hpair⟩ := map_eq_ok_iff.mp h
  cases hpair
  obtain ⟨inside, last, hr, hcases⟩ := skipContent_cases hs
  have hkept := (hr.kept).1
  rcases hcases with ⟨closing, hn, hd, rfl⟩ | ⟨hn, rfl, rfl⟩
  · rw [(next_kept hn).1, hkept]
    exact ⟨inside, last, _, hr, .inl ⟨closing, hn, hd, rfl⟩, rfl⟩
  · rw [hkept]
    exact ⟨inside, _, _, hr, .inr ⟨hn, rfl, rfl⟩, rfl⟩

/-- In XML an end tag closes one element. -/
theorem depth_le_of_next (hm : t.mode = .xml) (h : t.next = .ok (some (token, rest))) :
    t.depth ≤ rest.depth + 1 := by
  obtain ⟨taken, u, ht, hh⟩ := next_eq_some_iff.mp h
  obtain ⟨-, hopen, hmode⟩ := take?_kept ht
  rw [(handOut_kept hh).2.2.2.2]
  have hdepth : t.depth = u.depth := by rw [depth, depth, hopen]
  rw [hdepth]
  rcases handOut_cases hh with ⟨name, attributes, hf, rfl, rfl⟩ |
    ⟨name, counted, closes, openElements, hf, hc, rfl, rfl⟩ | ⟨hn, rfl, rfl⟩
  · rw [Token.depthAfter, hf]
    dsimp only
    omega
  · have hone := (OpenElements.of_close hc).2.2 (hmode.trans hm)
    rw [Token.depthAfter, hone]
    dsimp only
    omega
  · rw [Token.depthAfter_of_not_isNesting hn]
    exact Nat.le_succ _

end Tokenizer

theorem tokenize_eq_ok_iff {mode : Mode} {input : Bytes} {tokens : List Token} :
    tokenize mode input = .ok tokens ↔
      ∃ last, (Tokenizer.ofBytes mode input).Run 0 tokens last ∧ last.next = .ok none := by
  rw [← Tokenizer.tokens_eq_iff, tokenize]
  split <;> simp_all

end MarkupGraft.Markup
