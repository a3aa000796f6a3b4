import MarkupGraft.Markup.Token
import MarkupGraft.Markup.OpenElements

/-!
The token stream of a document. Every token keeps the span it was read from, so a caller that
changes a few regions copies everything else as it stands.
-/

namespace MarkupGraft.Markup

structure Tokenizer where
  input : Bytes
  reader : Reader
  openElements : OpenElements
  /-- A token already read, to be handed out next. -/
  pending? : Option Token
  /-- Where the last token handed out ends. -/
  position : Nat

namespace Tokenizer

def ofBytes (mode : Mode) (input : Bytes) : Tokenizer :=
  ⟨input, .startingAt mode 0 input, {}, none, 0⟩

def mode (t : Tokenizer) : Mode := t.reader.mode

def depth (t : Tokenizer) : Nat := t.openElements.depth

/-- Whether an end tag of the element named `name`, in lower case, begins the sequence. -/
def beginsEndTag (name : String) (bytes : Bytes) : Bool :=
  let mark := 0x3C :: 0x2F :: Text.encode name
  mark.isPrefixOf ((bytes.take mark.length).map fun b =>
    if 0x41 ≤ b ∧ b ≤ 0x5A then b + 0x20 else b)

/-- The raw text at the head of a sequence, up to the end tag of its element, and what follows. -/
def splitRawText (name : String) (bytes : Bytes) : Bytes × Bytes :=
  (Text.splitWhere? (beginsEndTag (foldCase name)) bytes).getD (bytes, [])

theorem append_splitRawText (name : String) (bytes : Bytes) :
    (splitRawText name bytes).1 ++ (splitRawText name bytes).2 = bytes := by
  unfold splitRawText
  cases h : Text.splitWhere? (beginsEndTag (foldCase name)) bytes with
  | none => simp
  | some => exact Text.append_of_splitWhere? h

/-- Makes all up to the end tag of a raw-text element one text token and reads on from there. -/
def queueRawText (t : Tokenizer) (name : String) : Tokenizer :=
  let raw := (splitRawText name t.reader.source).1
  let start := t.reader.offset
  let stop := start + raw.length
  { t with
    pending? := if raw.isEmpty then none else some ⟨.text (Text.decodeLossy raw), ⟨start, stop⟩⟩
    reader := .startingAt t.mode stop (splitRawText name t.reader.source).2 }

/-- Accounts for a token that is handed out. -/
def handOut (t : Tokenizer) (token : Token) : Except ParseError (Token × Tokenizer) :=
  let t := { t with position := token.span.stop }
  match token.form with
  | .startTag name _ =>
    let t := { t with openElements := t.openElements.push name }
    .ok (token, if t.mode = .html ∧ isRawTextElement name then t.queueRawText name else t)
  | .endTag name _ =>
    (t.openElements.close t.mode name).map fun (closes, openElements) =>
      ({ token with form := .endTag name closes }, { t with openElements })
  | _ => .ok (token, t)

/-- The next token to hand out, if any is left. -/
def take? (t : Tokenizer) : Except ParseError (Option Token × Tokenizer) :=
  match t.pending? with
  | some token => .ok (some token, { t with pending? := none })
  | none =>
    (t.reader.collect none).map fun
      | (some text, markup?, reader) => (some text, { t with reader, pending? := markup? })
      | (none, markup?, reader) => (markup?, { t with reader })

/-- The next token and the state behind it. In XML no element may be open at the end. -/
def next (t : Tokenizer) : Except ParseError (Option (Token × Tokenizer)) := do
  match ← t.take? with
  | (some token, t) => some <$> t.handOut token
  | (none, t) =>
    match t.mode, t.openElements.innermost? with
    | .xml, some name => throw (.unclosed name)
    | _, _ => pure none

/-- Bounds the number of tokens to come. -/
def remaining (t : Tokenizer) : Nat :=
  2 * t.reader.source.length + if t.pending?.isSome then 1 else 0

private theorem remaining_of_take? {t rest : Tokenizer} {token : Token}
    (h : t.take? = .ok (some token, rest)) : rest.remaining < t.remaining := by
  unfold take? at h
  split at h
  · rename_i hp
    cases h
    simp [remaining, hp]
  · rename_i hp
    cases hc : t.reader.collect none with
    | error => rw [hc] at h; cases h
    | ok v =>
      obtain ⟨text?, markup?, reader⟩ := v
      have := (Reader.length_of_collect hc).2
      rw [hc] at h
      cases text? with
      | none =>
        cases h
        have := this (.inl rfl)
        simp only [remaining, hp]
        omega
      | some =>
        cases h
        have := this (.inr ⟨rfl, rfl⟩)
        simp only [remaining]
        split <;> omega

private theorem remaining_queueRawText (t : Tokenizer) (name : String) :
    (t.queueRawText name).remaining ≤ t.remaining := by
  have h := congrArg List.length (append_splitRawText name t.reader.source)
  simp only [List.length_append] at h
  simp only [queueRawText, remaining, Reader.startingAt]
  by_cases hr : (splitRawText name t.reader.source).1 = []
  · simp only [hr, List.isEmpty_nil, ↓reduceIte, Option.isSome_none, Bool.false_eq_true]
    split <;> omega
  · have := List.length_pos_iff.mpr hr
    have hr : (splitRawText name t.reader.source).1.isEmpty = false := by simpa using hr
    simp only [hr, Bool.false_eq_true, ↓reduceIte, Option.isSome_some]
    omega

private theorem remaining_of_handOut {t rest : Tokenizer} {token handed : Token}
    (h : t.handOut token = .ok (handed, rest)) : rest.remaining ≤ t.remaining := by
  unfold handOut at h
  split at h
  · rename_i name _ _
    simp only [Except.ok.injEq, Prod.mk.injEq] at h
    obtain ⟨_, rfl⟩ := h
    split
    · exact remaining_queueRawText _ name
    · exact Nat.le_refl _
  · rename_i name _ _
    cases hc : t.openElements.close t.mode name with
    | error =>
      simp only [mode] at hc h
      simp [hc, Except.map] at h
    | ok v =>
      simp only [mode] at hc h
      simp only [hc, Except.map, Except.ok.injEq, Prod.mk.injEq] at h
      obtain ⟨_, rfl⟩ := h
      exact Nat.le_refl _
  · cases h
    exact Nat.le_refl _

theorem remaining_of_next {t rest : Tokenizer} {token : Token}
    (h : t.next = .ok (some (token, rest))) : rest.remaining < t.remaining := by
  simp only [next, bind, Except.bind] at h
  split at h
  · cases h
  · rename_i v ht
    obtain ⟨token?, u⟩ := v
    cases token? with
    | some token =>
      cases hh : u.handOut token with
      | error => simp only [hh] at h; cases h
      | ok w =>
        simp only [hh, Functor.map, Except.map, Except.ok.injEq, Option.some.injEq] at h
        subst h
        exact Nat.lt_of_le_of_lt (remaining_of_handOut hh) (remaining_of_take? ht)
    | none =>
      dsimp only at h
      split at h <;> cases h

/-- The tokens up to the end or the first error, and that error. -/
def tokens (t : Tokenizer) : List Token × Option ParseError :=
  match _h : t.next with
  | .error e => ([], some e)
  | .ok none => ([], none)
  | .ok (some (token, rest)) =>
    let (tokens, error?) := rest.tokens
    (token :: tokens, error?)
termination_by t.remaining
decreasing_by exact remaining_of_next _h

/-- Reads on until fewer than `depth` elements are open: where the token that closed them begins, if
one did, and the state behind it. -/
def skipContent (t : Tokenizer) (depth : Nat) : Except ParseError (Option Nat × Tokenizer) :=
  match _h : t.next with
  | .error e => .error e
  | .ok none => .ok (none, t)
  | .ok (some (token, rest)) =>
    if rest.depth < depth then .ok (some token.span.start, rest) else rest.skipContent depth
termination_by t.remaining
decreasing_by exact remaining_of_next _h

/-- The bytes between a start tag just handed out and the tag that closes its element, or the end of
the input; the tag is consumed too. Other tokens have no content. -/
def rawContent (t : Tokenizer) (start : Token) : Except ParseError (Bytes × Tokenizer) :=
  match start.form with
  | .startTag _ _ =>
    (t.skipContent t.depth).map fun (stop?, t) =>
      ((Span.mk start.span.stop (stop?.getD t.input.length)).cut t.input, t)
  | _ => .ok ([], t)

theorem remaining_of_skipContent {t rest : Tokenizer} {depth : Nat} {stop? : Option Nat}
    (h : t.skipContent depth = .ok (stop?, rest)) : rest.remaining ≤ t.remaining := by
  fun_induction skipContent t depth with
  | case1 => cases h
  | case2 => cases h; exact Nat.le_refl _
  | case3 t token next hn hd => cases h; exact Nat.le_of_lt (remaining_of_next hn)
  | case4 t token next hn hd ih => exact Nat.le_trans (ih h) (Nat.le_of_lt (remaining_of_next hn))

theorem remaining_of_rawContent {t rest : Tokenizer} {start : Token} {content : Bytes}
    (h : t.rawContent start = .ok (content, rest)) : rest.remaining ≤ t.remaining := by
  unfold rawContent at h
  split at h
  · cases hs : t.skipContent t.depth with
    | error => simp [hs, Except.map] at h
    | ok v =>
      obtain ⟨stop?, u⟩ := v
      simp only [hs, Except.map, Except.ok.injEq, Prod.mk.injEq] at h
      obtain ⟨_, rfl⟩ := h
      exact remaining_of_skipContent hs
  · cases h
    exact Nat.le_refl _

end Tokenizer

/-- All tokens of a document, or the first error. -/
def tokenize (mode : Mode) (input : Bytes) : Except ParseError (List Token) :=
  match (Tokenizer.ofBytes mode input).tokens with
  | (tokens, none) => .ok tokens
  | (_, some e) => .error e

end MarkupGraft.Markup
