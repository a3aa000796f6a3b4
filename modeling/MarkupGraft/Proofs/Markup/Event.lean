import MarkupGraft.Markup.Token

/-!
What a piece is read as depends on its bytes alone. Where it stands is told by the span of its event, and
by the positions of the mistakes in it.
-/

namespace MarkupGraft.Markup

namespace Event

/-- The span of what an event was cut from. -/
def span : Event → Span
  | .characters span _ => span
  | .token t => t.span

/-- The event as it would be cut from another place. -/
def inSpan (span : Span) : Event → Event
  | .characters _ value => .characters span value
  | .token t => .token { t with span }

theorem span_inSpan (s : Span) (e : Event) : (e.inSpan s).span = s := by
  cases e <;> rfl

theorem inSpan_span (e : Event) : e.inSpan e.span = e := by
  cases e <;> rfl

theorem inSpan_inSpan (s s' : Span) (e : Event) : (e.inSpan s).inSpan s' = e.inSpan s' := by
  cases e <;> rfl

end Event

namespace Reader

/-- Whether one result is another with its value mapped. Their errors may differ. -/
private def Yields {α β : Type} (f : α → β) (x : Except ParseError α) (y : Except ParseError β) :
    Prop :=
  ∀ v, x = .ok v → y = .ok (f v)

private theorem Yields.bind {α β γ : Type} {f : β → γ} {x x' : Except ParseError α}
    {g : α → Except ParseError β} {g' : α → Except ParseError γ} (hx : Yields id x x')
    (hg : ∀ v, Yields f (g v) (g' v)) : Yields f (x >>= g) (x' >>= g') := by
  intro v h
  cases x with
  | error => cases h
  | ok u =>
    rw [hx u rfl]
    exact hg u v h

private theorem Yields.mapM {α β : Type} {f g : α → Except ParseError β}
    (h : ∀ a, Yields id (f a) (g a)) (l : List α) : Yields id (l.mapM f) (l.mapM g) := by
  induction l with
  | nil => exact fun v hv => hv
  | cons a l ih =>
    rw [List.mapM_cons, List.mapM_cons]
    exact (h a).bind fun b => ih.bind fun bs v hv => hv

section
variable (mode : Mode) (position position' : Nat)

private theorem decodeAt_yields (bytes : Bytes) :
    Yields id (decodeAt position bytes) (decodeAt position' bytes) := by
  intro text h
  unfold decodeAt at h ⊢
  cases hd : Text.decode bytes <;> rw [hd] at h <;> cases h
  rfl

private theorem unescapeAt_yields (text : String) :
    Yields id (unescapeAt mode position text) (unescapeAt mode position' text) := by
  intro value h
  cases mode with
  | html => exact h
  | xml =>
    unfold unescapeAt at h ⊢
    cases hu : unescape text <;> simp only [hu] at h ⊢ <;> cases h
    rfl

private theorem readTag_yields (content : Bytes) :
    Yields id (readTag mode position content) (readTag mode position' content) := by
  unfold readTag
  refine (decodeAt_yields position position' _).bind fun name => ?_
  refine (Yields.mapM (fun a => ?_) _).bind fun attributes => ?_
  · unfold readAttribute
    refine (decodeAt_yields position position' _).bind fun key => ?_
    refine (decodeAt_yields position position' _).bind fun value => ?_
    exact (unescapeAt_yields mode position position' _).bind fun value v hv => hv
  · intro v h
    split at h
    · cases h
    · exact h

end

/-- Where a piece stands decides about the span of its event, and about nothing else. -/
theorem event_inSpan {mode : Mode} {piece : Piece} {span : Span} {slice : Bytes} {e : Event}
    (h : event mode piece span slice = .ok e) (span' : Span) :
    event mode piece span' slice = .ok (e.inSpan span') := by
  revert e
  change Yields (Event.inSpan span') _ _
  obtain ⟨kind, bytes⟩ := piece
  cases kind with
  | text | reference =>
    refine (decodeAt_yields _ _ _).bind fun value => ?_
    refine (unescapeAt_yields _ _ _ _).bind fun value v hv => ?_
    cases hv
    rfl
  | characterData | comment | instruction | doctype =>
    refine (decodeAt_yields _ _ _).bind fun value v hv => ?_
    cases hv
    rfl
  | startTag =>
    refine (readTag_yields _ _ _ _).bind fun tag v hv => ?_
    dsimp only at hv ⊢
    split at hv <;> cases hv
    · rw [if_pos ‹_›]; rfl
    · rw [if_neg ‹_›]; rfl
  | emptyTag =>
    refine (readTag_yields _ _ _ _).bind fun tag v hv => ?_
    cases hv
    rfl
  | endTag =>
    refine (decodeAt_yields _ _ _).bind fun name v hv => ?_
    cases hv
    rfl

theorem span_of_event {mode : Mode} {piece : Piece} {span : Span} {slice : Bytes} {e : Event}
    (h : event mode piece span slice = .ok e) : e.span = span := by
  have he : e = e.inSpan span := Except.ok.inj (h.symm.trans (event_inSpan h span))
  rw [he, Event.span_inSpan]

end Reader
end MarkupGraft.Markup
