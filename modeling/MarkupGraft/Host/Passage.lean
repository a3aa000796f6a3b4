import MarkupGraft.Markup.Tokenizer

/-!
Host documents, cut into what is copied as it stands and what is expanded. What is inside a template
or an instance is cut out with it and not looked into.
-/

namespace MarkupGraft
open Markup

/-- An element that asks for a template to be filled, with what is written inside it. -/
structure Instance where
  /-- The name of the template. -/
  template? : Option String
  /-- The path of the source, or nothing when the host is the source. -/
  source : String
  condition? : Option String
  mapping : Bytes

inductive PassageKind where
  | verbatim
  /-- A template, with the name it is to be known by. -/
  | definition (name? : Option String) (body : Bytes)
  | occurrence (content : Instance)

structure Passage where
  kind : PassageKind
  span : Span

namespace Instance

private def nonempty? (text? : Option String) : Option String := text?.filter (· ≠ "")

/-- The instance that a tag begins. -/
def ofToken (tag : Token) (mapping : Bytes) : Instance where
  template? := nonempty? (tag.attribute? "using")
  source := (tag.attribute? "src").getD ""
  condition? := nonempty? (tag.attribute? "if")
  mapping

end Instance

namespace Passage

/-- What a tag begins, if it is cut out with all that is inside it. -/
def kindOf? (tag : Token) (content : Bytes) : Option PassageKind :=
  match tag.opens? with
  | some "template" => some (.definition (tag.attribute? "id") content)
  | some "template-instance" => some (.occurrence (.ofToken tag content))
  | _ => none

/-- The next passage, given the token that it begins with and the state behind the token. -/
def read (token : Token) (t : Tokenizer) : Except ParseError (Passage × Tokenizer) :=
  if (kindOf? token []).isSome then
    (t.rawContent token).map fun (content, t) =>
      (⟨(kindOf? token content).getD .verbatim, ⟨token.span.start, t.position⟩⟩, t)
  else .ok (⟨.verbatim, token.span⟩, t)

theorem remaining_of_read {token : Token} {t rest : Tokenizer} {passage : Passage}
    (h : read token t = .ok (passage, rest)) : rest.remaining ≤ t.remaining := by
  unfold read at h
  split at h
  · cases hc : t.rawContent token with
    | error => simp [hc, Except.map] at h
    | ok v =>
      simp only [hc, Except.map, Except.ok.injEq, Prod.mk.injEq] at h
      obtain ⟨_, rfl⟩ := h
      exact Tokenizer.remaining_of_rawContent hc
  · cases h
    exact Nat.le_refl _

/-- The passages up to the end or the first error, and that error. -/
def all (t : Tokenizer) : List Passage × Option ParseError :=
  match _h : t.next with
  | .error e => ([], some e)
  | .ok none => ([], none)
  | .ok (some (token, behind)) =>
    match _hr : read token behind with
    | .error e => ([], some e)
    | .ok (passage, rest) =>
      let (passages, error?) := all rest
      (passage :: passages, error?)
termination_by t.remaining
decreasing_by
  exact Nat.lt_of_le_of_lt (remaining_of_read _hr) (Tokenizer.remaining_of_next _h)

/-- The content of the first template in what is left to read. -/
def firstTemplate? (t : Tokenizer) : Except ParseError (Option Bytes) :=
  match _h : t.next with
  | .error e => .error e
  | .ok none => .ok none
  | .ok (some (token, rest)) =>
    match token.form with
    | .startTag "template" _ => (rest.rawContent token).map fun (content, _) => some content
    | _ => firstTemplate? rest
termination_by t.remaining
decreasing_by exact Tokenizer.remaining_of_next _h

end Passage

/-- The passages of a host document. Hosts are read leniently. -/
def passages (host : Bytes) : List Passage × Option ParseError :=
  Passage.all (.ofBytes .html host)

/-- The template that is written inside an instance. -/
def Instance.ownTemplate? (i : Instance) : Except ParseError (Option Bytes) :=
  Passage.firstTemplate? (.ofBytes .html i.mapping)

end MarkupGraft
