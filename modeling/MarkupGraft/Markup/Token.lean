import MarkupGraft.Markup.Piece

/-!
Tokens, and the reader that cuts them from a byte sequence. Adjacent text, references and character
data make one text token. A byte-order mark is passed over without being counted, so behind one the
reader is ahead of its own offsets, and spans and texts are taken from where the offsets say.
-/

namespace MarkupGraft.Markup

/-- The bytes from `start` up to, not including, `stop`. -/
structure Span where
  start : Nat
  stop : Nat
  deriving DecidableEq, Repr

def Span.cut (s : Span) (bytes : Bytes) : Bytes := (bytes.take s.stop).drop s.start

/-- An attribute with its key as written and its value with references resolved. -/
structure Attribute where
  key : String
  value : String
  deriving DecidableEq, Repr

inductive TokenForm where
  | startTag (name : String) (attributes : List Attribute)
  /-- A self-closing tag, or the tag of a void element. -/
  | emptyTag (name : String) (attributes : List Attribute)
  /-- `closes` counts the open elements that the tag closes. -/
  | endTag (name : String) (closes : Nat)
  | text (value : String)
  | comment (value : String)
  | instruction (value : String)
  | doctype (value : String)
  deriving DecidableEq, Repr

structure Token where
  form : TokenForm
  span : Span
  deriving DecidableEq, Repr

/-- The name of the element that a tag opens. -/
def Token.opens? (t : Token) : Option String :=
  match t.form with
  | .startTag name _ | .emptyTag name _ => some name
  | _ => none

/-- The value of the attribute of a start or empty tag that has the given key. -/
def Token.attribute? (t : Token) (key : String) : Option String :=
  match t.form with
  | .startTag _ attributes | .emptyTag _ attributes =>
    (attributes.find? (·.key = key)).map (·.value)
  | _ => none

/-- What a piece contributes: a part of a text token, or a token of its own. -/
inductive Event where
  | characters (span : Span) (value : String)
  | token (token : Token)

structure Reader where
  mode : Mode
  offset : Nat
  /-- The input from `offset` on. -/
  source : Bytes
  /-- How far reading is ahead of `offset`. -/
  ahead : Nat

namespace Reader

def startsWithMark : Bytes → Bool
  | 0xEF :: 0xBB :: 0xBF :: _ => true
  | _ => false

/-- A reader of what begins at `offset`; it passes over a byte-order mark. -/
def startingAt (mode : Mode) (offset : Nat) (source : Bytes) : Reader :=
  ⟨mode, offset, source, if startsWithMark source then 3 else 0⟩

def decodeAt (position : Nat) (bytes : Bytes) : Except ParseError String :=
  (Text.decode bytes).mapError fun offset => .invalidText (position + offset)

def unescapeAt (mode : Mode) (position : Nat) (text : String) : Except ParseError String :=
  match mode with
  | .xml => (unescape text).mapError fun cause => .malformed position (.inReference cause)
  | .html => .ok (unescapeLeniently text)

def readAttribute (mode : Mode) (position : Nat) (a : RawAttribute) :
    Except ParseError Attribute := do
  let key ← decodeAt position a.key
  let value ← decodeAt position a.value
  pure ⟨key, ← unescapeAt mode position value⟩

/-- The name and the attributes of a tag. A mistake is reported at the tag, and after the mistakes
of the attributes before it. -/
def readTag (mode : Mode) (position : Nat) (content : Bytes) :
    Except ParseError (String × List Attribute) := do
  let name := content.takeWhile (!Text.isBlankByte ·)
  let (found, mistake?) := attributes mode content name.length
  let name ← decodeAt position name
  let attributes ← found.mapM (readAttribute mode position)
  match mistake? with
  | some cause => throw (.malformed position (.inAttribute cause))
  | none => pure (name, attributes)

/-- The name in an end tag without the blanks behind it; a name of blanks alone stays as it is. -/
def endTagName (content : Bytes) : Bytes :=
  match Text.dropEndWhile Text.isBlankByte content with
  | [] => content
  | name => name

/-- The event of a piece at `span`, where `slice` holds the bytes of the span. -/
def event (mode : Mode) (piece : Piece) (span : Span) (slice : Bytes) :
    Except ParseError Event := do
  let inside (skipped dropped : Nat) : Except ParseError String :=
    decodeAt (span.start + skipped) ((slice.take (slice.length - dropped)).drop skipped)
  let content (skipped dropped : Nat) :=
    (piece.bytes.take (piece.bytes.length - dropped)).drop skipped
  match piece.kind with
  | .text | .reference =>
    let value ← decodeAt span.start slice
    pure (.characters span (← unescapeAt mode span.start value))
  | .characterData => pure (.characters span (← inside 9 3))
  | .comment => pure (.token ⟨.comment (← inside 4 3), span⟩)
  | .instruction => pure (.token ⟨.instruction (← inside 2 2), span⟩)
  | .doctype => pure (.token ⟨.doctype (← inside 9 1), span⟩)
  | .startTag =>
    let (name, attributes) ← readTag mode span.start (content 1 1)
    if mode = .html ∧ isVoidElement name then pure (.token ⟨.emptyTag name attributes, span⟩)
    else pure (.token ⟨.startTag name attributes, span⟩)
  | .emptyTag =>
    let (name, attributes) ← readTag mode span.start (content 1 2)
    pure (.token ⟨.emptyTag name attributes, span⟩)
  | .endTag =>
    let name ← decodeAt span.start (endTagName (content 2 1))
    pure (.token ⟨.endTag name 0, span⟩)

/-- The next event and the reader behind it. -/
def next? (r : Reader) : Except ParseError (Option (Event × Reader)) :=
  match Piece.read? r.mode (r.source.drop r.ahead) with
  | .error (distance, cause) => .error (.malformed (r.offset + distance) cause)
  | .ok none => .ok none
  | .ok (some (piece, _)) =>
    let length := piece.bytes.length
    (event r.mode piece ⟨r.offset, r.offset + length⟩ (r.source.take length)).map fun e =>
      some (e, { r with offset := r.offset + length, source := r.source.drop length })

theorem length_of_next? {r rest : Reader} {e : Event} (h : r.next? = .ok (some (e, rest))) :
    rest.source.length < r.source.length := by
  unfold next? at h
  split at h
  · cases h
  · cases h
  · rename_i piece others hp
    obtain ⟨happend, hne⟩ := Piece.append_of_read? hp
    dsimp only at h
    cases he : event r.mode piece ⟨r.offset, r.offset + piece.bytes.length⟩
        (r.source.take piece.bytes.length) with
    | error => rw [he] at h; cases h
    | ok _ =>
      rw [he] at h
      cases h
      have := congrArg List.length happend
      have := List.length_pos_iff.mpr hne
      simp only [List.length_append, List.length_drop] at *
      omega

/-- Text read so far, with its span. -/
abbrev TextRun := Span × String

def extend : Option TextRun → Span → String → TextRun
  | none, span, value => (span, value)
  | some (run, read), span, value => (⟨run.start, span.stop⟩, read ++ value)

def TextRun.token (t : TextRun) : Token := ⟨.text t.2, t.1⟩

/-- Reads on through text: the text token, the token that ends it, and the reader behind both. -/
def collect (r : Reader) (run? : Option TextRun) :
    Except ParseError (Option Token × Option Token × Reader) :=
  match _h : r.next? with
  | .error e => .error e
  | .ok none => .ok (run?.map TextRun.token, none, r)
  | .ok (some (.token token, rest)) => .ok (run?.map TextRun.token, some token, rest)
  | .ok (some (.characters span value, rest)) => rest.collect (some (extend run? span value))
termination_by r.source.length
decreasing_by exact length_of_next? _h

theorem length_of_collect {r rest : Reader} {run? : Option TextRun} {text? markup? : Option Token}
    (h : r.collect run? = .ok (text?, markup?, rest)) :
    rest.source.length ≤ r.source.length ∧
      (markup?.isSome ∨ run? = none ∧ text?.isSome → rest.source.length < r.source.length) := by
  fun_induction collect r run? with
  | case1 => cases h
  | case2 r run? hn =>
    cases h
    simp only [Option.isSome_none, Bool.false_eq_true, false_or, Nat.le_refl, true_and]
    rintro ⟨rfl, h⟩
    cases h
  | case3 r run? token rest hn =>
    cases h
    have := length_of_next? hn
    exact ⟨Nat.le_of_lt this, fun _ => this⟩
  | case4 r run? span value next hn ih =>
    have := length_of_next? hn
    have := (ih h).1
    exact ⟨by omega, fun _ => by omega⟩

end Reader
end MarkupGraft.Markup
