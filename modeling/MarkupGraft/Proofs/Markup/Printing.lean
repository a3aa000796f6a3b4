import MarkupGraft.Proofs.Markup.Tag

/-!
The markup of a token, and the reading of a single piece of such markup: a tag, a comment, an
instruction or a document type declaration is read as the token it was written from.
-/

namespace MarkupGraft.Markup
open Text (encode encode_append)

/-! Tokens as markup -/

namespace TokenForm

/-- The markup that a token is written as. -/
def markup : TokenForm → String
  | .startTag name attributes => "<" ++ name ++ attributesMarkup attributes ++ ">"
  | .emptyTag name attributes => "<" ++ name ++ attributesMarkup attributes ++ "/>"
  | .endTag name _ => "</" ++ name ++ ">"
  | .text value => escape value
  | .comment value => "<!--" ++ value ++ "-->"
  | .instruction value => "<?" ++ value ++ "?>"
  | .doctype value => "<!DOCTYPE" ++ value ++ ">"

def isText : TokenForm → Bool
  | .text _ => true
  | _ => false

/-- Whether the markup of a token is cut as it was put together. -/
def Legible : TokenForm → Prop
  | .startTag name attributes | .emptyTag name attributes =>
    IsWord name ∧ ∀ a ∈ attributes, IsWord a.key
  | .endTag name _ => IsWord name
  | .text _ => True
  | form@(.comment _) =>
    Piece.measureMarkup (encode form.markup) = .ok (.comment, (encode form.markup).length)
  | form@(.instruction _) =>
    Piece.measureMarkup (encode form.markup) = .ok (.instruction, (encode form.markup).length)
  | form@(.doctype _) =>
    Piece.measureMarkup (encode form.markup) = .ok (.doctype, (encode form.markup).length)

/-- Whether the markup of a token is read back in a mode. XML admits no key twice, and in HTML no
void element has a start tag of its own. -/
def LegibleIn (mode : Mode) (form : TokenForm) : Prop :=
  form.Legible ∧ match mode, form with
    | .xml, .startTag _ attributes | .xml, .emptyTag _ attributes => (attributes.map (·.key)).Nodup
    | .html, .startTag name _ => ¬isVoidElement name
    | _, _ => True

/-- A token as it is cut, before it is known what an end tag closes. -/
def uncounted : TokenForm → TokenForm
  | .endTag name _ => .endTag name 0
  | form => form

end TokenForm

namespace Reader

/-- A piece behind no byte-order mark is handed out as the event it makes. -/
theorem next?_of_read? {r : Reader} (ha : r.ahead = 0) {piece : Piece} {rest : Bytes} {e : Event}
    (hread : Piece.read? r.mode r.source = .ok (some (piece, rest)))
    (he : event r.mode piece ⟨r.offset, r.offset + piece.bytes.length⟩ piece.bytes = .ok e) :
    r.next? = .ok (some (e, { r with offset := r.offset + piece.bytes.length, source := rest })) := by
  obtain ⟨happend, -⟩ := Piece.append_of_read? hread
  have htake : r.source.take piece.bytes.length = piece.bytes := by rw [← happend, List.take_left]
  have hdrop : r.source.drop piece.bytes.length = rest := by rw [← happend, List.drop_left]
  simp only [next?, ha, List.drop_zero, hread, htake, hdrop, he, Except.map]

private theorem cut_middle (front : Bytes) {bytes middle back : Bytes}
    (h : bytes = front ++ (middle ++ back)) :
    (bytes.take (bytes.length - back.length)).drop front.length = middle := by
  have hlength : bytes.length - back.length = (front ++ middle).length := by
    simp only [h, List.length_append]
    omega
  rw [hlength, h, ← List.append_assoc, List.take_left, List.drop_left]

end Reader

namespace TokenForm

variable {mode : Mode}

/-- A token is read from its markup, whatever follows. -/
def ReadAs (mode : Mode) (form : TokenForm) (kind : PieceKind) : Prop :=
  (∀ rest, Piece.read? mode (encode form.markup ++ rest) =
      .ok (some (⟨kind, encode form.markup⟩, rest))) ∧
    ∀ span, Reader.event mode ⟨kind, encode form.markup⟩ span (encode form.markup) =
      .ok (.token ⟨form.uncounted, span⟩)

private theorem read?_tag {inside start : Bytes} {final first : UInt8} {others : Bytes}
    (hinside : inside = first :: others) (hfirst : first ≠ 0x21 ∧ first ≠ 0x3F ∧ first ≠ 0x2F)
    (hu : Unquoted inside) (hfinal : inside = start ++ [final]) (rest : Bytes) :
    Piece.read? mode ((0x3C :: (inside ++ [0x3E])) ++ rest) =
      .ok (some (⟨if final = 0x2F then .emptyTag else .startTag, 0x3C :: (inside ++ [0x3E])⟩,
        rest)) := by
  refine Piece.read?_of_measure (by simp) ?_
  have hsource : (0x3C :: (inside ++ [0x3E])) ++ rest = 0x3C :: first :: (others ++ 0x3E :: rest) := by
    simp [hinside]
  rw [Piece.measure_markup _ rfl, hsource, Piece.measureMarkup_tag ⟨hfirst.1, hfirst.2.1⟩,
    ← List.cons_append, ← hinside, Piece.measureTag_inside _ hu hfinal]
  · simp
  · simp [hinside, hfirst.2.2]

private theorem exists_first {name : String} (h : IsWord name) :
    ∃ first others, encode name = first :: others ∧
      first ≠ 0x21 ∧ first ≠ 0x3F ∧ first ≠ 0x2F := by
  cases hname : encode name with
  | nil => exact absurd hname (Text.encode_ne_nil h.1)
  | cons first others =>
    have := h.not_mem_tagMarkBytes first (hname ▸ List.mem_cons_self)
    refine ⟨first, others, rfl, ?_, ?_, ?_⟩ <;> rintro rfl <;> exact this (by decide)

/-- No slash ends the inside of a start tag. -/
private theorem exists_last {name : String} (h : IsWord name) (as : List Attribute) :
    ∃ start final, tagInside name as = start ++ [final] ∧ final ≠ 0x2F := by
  have hname : ∃ start final, encode name = start ++ [final] ∧ final ≠ 0x2F := by
    refine ⟨_, _, (List.dropLast_concat_getLast (Text.encode_ne_nil h.1)).symm, ?_⟩
    intro he
    exact h.not_mem_tagMarkBytes _ (List.getLast_mem _) (by rw [he]; decide)
  rw [tagInside]
  generalize encode name = inside at hname
  induction as generalizing inside with
  | nil => simpa using hname
  | cons a as ih =>
    rw [List.flatMap_cons, ← List.append_assoc]
    refine ih _ ⟨inside ++ 0x20 :: (encode a.key ++ 0x3D :: 0x22 :: encode (escape a.value)), 0x22,
      ?_, by decide⟩
    simp [Attribute.bytes]

theorem encode_startTag (name : String) (as : List Attribute) :
    encode (markup (.startTag name as)) = 0x3C :: (tagInside name as ++ [0x3E]) := by
  have hopen : encode "<" = [0x3C] := by decide
  have hclose : encode ">" = [0x3E] := by decide
  simp [markup, tagInside, hopen, hclose, encode_attributesMarkup]

theorem encode_emptyTag (name : String) (as : List Attribute) :
    encode (markup (.emptyTag name as)) = 0x3C :: ((tagInside name as ++ [0x2F]) ++ [0x3E]) := by
  have hopen : encode "<" = [0x3C] := by decide
  have hclose : encode "/>" = [0x2F, 0x3E] := by decide
  simp [markup, tagInside, hopen, hclose, encode_attributesMarkup]

theorem encode_endTag (name : String) (closes : Nat) :
    encode (markup (.endTag name closes)) = 0x3C :: 0x2F :: (encode name ++ [0x3E]) := by
  have hopen : encode "</" = [0x3C, 0x2F] := by decide
  have hclose : encode ">" = [0x3E] := by decide
  simp [markup, hopen, hclose]

section
variable {name : String} {as : List Attribute}

private theorem nodup_of_legibleIn {form : TokenForm}
    (hf : form = .startTag name as ∨ form = .emptyTag name as) (hl : form.LegibleIn mode)
    (hm : mode = .xml) : (as.map (·.key)).Nodup := by
  subst hm
  rcases hf with rfl | rfl <;> exact hl.2

private theorem readAs_startTag (hl : LegibleIn mode (.startTag name as)) :
    ReadAs mode (.startTag name as) .startTag := by
  have hd := nodup_of_legibleIn (.inl rfl) hl
  obtain ⟨⟨hn, ha⟩, hmode⟩ := hl
  obtain ⟨first, others, hfirst, hne⟩ := exists_first hn
  obtain ⟨start, final, hlast, hfinal⟩ := exists_last hn as
  constructor
  · intro rest
    have hinside : tagInside name as = first :: (others ++ as.flatMap Attribute.bytes) := by
      rw [tagInside, hfirst, List.cons_append]
    have := @read?_tag mode _ _ _ _ _ hinside hne (unquoted_tagInside hn ha) hlast rest
    rw [if_neg hfinal] at this
    rw [encode_startTag, this]
  · intro span
    have hinside := Reader.cut_middle [0x3C] (encode_startTag name as)
    simp only [List.length_singleton] at hinside
    have hvoid : ¬(mode = .html ∧ isVoidElement name) := by
      rintro ⟨rfl, h⟩
      exact hmode h
    simp only [Reader.event, hinside, Reader.readTag_tagInside hn ha hd, bind, Except.bind,
      uncounted, if_neg hvoid]
    rfl

private theorem readAs_emptyTag (hl : LegibleIn mode (.emptyTag name as)) :
    ReadAs mode (.emptyTag name as) .emptyTag := by
  have hd := nodup_of_legibleIn (.inr rfl) hl
  obtain ⟨⟨hn, ha⟩, -⟩ := hl
  obtain ⟨first, others, hfirst, hne⟩ := exists_first hn
  constructor
  · intro rest
    have hinside : tagInside name as ++ [0x2F] =
        first :: (others ++ as.flatMap Attribute.bytes ++ [0x2F]) := by
      rw [tagInside, hfirst, List.cons_append, List.cons_append]
    have := @read?_tag mode _ _ _ _ _ hinside hne
      ((unquoted_tagInside hn ha).append (unquoted_plain (by simp))) rfl rest
    rw [if_pos rfl] at this
    rw [encode_emptyTag, this]
  · intro span
    have hmarkup : encode (markup (.emptyTag name as)) =
        [0x3C] ++ (tagInside name as ++ [0x2F, 0x3E]) := by
      rw [encode_emptyTag, List.append_assoc]
      rfl
    have hinside := Reader.cut_middle _ hmarkup
    simp only [List.length_cons, List.length_nil] at hinside
    simp only [Reader.event, hinside, Reader.readTag_tagInside hn ha hd, bind, Except.bind,
      uncounted]
    rfl

private theorem readAs_endTag {closes : Nat} (hl : Legible (.endTag name closes)) :
    ReadAs mode (.endTag name closes) .endTag := by
  constructor
  · intro rest
    rw [encode_endTag]
    refine Piece.read?_of_measure (by simp) ?_
    have hsource : (0x3C :: 0x2F :: (encode name ++ [0x3E])) ++ rest =
        0x3C :: 0x2F :: (encode name ++ 0x3E :: rest) := by simp
    rw [Piece.measure_markup _ rfl, hsource, Piece.measureMarkup_tag (by decide),
      Piece.measureTag_end (IsWord.unquoted hl)]
    simp
  · intro span
    have hinside := Reader.cut_middle [0x3C, 0x2F] (encode_endTag name closes)
    simp only [List.length_cons, List.length_nil] at hinside
    simp only [Reader.event, hinside, Reader.endTagName_encode hl, Reader.decodeAt_encode, bind,
      Except.bind, uncounted]
    rfl

end

section
variable {value : String}

private theorem read?_leaf {kind : PieceKind} (hk : Piece.isLeaf kind) {bytes : Bytes}
    (hhead : bytes.head? = some 0x3C)
    (h : Piece.measureMarkup bytes = .ok (kind, bytes.length)) (rest : Bytes) :
    Piece.read? mode (bytes ++ rest) = .ok (some (⟨kind, bytes⟩, rest)) := by
  have hne : bytes ≠ [] := by
    rintro rfl
    cases hhead
  refine Piece.read?_of_measure hne ?_
  rw [Piece.measure_markup _ (by rw [List.head?_append, hhead]; rfl),
    Piece.measureMarkup_append _ hk]
  exact h

theorem encode_comment (value : String) :
    encode (markup (.comment value)) = Piece.ascii "<!--" ++ (encode value ++ Piece.ascii "-->") := by
  have hopen : encode "<!--" = Piece.ascii "<!--" := by decide
  have hclose : encode "-->" = Piece.ascii "-->" := by decide
  simp [markup, hopen, hclose]

theorem encode_instruction (value : String) :
    encode (markup (.instruction value)) = Piece.ascii "<?" ++ (encode value ++ Piece.ascii "?>") := by
  have hopen : encode "<?" = Piece.ascii "<?" := by decide
  have hclose : encode "?>" = Piece.ascii "?>" := by decide
  simp [markup, hopen, hclose]

theorem encode_doctype (value : String) :
    encode (markup (.doctype value)) =
      Piece.ascii "<!DOCTYPE" ++ (encode value ++ Piece.ascii ">") := by
  have hopen : encode "<!DOCTYPE" = Piece.ascii "<!DOCTYPE" := by decide
  have hclose : encode ">" = Piece.ascii ">" := by decide
  simp [markup, hopen, hclose]

private theorem readAs_comment (hl : Legible (.comment value)) :
    ReadAs mode (.comment value) .comment := by
  refine ⟨read?_leaf rfl (by rw [encode_comment]; rfl) hl, fun span => ?_⟩
  have hinside : ((encode (markup (.comment value))).take
      ((encode (markup (.comment value))).length - 3)).drop 4 = encode value :=
    Reader.cut_middle _ (encode_comment value)
  simp only [Reader.event, hinside, Reader.decodeAt_encode, bind, Except.bind]
  rfl

private theorem readAs_instruction (hl : Legible (.instruction value)) :
    ReadAs mode (.instruction value) .instruction := by
  refine ⟨read?_leaf rfl (by rw [encode_instruction]; rfl) hl, fun span => ?_⟩
  have hinside : ((encode (markup (.instruction value))).take
      ((encode (markup (.instruction value))).length - 2)).drop 2 = encode value :=
    Reader.cut_middle _ (encode_instruction value)
  simp only [Reader.event, hinside, Reader.decodeAt_encode, bind, Except.bind]
  rfl

private theorem readAs_doctype (hl : Legible (.doctype value)) :
    ReadAs mode (.doctype value) .doctype := by
  refine ⟨read?_leaf rfl (by rw [encode_doctype]; rfl) hl, fun span => ?_⟩
  have hinside : ((encode (markup (.doctype value))).take
      ((encode (markup (.doctype value))).length - 1)).drop 9 = encode value :=
    Reader.cut_middle _ (encode_doctype value)
  simp only [Reader.event, hinside, Reader.decodeAt_encode, bind, Except.bind]
  rfl

end

/-- Every legible token but text is one piece, which is read as that token. -/
theorem exists_readAs {form : TokenForm} (hl : form.LegibleIn mode) (ht : ¬form.isText) :
    ∃ kind, form.ReadAs mode kind := by
  cases form with
  | startTag => exact ⟨_, readAs_startTag hl⟩
  | emptyTag => exact ⟨_, readAs_emptyTag hl⟩
  | endTag => exact ⟨_, readAs_endTag hl.1⟩
  | text => exact absurd rfl ht
  | comment => exact ⟨_, readAs_comment hl.1⟩
  | instruction => exact ⟨_, readAs_instruction hl.1⟩
  | doctype => exact ⟨_, readAs_doctype hl.1⟩

end TokenForm

namespace Reader

/-- The markup of a legible token is cut off as that token. -/
theorem next?_markup {r : Reader} (ha : r.ahead = 0) {form : TokenForm}
    (hl : form.LegibleIn r.mode) (ht : ¬form.isText) {rest : Bytes}
    (hs : r.source = encode form.markup ++ rest) :
    ∃ span, r.next? = .ok (some (.token ⟨form.uncounted, span⟩,
      { r with offset := r.offset + (encode form.markup).length, source := rest })) := by
  obtain ⟨kind, hread, hevent⟩ := TokenForm.exists_readAs hl ht
  refine ⟨_, next?_of_read? ha ?_ (hevent _)⟩
  rw [hs, hread]

end Reader
end MarkupGraft.Markup
