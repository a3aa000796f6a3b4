import MarkupGraft.Proofs.Markup.RawText
import MarkupGraft.Proofs.Markup.Run

/-!
What is read can be written. The values of the comments, instructions and document type declarations
that come out of any input without a byte-order mark are read back from the markup they are written
as.
-/

namespace MarkupGraft.Markup
open Text (encode)

namespace Piece

private theorem isLeaf_measure {mode : Mode} {bytes : Bytes} {kind : PieceKind} {n : Nat}
    (hk : isLeaf kind) (h : measure mode bytes = .ok (kind, n)) :
    bytes.head? = some 0x3C ∧ measureMarkup bytes = .ok (kind, n) := by
  unfold measure at h
  split at h
  · rename_i hh
    exact ⟨hh, h⟩
  · simp only [measureReference] at h
    split at h <;> cases h <;> cases hk
  · cases h
    cases hk

private theorem length_of_measureMarkup {bytes : Bytes} {kind : PieceKind} {n : Nat}
    (hk : isLeaf kind) (h : measureMarkup bytes = .ok (kind, n)) : 0 < n ∧ n ≤ bytes.length := by
  cases kind with
  | comment =>
    have := lengthThrough?_le (by decide) (measureMarkup_comment_iff.mp h).2
    omega
  | instruction =>
    have := lengthThrough?_le (by decide) (measureMarkup_instruction_iff.mp h).2.1
    omega
  | doctype =>
    obtain ⟨mark, rest, m, rfl, hmark, rfl, hm, -⟩ := measureMarkup_doctype_iff.mp h
    have := doctypeLength?_take hm
    rw [List.length_append, hmark.length]
    omega
  | _ => cases hk

/-- A leaf that has been cut off is measured on its own. -/
theorem measureMarkup_of_read? {mode : Mode} {bytes rest : Bytes} {piece : Piece}
    (hk : isLeaf piece.kind) (h : read? mode bytes = .ok (some (piece, rest))) :
    piece.bytes.head? = some 0x3C ∧
      measureMarkup piece.bytes = .ok (piece.kind, piece.bytes.length) := by
  cases bytes with
  | nil => cases h
  | cons b bytes =>
    cases hm : measure mode (b :: bytes) with
    | error => rw [read?, hm] at h; cases h
    | ok m =>
      obtain ⟨kind, n⟩ := m
      rw [read?, hm] at h
      cases h
      obtain ⟨hhead, hmarkup⟩ := isLeaf_measure hk hm
      obtain ⟨hpos, hle⟩ := length_of_measureMarkup hk hmarkup
      rw [List.length_cons] at hle
      have hlength : (b :: bytes.take (n - 1)).length = n := by
        rw [List.length_cons, List.length_take]
        omega
      refine ⟨hhead, ?_⟩
      rw [← measureMarkup_append (bytes.drop (n - 1)) hk, hlength, List.cons_append,
        List.take_append_drop]
      exact hmarkup

end Piece

namespace Reader
open Piece (measureMarkup)

private theorem encode_of_decodeAt {position : Nat} {bytes : Bytes} {text : String}
    (h : decodeAt position bytes = .ok text) : encode text = bytes := by
  unfold decodeAt at h
  cases hd : Text.decode bytes with
  | error => rw [hd] at h; cases h
  | ok read =>
    rw [hd] at h
    cases h
    exact Text.encode_of_decode hd

/-- A sequence between an opening and a closing mark. -/
private theorem eq_framed {bytes front back : Bytes} (hf : front <+: bytes)
    (hb : bytes = bytes.take (bytes.length - back.length) ++ back)
    (hle : front.length + back.length ≤ bytes.length) :
    front ++ ((bytes.take (bytes.length - back.length)).drop front.length ++ back) = bytes := by
  have hstart : front <+: bytes.take (bytes.length - back.length) := by
    refine List.prefix_of_prefix_length_le hf (List.take_prefix _ _) ?_
    rw [List.length_take]
    omega
  have hfront := List.prefix_iff_eq_take.mp hstart
  have hsplit := List.take_append_drop front.length (bytes.take (bytes.length - back.length))
  rw [← hfront] at hsplit
  rw [← List.append_assoc, hsplit]
  exact hb.symm

section
variable {bytes : Bytes} {value : String}

private theorem legible_comment (hm : measureMarkup bytes = .ok (.comment, bytes.length))
    (hv : encode value = (bytes.take (bytes.length - 3)).drop 4) :
    TokenForm.Legible (.comment value) := by
  obtain ⟨hopen, hclose⟩ := Piece.measureMarkup_comment_iff.mp hm
  have hle := (Piece.lengthThrough?_le (by decide) hclose).1
  have hend := Piece.lengthThrough?_take hclose
  rw [List.take_length] at hend
  have hbytes : encode (TokenForm.markup (.comment value)) = bytes := by
    rw [TokenForm.encode_comment, hv]
    exact eq_framed hopen hend hle
  rw [TokenForm.Legible, hbytes]
  exact hm

private theorem legible_instruction (hm : measureMarkup bytes = .ok (.instruction, bytes.length))
    (hhead : bytes.head? = some 0x3C)
    (hv : encode value = (bytes.take (bytes.length - 2)).drop 2) :
    TokenForm.Legible (.instruction value) := by
  obtain ⟨hsecond, hclose, hne⟩ := Piece.measureMarkup_instruction_iff.mp hm
  have hle : 1 + 2 ≤ bytes.length := (Piece.lengthThrough?_le (by decide) hclose).1
  have hend := Piece.lengthThrough?_take hclose
  rw [List.take_length] at hend
  have hopen : Piece.ascii "<?" <+: bytes := by
    match bytes, hhead, hsecond with
    | a :: b :: rest, hhead, hsecond =>
      cases hhead
      cases hsecond
      exact ⟨rest, rfl⟩
  have hbytes : encode (TokenForm.markup (.instruction value)) = bytes := by
    rw [TokenForm.encode_instruction, hv]
    exact eq_framed hopen hend (show 2 + 2 ≤ bytes.length by omega)
  rw [TokenForm.Legible, hbytes]
  exact hm

private theorem legible_doctype (hm : measureMarkup bytes = .ok (.doctype, bytes.length))
    (hv : encode value = (bytes.take (bytes.length - 1)).drop 9) :
    TokenForm.Legible (.doctype value) := by
  obtain ⟨mark, inner, m, rfl, hmark, hn, hm, hall⟩ := Piece.measureMarkup_doctype_iff.mp hm
  obtain ⟨hpos, -, hend⟩ := Piece.doctypeLength?_take hm
  have hinner : m = inner.length := by
    rw [List.length_append, hmark.length] at hn
    omega
  have hvalue : encode value = inner.take (m - 1) := by
    rw [hv, hn, List.drop_take, ← hmark.length, List.drop_left]
    congr 1
    omega
  have hbytes : encode (TokenForm.markup (.doctype value)) = Piece.ascii "<!DOCTYPE" ++ inner := by
    rw [TokenForm.encode_doctype, hvalue]
    rw [hinner, List.take_length] at hend
    exact congrArg (Piece.ascii "<!DOCTYPE" ++ ·) (hinner ▸ hend.symm)
  rw [TokenForm.Legible, hbytes, Piece.measureMarkup_doctype_iff]
  refine ⟨_, inner, m, rfl, Piece.isDoctypeMark_ascii, ?_, hm, hall⟩
  rw [List.length_append, Piece.isDoctypeMark_ascii.length, hinner, Nat.add_comm]

end

private theorem exists_of_event {read : Except ParseError String} {form : String → TokenForm}
    {span : Span} {token : Token}
    (h : (do pure (Event.token ⟨form (← read), span⟩)) = Except.ok (Event.token token)) :
    ∃ value, read = .ok value ∧ token.form = form value := by
  cases read with
  | error => cases h
  | ok value =>
    cases h
    exact ⟨value, rfl, rfl⟩

/-- The token of a leaf is legible. -/
theorem legible_of_event {mode : Mode} {piece : Piece} {span : Span} {token : Token}
    (hhead : piece.bytes.head? = some 0x3C)
    (hm : measureMarkup piece.bytes = .ok (piece.kind, piece.bytes.length))
    (hk : Piece.isLeaf piece.kind)
    (he : event mode piece span piece.bytes = .ok (.token token)) : token.form.Legible := by
  obtain ⟨kind, bytes⟩ := piece
  cases kind with
  | comment =>
    obtain ⟨value, hread, hform⟩ := exists_of_event he
    rw [hform]
    exact legible_comment hm (encode_of_decodeAt hread)
  | instruction =>
    obtain ⟨value, hread, hform⟩ := exists_of_event he
    rw [hform]
    exact legible_instruction hm hhead (encode_of_decodeAt hread)
  | doctype =>
    obtain ⟨value, hread, hform⟩ := exists_of_event he
    rw [hform]
    exact legible_doctype hm (encode_of_decodeAt hread)
  | _ => cases hk

end Reader

namespace TokenForm

/-- Whether a token has a value of its own that is not text. -/
def isLeaf : TokenForm → Bool
  | .comment _ | .instruction _ | .doctype _ => true
  | _ => false

end TokenForm

namespace Reader

private theorem isLeaf_of_event {mode : Mode} {piece : Piece} {span : Span} {slice : Bytes}
    {token : Token} (h : event mode piece span slice = .ok (.token token))
    (hl : token.form.isLeaf) : Piece.isLeaf piece.kind := by
  obtain ⟨kind, bytes⟩ := piece
  cases kind with
  | comment | instruction | doctype => rfl
  | text | reference =>
    simp only [event, bind, Except.bind, pure, Except.pure] at h
    split at h
    · cases h
    · split at h <;> cases h
  | characterData =>
    simp only [event, bind, Except.bind, pure, Except.pure] at h
    split at h <;> cases h
  | startTag =>
    simp only [event, bind, Except.bind, pure, Except.pure] at h
    split at h
    · cases h
    · split at h <;> cases h <;> cases hl
  | emptyTag | endTag =>
    simp only [event, bind, Except.bind, pure, Except.pure] at h
    split at h
    · cases h
    · cases h
      cases hl

/-- Every leaf that is cut off behind no byte-order mark is legible. -/
private theorem legible_of_next? {r rest : Reader} {token : Token} (ha : r.ahead = 0)
    (h : r.next? = .ok (some (.token token, rest))) (hl : token.form.isLeaf) :
    token.form.Legible := by
  obtain ⟨piece, others, hread, he, -⟩ := next?_cases h
  rw [ha, List.drop_zero] at hread
  have hk := isLeaf_of_event he hl
  obtain ⟨hhead, hm⟩ := Piece.measureMarkup_of_read? hk hread
  obtain ⟨happend, -⟩ := Piece.append_of_read? hread
  rw [← happend, List.take_left] at he
  exact legible_of_event hhead hm hk he

theorem legible_of_collect {r rest : Reader} {run? : Option TextRun} {text? markup? : Option Token}
    (ha : r.ahead = 0) (h : r.collect run? = .ok (text?, markup?, rest)) :
    rest.ahead = 0 ∧ (∀ t ∈ text?, t.form.isText) ∧
      ∀ t ∈ markup?, t.form.isLeaf → t.form.Legible := by
  fun_induction collect r run? with
  | case1 => cases h
  | case2 r run? hn =>
    cases h
    refine ⟨ha, ?_, by simp⟩
    intro t ht
    obtain ⟨run, -, rfl⟩ := Option.map_eq_some_iff.mp ht
    rfl
  | case3 r run? token rest hn =>
    cases h
    obtain ⟨piece, others, -, -, rfl⟩ := next?_cases hn
    refine ⟨ha, ?_, ?_⟩
    · intro t ht
      obtain ⟨run, -, rfl⟩ := Option.map_eq_some_iff.mp ht
      rfl
    · rintro t ⟨⟩ hl
      exact legible_of_next? ha hn hl
  | case4 r run? span value next hn ih =>
    obtain ⟨piece, others, -, -, rfl⟩ := next?_cases hn
    exact ih ha h

end Reader

namespace Tokenizer

/-- The reader is not ahead, and a token already read is legible. -/
structure Faithful (t : Tokenizer) : Prop where
  ahead : t.reader.ahead = 0
  pending : ∀ token ∈ t.pending?, token.form.isLeaf → token.form.Legible

private theorem isLeaf_of_isText {form : TokenForm} (h : form.isText) : ¬form.isLeaf := by
  cases form <;> simp_all [TokenForm.isText, TokenForm.isLeaf]

private theorem faithful_take? {t rest : Tokenizer} {token? : Option Token} (hf : t.Faithful)
    (h : t.take? = .ok (token?, rest)) :
    rest.Faithful ∧ ∀ token ∈ token?, token.form.isLeaf → token.form.Legible := by
  rcases take?_cases h with ⟨token, hp, rfl, rfl⟩ | ⟨-, text?, markup?, reader, hc, rfl, rfl⟩
  · exact ⟨⟨hf.ahead, by simp⟩, fun other ho => hf.pending other (hp.trans ho)⟩
  · obtain ⟨ha, htext, hmarkup⟩ := Reader.legible_of_collect hf.ahead hc
    cases text? with
    | none => exact ⟨⟨ha, by simp⟩, hmarkup⟩
    | some text =>
      refine ⟨⟨ha, hmarkup⟩, ?_⟩
      rintro token ⟨⟩ hl
      exact absurd hl (isLeaf_of_isText (htext _ rfl))

private theorem faithful_handOut {t rest : Tokenizer} {token handed : Token} (hf : t.Faithful)
    (hl : token.form.isLeaf → token.form.Legible)
    (h : t.handOut token = .ok (handed, rest)) :
    rest.Faithful ∧ (handed.form.isLeaf → handed.form.Legible) := by
  rcases handOut_cases h with ⟨name, attributes, -, rfl, rfl⟩ |
    ⟨name, counted, closes, openElements, -, -, rfl, rfl⟩ | ⟨-, rfl, rfl⟩
  · refine ⟨?_, hl⟩
    split
    · refine ⟨if_neg (startsWithMark_splitRawText name t.reader.source), ?_⟩
      intro pending hp
      simp only [queueRawText] at hp
      split at hp
      · cases hp
      · cases hp
        simp [TokenForm.isLeaf]
    · exact ⟨hf.ahead, hf.pending⟩
  · exact ⟨⟨hf.ahead, hf.pending⟩, by simp [TokenForm.isLeaf]⟩
  · exact ⟨⟨hf.ahead, hf.pending⟩, hl⟩

private theorem faithful_next {t rest : Tokenizer} {token : Token} (hf : t.Faithful)
    (h : t.next = .ok (some (token, rest))) :
    rest.Faithful ∧ (token.form.isLeaf → token.form.Legible) := by
  obtain ⟨taken, u, ht, hh⟩ := next_eq_some_iff.mp h
  obtain ⟨hu, htaken⟩ := faithful_take? hf ht
  exact faithful_handOut hu (htaken taken rfl) hh

/-- Every leaf handed out is legible. -/
theorem legible_of_run {t last : Tokenizer} {depth : Nat} {tokens : List Token}
    (hr : t.Run depth tokens last) (hf : t.Faithful) :
    ∀ token ∈ tokens, token.form.isLeaf → token.form.Legible := by
  induction hr with
  | done t => simp
  | step hn _ _ ih =>
    obtain ⟨hrest, hl⟩ := faithful_next hf hn
    exact List.forall_mem_cons.mpr ⟨hl, ih hrest⟩

end Tokenizer

/-- The comments, instructions and document type declarations of any input without a byte-order mark
are legible. -/
theorem legible_of_tokenize {mode : Mode} {input : Bytes} {tokens : List Token}
    (hm : ¬Reader.startsWithMark input) (h : tokenize mode input = .ok tokens) :
    ∀ token ∈ tokens, token.form.isLeaf → token.form.Legible := by
  obtain ⟨last, hr, -⟩ := tokenize_eq_ok_iff.mp h
  exact Tokenizer.legible_of_run hr ⟨if_neg hm, by simp [Tokenizer.ofBytes]⟩

end MarkupGraft.Markup
