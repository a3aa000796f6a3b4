import MarkupGraft.Proofs.Markup.Tokens

/-!
Escaped text that is read leniently in pieces. A text that does not end inside a reference is read by
itself as it is read in front of more text, so a text may be cut wherever no reference is open, and
its pieces be read one by one.
-/

namespace MarkupGraft.Markup
open Text (encode)

/-- Whether a text ends inside a reference: behind its last ampersand there is no semicolon. -/
def endsInReference : List Char → Bool
  | [] => false
  | c :: text => (c = '&' && !text.contains ';') || endsInReference text

theorem endsInReference_append {front back : List Char} (h : endsInReference back) :
    endsInReference (front ++ back) := by
  induction front with
  | nil => exact h
  | cons c front ih => rw [List.cons_append, endsInReference, ih, Bool.or_true]

/-- In front of a semicolon a name is cut off as it is when more text follows. -/
private theorem exists_name {text : List Char} (h : ';' ∈ text) (more : List Char) :
    (text ++ more).takeWhile isReferenceCharacter = text.takeWhile isReferenceCharacter ∧
      ∃ c rest, text.dropWhile isReferenceCharacter = c :: rest ∧
        (text ++ more).dropWhile isReferenceCharacter = c :: (rest ++ more) := by
  induction text with
  | nil => cases h
  | cons c text ih =>
    rw [List.cons_append]
    by_cases hc : isReferenceCharacter c
    · have hrest : ';' ∈ text := (List.mem_cons.mp h).resolve_left (by rintro rfl; cases hc)
      obtain ⟨htake, hdrop⟩ := ih hrest
      simp only [List.takeWhile_cons_of_pos hc, List.dropWhile_cons_of_pos hc, htake]
      exact ⟨trivial, hdrop⟩
    · simp only [List.takeWhile_cons_of_neg hc, List.dropWhile_cons_of_neg hc]
      exact ⟨trivial, c, text, rfl, rfl⟩

/-- What is read of a text that does not end inside a reference does not depend on what follows. -/
theorem resolveLeniently_append {text : List Char} (h : ¬endsInReference text) (more : List Char) :
    resolveLeniently (text ++ more) = resolveLeniently text ++ resolveLeniently more := by
  fun_induction resolveLeniently text with
  | case1 => rfl
  | case2 text name rest value hdrop hvalue ih =>
    have hname : ∀ n ∈ name, isReferenceCharacter n := fun n hn =>
      List.all_eq_true.mp List.all_takeWhile n hn
    have htext : text = name ++ ';' :: rest := by
      rw [← hdrop]
      exact List.takeWhile_append_dropWhile.symm
    have hrest : ¬endsInReference rest := fun hends => h <| by
      have hsplit : '&' :: text = ('&' :: name ++ [';']) ++ rest := by simp [htext]
      rw [hsplit]
      exact endsInReference_append hends
    have hmore : '&' :: text ++ more = '&' :: (name ++ ';' :: (rest ++ more)) := by simp [htext]
    rw [hmore, resolveLeniently_reference _ hname hvalue, ih hrest, List.append_assoc]
  | case3 text name hno ih =>
    obtain ⟨hsemicolon, htext⟩ : ';' ∈ text ∧ ¬endsInReference text := by
      simpa [endsInReference] using h
    obtain ⟨htake, c, rest, hdrop, hdrop'⟩ := exists_name hsemicolon more
    rw [List.cons_append, resolveLeniently, if_pos rfl]
    simp only [htake]
    split
    · rename_i hc hvalue
      obtain ⟨rfl, -⟩ := List.cons.inj (hdrop'.symm.trans hc)
      exact (hno _ _ hdrop hvalue).elim
    · rw [ih htext, List.cons_append]
  | case4 c text hc ih =>
    have htext : ¬endsInReference text := by simpa [endsInReference, hc] using h
    rw [List.cons_append, resolveLeniently, if_neg hc, ih htext, List.cons_append]

/-- Pieces that do not end inside a reference may be read one by one. -/
theorem unescapeLeniently_join {pieces : List String}
    (h : ∀ piece ∈ pieces, ¬endsInReference piece.toList) :
    unescapeLeniently (String.join pieces) = String.join (pieces.map unescapeLeniently) := by
  induction pieces with
  | nil => rw [String.join_nil, unescapeLeniently, String.toList_empty, resolveLeniently]; rfl
  | cons piece pieces ih =>
    obtain ⟨hpiece, hpieces⟩ := List.forall_mem_cons.mp h
    rw [String.join_cons, List.map_cons, String.join_cons, ← ih hpieces]
    simp only [unescapeLeniently, String.toList_append, resolveLeniently_append hpiece,
      String.ofList_append]

/-- A reader behind no byte-order mark collects an escaped text piece by piece. -/
theorem Reader.exists_collect_escape {r : Reader} (ha : r.ahead = 0) {text : String}
    (hne : text ≠ "") {rest : Bytes} (hrest : EndsText rest)
    (hs : r.source = encode (escape text) ++ rest) :
    ∃ (next : Reader) (span : Span), r.collect none = next.collect (some (span, text)) ∧
      next.source = rest := by
  rw [← String.ofList_toList (s := text)] at hs
  obtain ⟨next, read?, -, -, hnext, hcollect, htext⟩ := Reader.collect_escape hrest ha hs none
  rw [if_neg (by simpa using hne)] at htext
  obtain ⟨⟨span, read⟩, rfl, hread⟩ := Option.map_eq_some_iff.mp htext
  obtain rfl : read = text := by simpa [Reader.textBefore] using hread
  exact ⟨next, span, hcollect, hnext⟩

/-- Reading leniently what has been escaped gives the text back, at once or in pieces, however it is
cut outside references. So does reading it from bytes, where the runs of plain text and the references
are the pieces. -/
theorem unescapeLeniently_pieces (text : String) :
    unescapeLeniently (escape text) = text ∧
      (∀ pieces : List String, String.join pieces = escape text →
        (∀ piece ∈ pieces, ¬endsInReference piece.toList) →
          String.join (pieces.map unescapeLeniently) = text) ∧
      ∀ (r : Reader) (rest : Bytes), text ≠ "" → r.ahead = 0 →
        r.source = encode (escape text) ++ rest → EndsText rest →
          ∃ (next : Reader) (span : Span), r.collect none = next.collect (some (span, text)) ∧
      next.source = rest := by
  refine ⟨unescapeLeniently_escape text, fun pieces hjoin hpieces => ?_,
    fun r rest hne ha hs hrest => Reader.exists_collect_escape ha hne hrest hs⟩
  rw [← unescapeLeniently_join hpieces, hjoin, unescapeLeniently_escape]

/-- What looks like a reference in the text is neither read twice nor passed over. -/
theorem unescapeLeniently_pieces_ampersands :
    let r : Reader := ⟨.xml, 0, encode "&amp;lt;&lt;&amp;;", 0⟩
    escape "&lt;<&;" = "&amp;lt;&lt;&amp;;" ∧
      String.join (["&amp;", "lt;", "&lt;&amp;", ";"].map unescapeLeniently) = "&lt;<&;" ∧
      ∃ (next : Reader) (span : Span), r.collect none = next.collect (some (span, "&lt;<&;")) ∧
        next.source = [] := by
  intro r
  have hescape : escape "&lt;<&;" = "&amp;lt;&lt;&amp;;" := by decide
  obtain ⟨-, hpieces, hread⟩ := unescapeLeniently_pieces "&lt;<&;"
  refine ⟨hescape, hpieces _ (hescape ▸ by decide) (by decide), ?_⟩
  exact hread r [] (by decide) rfl (by rw [hescape, List.append_nil]) (by simp [EndsText])

end MarkupGraft.Markup
