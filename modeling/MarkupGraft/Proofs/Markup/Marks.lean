import MarkupGraft.Proofs.Markup.Truncation
import MarkupGraft.Proofs.Text.Invalid

/-!
The marks of a piece are ASCII bytes, so the sequences inside it are read apart from the marks, and
those of the whole piece apart from what follows it.
-/

namespace MarkupGraft.Markup
open Text (IsAscii Separate)

namespace Piece

/-- The lengths of the opening and the closing mark. -/
def marks : PieceKind → Nat × Nat
  | .text | .reference => (0, 0)
  | .characterData => (9, 3)
  | .comment => (4, 3)
  | .instruction => (2, 2)
  | .doctype => (9, 1)
  | .startTag => (1, 1)
  | .emptyTag => (1, 2)
  | .endTag => (2, 1)

/-- What stands between the marks. -/
def inside (piece : Piece) : Bytes :=
  (piece.bytes.take (piece.bytes.length - (marks piece.kind).2)).drop (marks piece.kind).1

/-- Whether the marks are ASCII bytes. -/
structure Marked (kind : PieceKind) (bytes : Bytes) : Prop where
  opening : IsAscii (bytes.take (marks kind).1)
  closing : IsAscii (bytes.drop (bytes.length - (marks kind).2))

theorem isAscii_of_isPrefix {mark bytes : Bytes} {n : Nat} (hm : IsAscii mark) (hp : mark <+: bytes)
    (hn : n ≤ mark.length) : IsAscii (bytes.take n) := by
  obtain ⟨rest, rfl⟩ := hp
  rw [List.take_append_of_le_length hn]
  exact fun b hb => hm b (List.mem_of_mem_take hb)

theorem isAscii_of_suffix {mark bytes : Bytes} {n : Nat} (hm : IsAscii mark) (hs : mark <:+ bytes)
    (hn : n ≤ mark.length) : IsAscii (bytes.drop (bytes.length - n)) := by
  obtain ⟨front, rfl⟩ := hs
  rw [List.length_append, List.drop_append, List.drop_eq_nil_of_le (by omega), List.nil_append]
  exact fun b hb => hm b (List.mem_of_mem_drop hb)

/-- Marks that bytes begin and end with. -/
theorem marked_of_marks {kind : PieceKind} {opening closing bytes : Bytes} (ho : IsAscii opening)
    (hc : IsAscii closing) (hp : opening <+: bytes) (hs : closing <:+ bytes)
    (h₁ : (marks kind).1 ≤ opening.length) (h₂ : (marks kind).2 ≤ closing.length) :
    Marked kind bytes :=
  ⟨isAscii_of_isPrefix ho hp h₁, isAscii_of_suffix hc hs h₂⟩

section
variable {bytes : Bytes} {kind : PieceKind} {n : Nat}

private theorem prefix_take {mark : Bytes} (hp : mark <+: bytes) (hn : mark.length ≤ n) :
    mark <+: bytes.take n := List.prefix_take_iff.mpr ⟨hp, hn⟩

private theorem marked_comment (h : measureMarkup bytes = .ok (.comment, n)) :
    Marked .comment (bytes.take n) := by
  obtain ⟨hp, hn⟩ := measureMarkup_comment_iff.mp h
  have hle : 4 + 3 ≤ n := (lengthThrough?_le (by decide) hn).1
  exact marked_of_marks (by decide) (by decide) (prefix_take hp (by change 4 ≤ n; omega))
    ⟨_, (lengthThrough?_take hn).symm⟩ (by decide) (by decide)

private theorem marked_instruction (hhead : bytes.head? = some 0x3C)
    (h : measureMarkup bytes = .ok (.instruction, n)) : Marked .instruction (bytes.take n) := by
  obtain ⟨hsecond, hn, -⟩ := measureMarkup_instruction_iff.mp h
  have hle : 1 + 2 ≤ n := (lengthThrough?_le (by decide) hn).1
  have hp : [0x3C, 0x3F] <+: bytes := by
    match bytes, hhead, hsecond with
    | a :: b :: rest, hhead, hsecond =>
      cases hhead
      cases hsecond
      exact ⟨rest, rfl⟩
  exact marked_of_marks (by decide) (by decide) (prefix_take hp (by change 2 ≤ n; omega))
    ⟨_, (lengthThrough?_take hn).symm⟩ (by decide) (by decide)

private theorem marked_doctype (h : measureMarkup bytes = .ok (.doctype, n)) :
    Marked .doctype (bytes.take n) := by
  obtain ⟨mark, rest, m, rfl, hmark, rfl, hm, -⟩ := measureMarkup_doctype_iff.mp h
  obtain ⟨hpos, -, hend⟩ := doctypeLength?_take hm
  have hbytes : (mark ++ rest).take (m + 9) = mark ++ (rest.take (m - 1) ++ [0x3E]) := by
    rw [← hend, Nat.add_comm, ← hmark.length, List.take_length_add_append]
  have hs : [0x3E] <:+ mark ++ (rest.take (m - 1) ++ [0x3E]) :=
    ⟨mark ++ rest.take (m - 1), List.append_assoc _ _ _⟩
  rw [hbytes]
  exact marked_of_marks (fun b hb => hmark.lt hb) (by decide) (List.prefix_append _ _) hs
    (by rw [hmark.length]; decide) (by decide)

private theorem marked_characterData (hp : ascii "<![CDATA[" <+: bytes)
    (hn : lengthThrough? (ascii "]]>") 1 bytes = some n) :
    Marked .characterData (bytes.take n) := by
  have := length_characterData hp hn
  exact marked_of_marks (by decide) (by decide) (prefix_take hp (by change 9 ≤ n; omega))
    ⟨_, (lengthThrough?_take hn).symm⟩ (by decide) (by decide)

private theorem marked_tag (hhead : bytes.head? = some 0x3C)
    (h : measureTag bytes = .ok (kind, n)) : Marked kind (bytes.take n) := by
  obtain ⟨m, hm, rfl, hkind⟩ := measureTag_eq_ok_iff.mp h
  obtain ⟨hpos, -, hend⟩ := tagLength_take hm
  obtain ⟨rest, rfl⟩ : ∃ rest, bytes = 0x3C :: rest := List.head?_eq_some_iff.mp hhead
  have hend : rest.take m = rest.take (m - 1) ++ [0x3E] := hend
  have hp : [0x3C] <+: (0x3C :: rest).take (m + 1) := ⟨rest.take m, rfl⟩
  have hs : [0x3E] <:+ (0x3C :: rest).take (m + 1) :=
    ⟨0x3C :: rest.take (m - 1), by rw [List.take_succ_cons, hend]; rfl⟩
  rw [hkind]
  split
  · rename_i hslash
    exact marked_of_marks (by decide) (by decide)
      (prefix_take (List.isPrefixOf_iff_prefix.mp hslash) (by change 2 ≤ m + 1; omega)) hs
      (by decide) (by decide)
  · split
    · rename_i hslash
      have hs : [0x2F, 0x3E] <:+ (0x3C :: rest).take (m + 1) := by
        obtain ⟨k, rfl⟩ : ∃ k, m = k + 2 := by
          match m, hpos, hslash with
          | 1, _, hslash => cases hslash
          | k + 2, _, _ => exact ⟨k, rfl⟩
        have hslash : rest[k]? = some 0x2F := by
          rw [← List.head?_drop]
          exact hslash
        refine ⟨0x3C :: rest.take k, ?_⟩
        rw [List.take_succ_cons, hend, show k + 2 - 1 = k + 1 from rfl, List.take_add_one, hslash]
        simp
      exact marked_of_marks (by decide) (by decide) hp hs (by decide) (by decide)
    · exact marked_of_marks (by decide) (by decide) hp hs (by decide) (by decide)

private theorem marked_markup (hhead : bytes.head? = some 0x3C)
    (h : measureMarkup bytes = .ok (kind, n)) : Marked kind (bytes.take n) := by
  rcases measureMarkup_cases h with hk | ⟨rfl, hp, hn⟩ | ⟨-, -, htag⟩
  · cases kind with
    | comment => exact marked_comment h
    | instruction => exact marked_instruction hhead h
    | doctype => exact marked_doctype h
    | _ => cases hk
  · exact marked_characterData hp hn
  · exact marked_tag hhead htag

/-- Markup ends with an angle bracket. -/
private theorem Marked.last (h : Marked kind bytes) (hk : 0 < (marks kind).2) :
    ∀ b ∈ bytes.getLast?, b < 0x80 := by
  intro b hb
  obtain ⟨front, rfl⟩ := List.getLast?_eq_some_iff.mp hb
  refine h.closing b ?_
  rw [List.length_append, List.length_singleton, List.drop_append_of_le_length (by omega)]
  simp

private theorem measureMarkup_pos (h : measureMarkup bytes = .ok (kind, n)) : 0 < n := by
  rcases measureMarkup_cases h with hk | ⟨-, -, hn⟩ | ⟨-, -, htag⟩
  · cases kind with
    | comment => have := lengthThrough?_le (by decide) (measureMarkup_comment_iff.mp h).2; omega
    | instruction =>
      have := lengthThrough?_le (by decide) (measureMarkup_instruction_iff.mp h).2.1
      omega
    | doctype =>
      obtain ⟨-, -, m, -, -, rfl, -⟩ := measureMarkup_doctype_iff.mp h
      omega
    | _ => cases hk
  · have := lengthThrough?_le (by decide) hn
    omega
  · obtain ⟨m, -, rfl, -⟩ := measureTag_eq_ok_iff.mp htag
    omega

private theorem marked_unmarked (hk : marks kind = (0, 0)) (bytes : Bytes) : Marked kind bytes := by
  constructor <;> simp [hk, IsAscii]

private theorem marks_of_measureMarkup (h : measureMarkup bytes = .ok (kind, n)) :
    0 < (marks kind).2 := by
  rcases measureMarkup_cases h with hk | ⟨rfl, -⟩ | ⟨hk, -⟩
  · cases kind <;> first | decide | cases hk
  · decide
  · cases kind <;> first | decide | cases hk

end

private theorem lt_of_endsReference {b : UInt8} (h : endsReference b) : b < 0x80 := by
  have hb : (b = 0x3B ∨ b = 0x26) ∨ b = 0x3C := by simpa [endsReference] using h
  rcases hb with (rfl | rfl) | rfl <;> decide

/-- A piece that is cut off has its marks, and the sequences in it are read apart from what follows. -/
theorem marked_of_read? {mode : Mode} {bytes rest : Bytes} {piece : Piece}
    (h : read? mode bytes = .ok (some (piece, rest))) :
    Marked piece.kind piece.bytes ∧ Separate piece.bytes rest := by
  cases bytes with
  | nil => cases h
  | cons b bytes =>
    cases hm : measure mode (b :: bytes) with
    | error => rw [read?, hm] at h; cases h
    | ok m =>
      obtain ⟨kind, n⟩ := m
      rw [read?, hm] at h
      cases h
      unfold measure at hm
      rw [List.head?_cons] at hm
      split at hm
      · rename_i hhead
        cases hhead
        obtain ⟨n, rfl⟩ := Nat.exists_eq_add_of_le' (measureMarkup_pos hm)
        have hmarked : Marked kind ((0x3C :: bytes).take (n + 1)) := marked_markup rfl hm
        exact ⟨hmarked, .inr (hmarked.last (marks_of_measureMarkup hm))⟩
      · obtain ⟨m, hbody, ⟨hlast, rfl, rfl⟩ | ⟨-, -, rfl, rfl⟩⟩ := measureReference_eq_ok_iff.mp hm
        · refine ⟨marked_unmarked rfl _, .inr fun c hc => ?_⟩
          have htake : bytes.take (m + 1) = bytes.take m ++ [0x3B] := by
            rw [List.take_add_one, hlast]
            rfl
          have hc : c ∈ (b :: (bytes.take m ++ [0x3B])).getLast? := htake ▸ hc
          rw [← List.cons_append, List.getLast?_concat] at hc
          cases hc
          decide
        · refine ⟨marked_unmarked rfl _, .inl ?_⟩
          subst hbody
          exact Text.breaks_takeWhile (fun c hc => lt_of_endsReference (by simpa using hc)) bytes
      · rename_i hmarkup hreference
        cases hm
        have hb : (b ≠ 0x3C && b ≠ 0x26) = true := by
          simpa using ⟨fun hc => hmarkup (hc ▸ rfl), fun hc => hreference (hc ▸ rfl)⟩
        have htake : ((b :: bytes).takeWhile fun b => b ≠ 0x3C && b ≠ 0x26) =
            b :: bytes.takeWhile fun b => b ≠ 0x3C && b ≠ 0x26 := List.takeWhile_cons_of_pos hb
        refine ⟨marked_unmarked rfl _, .inl ?_⟩
        rw [htake]
        refine Text.breaks_takeWhile (fun c hc => ?_) bytes
        have hc : c = 0x3C ∨ c = 0x26 := by
          simpa [Classical.or_iff_not_imp_left] using hc
        rcases hc with rfl | rfl <;> decide

/-- What cannot be read inside a piece cannot be read in the whole piece, behind its opening mark. -/
theorem Marked.failsAt {piece : Piece} (h : Marked piece.kind piece.bytes) {front part : Bytes}
    {offset : Nat} (hf : Text.FailsAt piece.inside front part offset) :
    ∃ opening, opening.length = (marks piece.kind).1 ∧
      Text.FailsAt piece.bytes (opening ++ front) part offset := by
  have hlt := Text.lt_of_mem_invalidOffsets hf.firstInvalid.mem
  rw [inside, List.length_drop, List.length_take] at hlt
  refine ⟨piece.bytes.take (marks piece.kind).1, by rw [List.length_take]; omega, ?_⟩
  have hbytes : piece.bytes.take (marks piece.kind).1 ++ (piece.inside ++
      piece.bytes.drop (piece.bytes.length - (marks piece.kind).2)) = piece.bytes := by
    have hopening : piece.bytes.take (marks piece.kind).1 =
        (piece.bytes.take (piece.bytes.length - (marks piece.kind).2)).take (marks piece.kind).1 := by
      rw [List.take_take, Nat.min_eq_left (by omega)]
    rw [inside, hopening, ← List.append_assoc, List.take_append_drop, List.take_append_drop]
  have := (hf.before h.closing.breaks).behind h.opening.isText
  rwa [hbytes] at this

end Piece
end MarkupGraft.Markup
