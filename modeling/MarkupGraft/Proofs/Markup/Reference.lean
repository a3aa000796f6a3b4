import MarkupGraft.Markup.Reference
import MarkupGraft.Proofs.Text.Utf8

/-! Escaped text is read back, and none of its characters has a meaning in markup but the ampersands
of the references. -/

namespace MarkupGraft.Markup

/-- Whether a character is written as a reference. -/
def isEscaped (c : Char) : Bool := c = '<' || c = '>' || c = '&' || c = '\'' || c = '"'

theorem escapeChar_of_not_isEscaped {c : Char} (h : ¬isEscaped c) : escapeChar c = [c] := by
  simp only [isEscaped, Bool.or_eq_true, decide_eq_true_eq, not_or] at h
  obtain ⟨⟨⟨⟨h₁, h₂⟩, h₃⟩, h₄⟩, h₅⟩ := h
  unfold escapeChar
  split <;> first | rfl | contradiction

theorem escape_append (a b : String) : escape (a ++ b) = escape a ++ escape b := by
  simp [escape]

@[simp] theorem escape_empty : escape "" = "" := rfl

/-- The characters of names that are looked up have no meaning in markup. -/
theorem of_isReferenceCharacter {n : Char} (h : isReferenceCharacter n) :
    n.toNat < 128 ∧ n ≠ '&' ∧ n ≠ ';' ∧ n ≠ '<' := by
  have hnot {c : Char} (hc : isReferenceCharacter c = false) : n ≠ c := by
    rintro rfl
    rw [h] at hc
    cases hc
  refine ⟨?_, hnot (by decide), hnot (by decide), hnot (by decide)⟩
  have h : (((n.val ≥ 'A'.val ∧ n.val ≤ 'Z'.val) || (n.val ≥ 'a'.val && n.val ≤ 'z'.val) ||
      (n.val ≥ '0'.val && n.val ≤ '9'.val)) || n = '#') = true := h
  simp only [Bool.or_eq_true, Bool.and_eq_true, decide_eq_true_eq] at h
  rcases h with ((⟨-, h⟩ | ⟨-, h⟩) | ⟨-, h⟩) | rfl
  · exact Nat.lt_of_le_of_lt (UInt32.le_iff_toNat_le.mp h) (by decide)
  · exact Nat.lt_of_le_of_lt (UInt32.le_iff_toNat_le.mp h) (by decide)
  · exact Nat.lt_of_le_of_lt (UInt32.le_iff_toNat_le.mp h) (by decide)
  · decide

/-- The reference that stands for an escaped character, in either reading. -/
theorem escapeChar_of_isEscaped {c : Char} (h : isEscaped c) :
    ∃ name : List Char, escapeChar c = '&' :: (name ++ [';']) ∧
      (∀ n ∈ name, isReferenceCharacter n) ∧ lenientReference? name = some [c] ∧
      ∀ offset, strictReference offset name = .ok [c] := by
  simp only [isEscaped, Bool.or_eq_true, decide_eq_true_eq] at h
  rcases h with (((rfl | rfl) | rfl) | rfl) | rfl
  · exact ⟨['l', 't'], rfl, List.all_eq_true.mp (by decide), rfl, fun _ => rfl⟩
  · exact ⟨['g', 't'], rfl, List.all_eq_true.mp (by decide), rfl, fun _ => rfl⟩
  · exact ⟨['a', 'm', 'p'], rfl, List.all_eq_true.mp (by decide), rfl, fun _ => rfl⟩
  · exact ⟨['a', 'p', 'o', 's'], rfl, List.all_eq_true.mp (by decide), rfl, fun _ => rfl⟩
  · exact ⟨['q', 'u', 'o', 't'], rfl, List.all_eq_true.mp (by decide), rfl, fun _ => rfl⟩

private theorem resolveStrictly_reference {name value : List Char} (stop offset : Nat)
    (rest : List Char) (hname : ∀ n ∈ name, n ≠ '&' ∧ n ≠ ';')
    (hvalue : strictReference (offset + 1) name = .ok value) :
    ∃ next, resolveStrictly stop offset ('&' :: (name ++ ';' :: rest)) =
      (resolveStrictly stop next rest).map (value ++ ·) := by
  have hall : ∀ n ∈ name, (n ≠ '&' && n ≠ ';') = true := by
    intro n hn
    simpa using hname n hn
  have htake : (name ++ ';' :: rest).takeWhile (fun c => c ≠ '&' && c ≠ ';') = name := by
    rw [List.takeWhile_append_of_pos hall]
    simp
  have hdrop : (name ++ ';' :: rest).dropWhile (fun c => c ≠ '&' && c ≠ ';') = ';' :: rest := by
    rw [List.dropWhile_append_of_pos hall]
    simp
  refine ⟨offset + 1 + byteLength name + 1, ?_⟩
  rw [resolveStrictly, if_pos rfl]
  simp only [htake]
  split
  · rename_i rest' hrest
    rw [hdrop, List.cons.injEq] at hrest
    rw [← hrest.2, hvalue]
    cases resolveStrictly stop (offset + 1 + byteLength name + 1) rest <;> rfl
  · rename_i hno
    exact absurd hdrop (hno rest)

private theorem resolveStrictly_escape (stop : Nat) (chars : List Char) (offset : Nat) :
    resolveStrictly stop offset (chars.flatMap escapeChar) = .ok chars := by
  induction chars generalizing offset with
  | nil => rw [List.flatMap_nil, resolveStrictly]
  | cons c chars ih =>
    rw [List.flatMap_cons]
    by_cases h : isEscaped c = true
    · obtain ⟨name, hc, hname, -, hvalue⟩ := escapeChar_of_isEscaped h
      have hmarks : ∀ n ∈ name, n ≠ '&' ∧ n ≠ ';' := fun n hn =>
        ⟨(of_isReferenceCharacter (hname n hn)).2.1, (of_isReferenceCharacter (hname n hn)).2.2.1⟩
      obtain ⟨next, hresolve⟩ := resolveStrictly_reference stop offset (chars.flatMap escapeChar)
        hmarks (hvalue (offset + 1))
      rw [hc, List.cons_append, List.append_assoc, List.singleton_append, hresolve, ih]
      rfl
    · have hamp : c ≠ '&' := by
        rintro rfl
        exact h rfl
      rw [escapeChar_of_not_isEscaped h, List.singleton_append, resolveStrictly, if_neg hamp, ih]
      rfl

/-- Reading what has been escaped gives the text back. -/
@[simp] theorem unescape_escape (text : String) : unescape (escape text) = .ok text := by
  simp [unescape, escape, resolveStrictly_escape, Except.map]

/-! Lenient reading -/

theorem resolveLeniently_reference {name value : List Char} (rest : List Char)
    (hname : ∀ n ∈ name, isReferenceCharacter n) (hvalue : lenientReference? name = some value) :
    resolveLeniently ('&' :: (name ++ ';' :: rest)) = value ++ resolveLeniently rest := by
  have htake : (name ++ ';' :: rest).takeWhile isReferenceCharacter = name := by
    rw [List.takeWhile_append_of_pos hname, List.takeWhile_cons_of_neg (by decide), List.append_nil]
  have hdrop : (name ++ ';' :: rest).dropWhile isReferenceCharacter = ';' :: rest := by
    rw [List.dropWhile_append_of_pos hname, List.dropWhile_cons_of_neg (by decide)]
  rw [resolveLeniently, if_pos rfl]
  simp only [htake]
  split
  · rename_i hrest hfound
    rw [hdrop, List.cons.injEq] at hrest
    rw [hvalue] at hfound
    cases hfound
    rw [← hrest.2]
  · rename_i hno
    exact absurd hvalue (hno rest value hdrop)

private theorem resolveLeniently_escape (chars : List Char) :
    resolveLeniently (chars.flatMap escapeChar) = chars := by
  induction chars with
  | nil => rw [List.flatMap_nil, resolveLeniently]
  | cons c chars ih =>
    rw [List.flatMap_cons]
    by_cases h : isEscaped c = true
    · obtain ⟨name, hc, hname, hvalue, -⟩ := escapeChar_of_isEscaped h
      rw [hc, List.cons_append, List.append_assoc, List.singleton_append,
        resolveLeniently_reference _ hname hvalue, ih]
      rfl
    · have hamp : c ≠ '&' := by
        rintro rfl
        exact h rfl
      rw [escapeChar_of_not_isEscaped h, List.singleton_append, resolveLeniently, if_neg hamp, ih]

/-- A lenient reading gives it back too. -/
@[simp] theorem unescapeLeniently_escape (text : String) :
    unescapeLeniently (escape text) = text := by
  simp [unescapeLeniently, escape, resolveLeniently_escape]

end MarkupGraft.Markup
