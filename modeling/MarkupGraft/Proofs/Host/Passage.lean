import MarkupGraft.Proofs.Host.Part

/-!
The passages of a host are the parts that its tokens make.
-/

namespace MarkupGraft
open Markup

namespace Markup.Token

private theorem depthAfter_sub {t : Token} {depth floor : Nat} (hf : 0 < floor) (h : floor ≤ depth)
    (hafter : floor ≤ t.depthAfter depth) :
    t.depthAfter (depth + 1 - floor) = t.depthAfter depth + 1 - floor := by
  unfold depthAfter at hafter ⊢
  split at hafter <;> omega

private theorem depthAfter_eq_zero {t : Token} {depth floor : Nat} (h : floor ≤ depth)
    (hafter : t.depthAfter depth < floor) : t.depthAfter (depth + 1 - floor) = 0 := by
  unfold depthAfter at hafter ⊢
  split at hafter <;> omega

end Markup.Token

section
variable {t last : Tokenizer} {floor : Nat} {tokens : List Token}

/-- A run during which an element stays open is a run through its content. -/
private theorem splitContent_run (hf : 0 < floor) (hr : t.Run floor tokens last)
    (h : floor ≤ t.depth) (behind : List Token) : splitContent (t.depth + 1 - floor) (tokens ++ behind) =
      (tokens ++ (splitContent (last.depth + 1 - floor) behind).1,
        (splitContent (last.depth + 1 - floor) behind).2) := by
  induction hr with
  | done t => rfl
  | step hn hd _ ih =>
    have hafter := (Tokenizer.next_kept hn).2.2.2
    rw [List.cons_append, splitContent, Token.depthAfter_sub hf h (hafter ▸ hd), ← hafter,
      if_neg (by omega), ih hd]
    rfl

private theorem position_run (hr : t.Run floor tokens last) {token : Token}
    (h : t.position = token.span.stop) : last.position = (tokens.getLastD token).span.stop := by
  induction hr generalizing token with
  | done t => exact h
  | step hn _ _ ih =>
    rw [List.getLastD_cons]
    exact ih (Tokenizer.next_kept hn).2.2.1

end

namespace Passage
variable {t rest : Tokenizer} {token : Token}

private theorem isSome_kindOf? (token : Token) (content : Bytes) :
    (kindOf? token content).isSome = token.isCutOut := by
  unfold kindOf? Token.isCutOut
  split <;> simp_all

private theorem kindOf?_of_not_isCutOut (h : ¬token.isCutOut) (content : Bytes) :
    kindOf? token content = none := by
  rw [← Option.not_isSome_iff_eq_none, isSome_kindOf?]
  exact h

private theorem span_eq {s : Tokenizer} {p : Part} (hn : s.next = .ok (some (p.head, t)))
    (hr : t.Run 0 (p.inside ++ p.closing?.toList) rest) :
    p.span = ⟨p.head.span.start, rest.position⟩ := by
  rw [Part.span, position_run hr (Tokenizer.next_kept hn).2.2.1]

/-- A token that begins no element to be cut out makes a passage of its own. -/
private theorem single_eq {s : Tokenizer} {passage : Passage} (hn : s.next = .ok (some (token, t)))
    (hs : ∀ name attributes, token.form = .startTag name attributes → ¬token.isCutOut)
    (h : read token t = .ok (passage, rest)) :
    rest = t ∧ passage = (⟨token, [], none⟩ : Part).passage t.input := by
  rw [read, isSome_kindOf?] at h
  by_cases hc : token.isCutOut
  · rw [if_pos hc] at h
    have hnone (name : String) (attributes : List Attribute) :
        token.form ≠ .startTag name attributes := fun hf => hs name attributes hf hc
    have hraw : t.rawContent token = .ok ([], t) := by
      unfold Tokenizer.rawContent
      split
      · exact absurd ‹_› (hnone _ _)
      · rfl
    have hcontent : (⟨token, [], none⟩ : Part).content t.input = [] := by
      unfold Part.content
      split
      · exact absurd ‹_› (hnone _ _)
      · rfl
    rw [hraw] at h
    cases h
    rw [Part.passage, span_eq (p := ⟨token, [], none⟩) hn (.done t), hcontent]
    exact ⟨rfl, rfl⟩
  · rw [if_neg hc] at h
    cases h
    rw [Part.passage, kindOf?_of_not_isCutOut hc]
    exact ⟨rfl, rfl⟩

/-- An element that is cut out makes one passage. Where it is not closed nothing is left. -/
private theorem element_eq {s : Tokenizer} {passage : Passage} {name : String}
    {attributes : List Attribute} (hn : s.next = .ok (some (token, t)))
    (hf : token.form = .startTag name attributes) (hc : token.isCutOut)
    (h : read token t = .ok (passage, rest)) :
    ∃ inside closing?, t.Run 0 (inside ++ closing?.toList) rest ∧
      passage = (⟨token, inside, closing?⟩ : Part).passage t.input ∧
      ((∀ others, Part.read token (inside ++ closing?.toList ++ others) =
        (⟨token, inside, closing?⟩, others)) ∨
        rest.next = .ok none ∧
          Part.read token (inside ++ closing?.toList) = (⟨token, inside, closing?⟩, [])) := by
  rw [read, isSome_kindOf?, if_pos hc] at h
  obtain ⟨⟨content, u⟩, hcontent, hpair⟩ := map_eq_ok_iff.mp h
  cases hpair
  obtain ⟨inside, last, stop, hr, hends, rfl⟩ := Tokenizer.rawContent_cases hf hcontent
  have hpos : 0 < t.depth := by
    rw [(Tokenizer.next_kept hn).2.2.2, Token.depthAfter, hf]
    exact Nat.succ_pos _
  have hsplit (others : List Token) := splitContent_run hpos hr (Nat.le_refl _) others
  simp only [Nat.add_sub_cancel_left] at hsplit
  have hinside := hr.mono (Nat.zero_le _)
  rcases hends with ⟨closing, hclosing, hd, rfl⟩ | ⟨hend, rfl, rfl⟩
  · have hrun := hinside.append (.step hclosing (Nat.zero_le _) (.done rest))
    refine ⟨inside, some closing, hrun, ?_, .inl fun others => ?_⟩
    · rw [Part.passage, span_eq (p := ⟨token, inside, some closing⟩) hn hrun]
      simp only [Part.content, hf]
      rfl
    · have hd : closing.depthAfter (last.depth + 1 - t.depth) = 0 := by
        refine Token.depthAfter_eq_zero (hr.depth_le (Nat.le_refl _)) ?_
        rwa [← (Tokenizer.next_kept hclosing).2.2.2]
      rw [List.append_assoc, Part.read_element hf hc, hsplit]
      simp [splitContent, hd]
  · have hrun : t.Run 0 (inside ++ (none : Option Token).toList) rest := by simpa using hinside
    refine ⟨inside, none, hrun, ?_, .inr ⟨hend, ?_⟩⟩
    · rw [Part.passage, span_eq (p := ⟨token, inside, none⟩) hn hrun]
      simp only [Part.content, hf]
      rfl
    · rw [Part.read_element hf hc, hsplit]
      simp [splitContent]

/-- A passage is a part. -/
private theorem read_eq {s : Tokenizer} {passage : Passage} (hn : s.next = .ok (some (token, t)))
    (h : read token t = .ok (passage, rest)) :
    ∃ p : Part, t.Run 0 (p.inside ++ p.closing?.toList) rest ∧ passage = p.passage t.input ∧
      ((∀ others, Part.read token (p.inside ++ p.closing?.toList ++ others) = (p, others)) ∨
        rest.next = .ok none ∧ Part.read token (p.inside ++ p.closing?.toList) = (p, [])) := by
  by_cases hs : ∀ name attributes, token.form = .startTag name attributes → ¬token.isCutOut
  · obtain ⟨rfl, hpassage⟩ := single_eq hn hs h
    exact ⟨⟨token, [], none⟩, .done rest, hpassage, .inl (Part.read_single hs)⟩
  · obtain ⟨name, attributes, hf, hc⟩ : ∃ name attributes,
        token.form = .startTag name attributes ∧ token.isCutOut := by
      simpa using hs
    obtain ⟨inside, closing?, hrun, hpassage, hread⟩ := element_eq hn hf hc h
    exact ⟨⟨token, inside, closing?⟩, hrun, hpassage, hread⟩

/-- The passages of a tokenizer are the parts of the tokens that it has left. -/
private theorem all_eq {passages : List Passage} (h : all t = (passages, none)) :
    ∃ tokens last, t.Run 0 tokens last ∧ last.next = .ok none ∧
      passages = (parts tokens).map (·.passage t.input) := by
  fun_induction all t generalizing passages with
  | case1 => cases h
  | case2 t hn =>
    cases h
    exact ⟨[], t, .done t, hn, by rw [parts]; rfl⟩
  | case3 => cases h
  | case4 t token behind hn passage rest hr others error? hothers ih =>
    cases h
    obtain ⟨p, hrun, rfl, hread⟩ := read_eq hn hr
    obtain ⟨tokens, last, hlast, hend, rfl⟩ := ih hothers
    have hwhole : t.Run 0 (token :: (p.inside ++ p.closing?.toList ++ tokens)) last :=
      .step hn (Nat.zero_le _) (hrun.append hlast)
    refine ⟨_, last, hwhole, hend, ?_⟩
    rw [parts, (hrun.kept).1, (Tokenizer.next_kept hn).1]
    -- Behind an element that is not closed there are no tokens.
    rcases hread with hread | ⟨hnone, hread⟩
    · rw [hread]
      rfl
    · cases hlast with
      | done =>
        rw [List.append_nil, hread]
        rfl
      | step hn' => exact absurd (hnone.symm.trans hn') (by simp)

end Passage

/-- The passages of a host are the parts of its tokens. -/
theorem exists_of_passages {host : Bytes} {found : List Passage} (h : passages host = (found, none)) :
    ∃ tokens, tokenize .html host = .ok tokens ∧ found = (parts tokens).map (·.passage host) := by
  obtain ⟨tokens, last, hr, hend, hfound⟩ := Passage.all_eq h
  exact ⟨tokens, tokenize_eq_ok_iff.mpr ⟨last, hr, hend⟩, hfound⟩

end MarkupGraft
