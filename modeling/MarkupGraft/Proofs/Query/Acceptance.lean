import MarkupGraft.Proofs.Query.Completeness

/-!
The language of the parser. A query is accepted just when it is a sentence of the grammar as it is
read, with the tree that the sentence has. A query whose paths hold no blanks and whose words end is
a sentence of the loose grammar and is accepted too; where there are no blanks at all, the loose
grammar asks for nothing else.
-/

namespace MarkupGraft.Query

open Reader

/-! Queries without blanks -/

def BlankFree (text : List Char) : Prop := ∀ c ∈ text, ¬Text.isMarkupBlank c

theorem BlankFree.behind {n : Nat} {text rest : List Char} (h : BlankFree text)
    (ht : Takes n text rest) : BlankFree rest := fun c hc => h c (ht.suffix.subset hc)

theorem takes_of_gap_loose {input rest : List Char} (h : Lexis.loose.gap input rest) :
    Takes 0 input rest := by
  obtain ⟨blanks, he, -⟩ := h
  exact ⟨blanks, he, Nat.zero_le _⟩

theorem BlankFree.gap {input rest : List Char} (h : BlankFree input)
    (hg : Lexis.loose.gap input rest) : input = rest := by
  obtain ⟨blanks, rfl, hblanks⟩ := hg
  cases blanks with
  | nil => rfl
  | cons c blanks => exact absurd (hblanks c (by simp)) (h c (by simp))

theorem Head.tight_of_loose {axis : Axis} {test : NodeTest} {input rest : List Char}
    (h : Head Lexis.loose.gap axis test input rest) (hb : BlankFree input) :
    Head Lexis.tight.gap axis test input rest := by
  cases h with
  | sign after tested => exact .sign ((hb.behind (.cons _ _)).gap after) tested
  | @named _ _ _ _ behind mid _ _ name before after tested =>
    have hbehind : BlankFree behind := hb.behind name.takes
    have hmid : BlankFree mid := hbehind.behind <|
      (takes_of_gap_loose before).trans ((Takes.cons _ _).trans (.cons _ mid))
    exact .named name (hbehind.gap before) (hmid.gap after) tested
  | plain unnamed tested => exact .plain unnamed tested

/-- Without blanks there is nothing to leave out. -/
theorem Phrase.tight_of_loose {p : Part} {value : p.Value} {input rest : List Char}
    (h : Phrase .loose p value input rest) (hb : BlankFree input) :
    Phrase .tight p value input rest := by
  have htakes {p : Part} {value : p.Value} {input rest : List Char}
      (h : Phrase .loose p value input rest) : Takes p.least input rest := h.takes takes_of_gap_loose
  have hinside {c : Char} {input inner : List Char} (h : skipBlank input = c :: inner) :
      Takes 1 input (skipBlank inner) := (takes_of_skipBlank h).trans (takes_skipBlank inner)
  induction h with
  | number numeral => exact .number numeral
  | literal quotation => exact .literal quotation
  | call name noKind opened _ closed ih =>
    have hinner := (takes_skipBlank _).trans (name.takes.trans (takes_of_skipBlank opened))
    exact .call name noKind opened (ih (hb.behind hinner)) closed
  | parenthesized opened _ closed ih =>
    exact .parenthesized opened (ih (hb.behind (hinside opened))) closed
  | noArguments => exact .noArguments
  | arguments first _ ihFirst ihFurther =>
    exact .arguments (ihFirst hb) (ihFurther (hb.behind (htakes first)))
  | noFurther => exact .noFurther
  | further comma next _ ihNext ihFurther =>
    have hinner := hb.behind (hinside comma)
    exact .further comma (ihNext hinner) (ihFurther (hinner.behind (htakes next)))
  | noPredicates => exact .noPredicates
  | predicates opened nested closed _ ihNested ihFurther =>
    have hinner := hb.behind (hinside opened)
    have hlast := hinner.behind (htakes nested)
    exact .predicates opened (ihNested hinner) closed (ihFurther (hlast.behind (hinside closed)))
  | dots dots => exact .dots dots
  | full head _ ih =>
    exact .full (head.tight_of_loose hb) (ih (hb.behind (head.takes takes_of_gap_loose)))
  | noSteps => exact .noSteps
  | steps before slash after step _ ihStep ihFurther =>
    obtain rfl := hb.gap before
    have hbehind := hb.behind slash.takes
    obtain rfl := hbehind.gap after
    exact .steps rfl slash rfl (ihStep hbehind) (ihFurther (hbehind.behind (htakes step)))
  | relative before step _ ihStep ihFurther =>
    obtain rfl := hb.gap before
    exact .relative rfl (ihStep hb) (ihFurther (hb.behind (htakes step)))
  | root before slash alone =>
    obtain rfl := hb.gap before
    exact .root rfl slash alone
  | absolute before slash after step _ ihStep ihFurther =>
    obtain rfl := hb.gap before
    have hbehind := hb.behind slash.takes
    obtain rfl := hbehind.gap after
    exact .absolute rfl slash rfl (ihStep hbehind) (ihFurther (hbehind.behind (htakes step)))
  | filtered primary _ ihPrimary ihFurther =>
    exact .filtered (ihPrimary hb) (ihFurther (hb.behind (htakes primary)))
  | located _ ih => exact .located (ih hb)
  | negated sign _ ih => exact .negated sign (ih (hb.behind (hinside sign)))
  | unsigned _ ih => exact .unsigned (ih hb)
  | single _ ih => exact .single (ih hb)
  | joined first mark ends _ ihFirst ihSecond =>
    have hlast := hb.behind (htakes first)
    have hright := (takes_skipBlank _).trans (mark.takes.trans (takes_skipBlank _))
    exact .joined (ihFirst hb) mark ends (ihSecond (hlast.behind hright))

/-! Acceptance -/

/-- A query is accepted just when it is a sentence of the grammar as it is read. -/
theorem parse_eq_ok_iff {query : String} {e : Expression} :
    parse query = .ok e ↔ Sentence .read e (Text.trim query).toList := by
  rw [parse]
  constructor
  · intro h
    split at h
    · cases h
    · split at h
      · rename_i found hread
        cases h
        exact sound_expression _ hread
      · cases h
      · cases h
  · intro h
    have hfilled := h.length_le
    have hread : expression ((Text.trim query).toList.length + 1) (Text.trim query).toList =
        some (e, []) := (complete_of_phrase h).nested (Rank.stops_any (by rintro c ⟨⟩)) (Nat.lt_succ_self _)
    rw [hread, if_neg]
    intro hempty
    rw [List.isEmpty_iff.mp hempty] at hfilled
    cases hfilled

/-- The language of the parser. It is the grammar as it is read. Every query whose paths hold no
blanks and whose words end belongs to it with the tree that it has in the loose grammar, and for a
query without blanks the loose grammar asks for no more than that its words end. -/
theorem parse_language (query : String) (e : Expression) :
    (parse query = .ok e ↔ Sentence .read e (Text.trim query).toList) ∧
    (Sentence .tight e (Text.trim query).toList →
      parse query = .ok e ∧ Sentence .loose e (Text.trim query).toList) ∧
    (BlankFree (Text.trim query).toList →
      (Sentence .loose e (Text.trim query).toList ↔ Sentence .tight e (Text.trim query).toList)) :=
  ⟨parse_eq_ok_iff,
    fun h => ⟨parse_eq_ok_iff.mpr (h.mono within_read_tight), h.mono within_loose_tight⟩,
    fun hb => ⟨fun h => h.tight_of_loose hb, fun h => h.mono within_loose_tight⟩⟩

/-- Blanks around a slash are loose and not read. -/
theorem parse_language_spaced : (∃ e, Sentence .loose e (Text.trim "a / b").toList) ∧
    ∀ e, ¬Sentence .read e (Text.trim "a / b").toList := by
  constructor
  · have hstep (c : Char) (rest : List Char) (hc : isNameStart c)
        (hrest : ∀ d ∈ rest.head?, ¬isNameCharacter d ∧ d ≠ ':') (hn : ¬NamesAxis (c :: rest)) :
        Phrase .loose .step (.mk .child (.name (String.ofList [c])) []) (c :: rest) rest := by
      have hword : Word [c] (c :: rest) rest :=
        ⟨⟨rfl, by simp [isNameCharacter_of_isNameStart hc], fun d hd => (hrest d hd).1⟩, c, rfl, hc⟩
      have hname : Name [c] [c] (c :: rest) rest :=
        .plain hword fun behind he => absurd rfl (hrest ':' (by rw [he]; rfl)).2
      exact .full (.plain hn (.name hname)) .noPredicates
    have hslash : Longest slashes "/" [] ['/', ' ', 'b'] [' ', 'b'] :=
      ⟨by simp [slashes], rfl, by decide⟩
    have hblank (rest : List Char) : Lexis.loose.gap (' ' :: rest) rest :=
      ⟨[' '], rfl, List.forall_mem_singleton.mpr (by decide)⟩
    have hnone (rest : List Char) : Lexis.loose.gap rest rest := ⟨[], rfl, by simp⟩
    have hpath := Phrase.relative (hnone _)
      (hstep 'a' [' ', '/', ' ', 'b'] (by decide) (by rintro c ⟨⟩; decide)
        (by unfold NamesAxis; decide))
      (.steps (hblank _) hslash (hblank _)
        (hstep 'b' [] (by decide) (by rintro c ⟨⟩) (by unfold NamesAxis; decide)) .noSteps)
    rw [show (Text.trim "a / b").toList = ['a', ' ', '/', ' ', 'b'] by decide]
    exact ⟨_, .single <| .single <| .single <| .single <| .single <| .single <| .unsigned <|
      .single <| .located hpath⟩
  · intro e he
    have hread : (parse "a / b").toOption.isNone := by decide +kernel
    rw [(parse_language "a / b" e).1.mpr he] at hread
    cases hread

end MarkupGraft.Query
