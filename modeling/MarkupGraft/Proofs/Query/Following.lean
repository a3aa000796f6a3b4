import MarkupGraft.Proofs.Query.Reading

/-!
What phrases begin with and what follows them. What follows a phrase decides where its reader stops:
no operator of its own level may stand there, no slash or bracket, and no digit. In a query an
operator of a looser level, a bracket, a comma or nothing follows. What a phrase begins with decides
which reader takes it.
-/

namespace MarkupGraft.Query

open Reader

/-! First characters -/

/-- Whether a character begins an operand without a sign. -/
def Begins (c : Char) : Prop :=
  c.isDigit ∨ c ∈ ['.', '\'', '"', '(', '/', '@', '*'] ∨ isNameStart c

instance : DecidablePred Begins := fun _ => inferInstanceAs (Decidable (_ ∨ _ ∨ _))

theorem not_isMarkupBlank_of_begins {c : Char} (h : Begins c) : ¬Text.isMarkupBlank c := by
  rcases h with h | h | h
  · intro hc
    simp only [Text.isMarkupBlank, Bool.or_eq_true, decide_eq_true_eq] at hc
    rcases hc with ((rfl | rfl) | rfl) | rfl <;> revert h <;> decide
  · revert c
    rw [← List.forall_iff_forall_mem]
    decide
  · exact not_isMarkupBlank_of_isNameCharacter (isNameCharacter_of_isNameStart h)

/-- Whether minus signs may stand in front of operands. -/
def Rank.signed : Rank → Bool
  | .path => false
  | .unary => true
  | .chain _ operand => operand.signed

/-- What a phrase begins with. -/
def Part.Opens : Part → List Char → Prop
  | .operand rank, input => ∃ c ∈ (skipBlank input).head?, Begins c ∨ rank.signed ∧ c = '-'
  | .primary, input => ∃ c ∈ (skipBlank input).head?, Begins c
  | .location, input => ∃ c ∈ input.head?, Begins c
  | .step, input => ∃ c ∈ input.head?, Lexis.BeginsStep c
  | _, _ => True

theorem Numeral.exists_cons {e : Expression} {input rest : List Char} (h : Numeral e input rest) :
    ∃ c more, input = c :: more ∧ (c.isDigit ∨ c = '.') := by
  have hdigits {w behind : List Char} (hrun : Run Char.isDigit w input behind) (hw : w ≠ []) :
      ∃ c more, input = c :: more ∧ (c.isDigit ∨ c = '.') := by
    obtain ⟨c, more, rfl⟩ := List.exists_cons_of_ne_nil hw
    exact ⟨c, more ++ behind, hrun.eq, .inl (hrun.all c List.mem_cons_self)⟩
  cases h with
  | whole digits filled => exact hdigits digits filled
  | @pointed w _ _ behind _ digits =>
    by_cases hw : w = []
    · exact ⟨'.', behind, by rw [digits.eq, hw, List.nil_append], .inr rfl⟩
    · exact hdigits digits hw

theorem begins_of_mem {c : Char} (h : c ∈ ['.', '\'', '"', '(', '/', '@', '*']) : Begins c :=
  .inr (.inl h)

theorem begins_of_beginsStep {c : Char} (h : Lexis.BeginsStep c) : Begins c := by
  rcases h with rfl | rfl | rfl | h
  · exact begins_of_mem (by decide)
  · exact begins_of_mem (by decide)
  · exact begins_of_mem (by decide)
  · exact .inr (.inr h)

theorem Phrase.opens {p : Part} {value : p.Value} {input rest : List Char}
    (h : Phrase .read p value input rest) : p.Opens input := by
  induction h with
  | number numeral =>
    obtain ⟨c, more, he, hc⟩ := numeral.exists_cons
    exact ⟨c, by rw [he]; rfl, hc.elim .inl fun hc => begins_of_mem (by simp [hc])⟩
  | @literal _ input _ quotation =>
    generalize hinput : skipBlank input = start at quotation
    cases quotation with
    | mk isQuote =>
      exact ⟨_, by rw [hinput]; rfl, begins_of_mem (by rcases isQuote with rfl | rfl <;> decide)⟩
  | call name =>
    obtain ⟨c, more, he, hc⟩ := name.exists_cons
    exact ⟨c, by rw [he]; rfl, .inr (.inr hc)⟩
  | parenthesized opened => exact ⟨'(', by rw [opened]; rfl, begins_of_mem (by decide)⟩
  | dots dots =>
    obtain ⟨more, rfl⟩ := dots.exists_cons_dot
    exact ⟨'.', rfl, .inl rfl⟩
  | full head =>
    obtain ⟨c, more, rfl, hc⟩ := head.exists_cons
    exact ⟨c, rfl, .inr hc⟩
  | relative before _ _ step =>
    obtain rfl := before
    obtain ⟨c, hc, hbegins⟩ := step
    exact ⟨c, hc, begins_of_beginsStep hbegins⟩
  | root before slash | absolute before slash =>
    obtain rfl := before
    obtain ⟨more, rfl⟩ := slash.exists_cons_slash
    exact ⟨'/', rfl, begins_of_mem (by decide)⟩
  | filtered _ _ primary =>
    obtain ⟨c, hc, hbegins⟩ := primary
    exact ⟨c, hc, .inl hbegins⟩
  | located _ location =>
    obtain ⟨c, hc, hbegins⟩ := location
    obtain ⟨more, rfl⟩ := List.head?_eq_some_iff.mp hc
    exact ⟨c, by rw [skipBlank_cons (not_isMarkupBlank_of_begins hbegins)]; rfl, .inl hbegins⟩
  | negated sign => exact ⟨'-', by rw [sign]; rfl, .inr ⟨rfl, rfl⟩⟩
  | unsigned _ operand =>
    obtain ⟨c, hc, hbegins | ⟨hsigned, -⟩⟩ := operand
    · exact ⟨c, hc, .inl hbegins⟩
    · cases hsigned
  | single _ only => exact only
  | joined _ _ _ _ first => exact first
  | _ => trivial

/-- What an expression begins with is no closing bracket and no minus sign if it has none. -/
theorem Phrase.head?_ne {rank : Rank} {e : Expression} {input rest : List Char}
    (h : Phrase .read (.operand rank) e input rest) {c : Char} (hb : ¬Begins c)
    (hs : c = '-' → rank.signed = false) : ∀ d ∈ (skipBlank input).head?, d ≠ c := by
  obtain ⟨first, hfirst, hbegins⟩ := h.opens
  rintro d hd rfl
  cases hfirst.symm.trans hd
  rcases hbegins with hbegins | ⟨hsigned, he⟩
  · exact hb hbegins
  · rw [hs he] at hsigned
    cases hsigned

/-! What stops a reader -/

/-- None of some marks follows, and no digit. -/
def Ends (marks : List Char) (rest : List Char) : Prop :=
  ∀ c ∈ (skipBlank rest).head?, c ∉ marks ∧ ¬c.isDigit

/-- What would go on with a step. -/
def stepMarks : List Char := ['[', '(']

/-- What would go on with a path. -/
def pathMarks : List Char := '/' :: stepMarks

/-- No operator of a level follows. -/
def Unjoined (operators : List (String × Operator)) (rest : List Char) : Prop :=
  ∀ m ∈ operators, ¬m.1.toList <+: skipBlank rest

namespace Rank

/-- What follows an operand is nothing that would go on with it. -/
def Stops : Rank → List Char → Prop
  | .path, rest => Ends pathMarks rest
  | .unary, rest => Ends pathMarks rest ∧ Unjoined [("|", .union)] rest
  | .chain operators operand, rest => operand.Stops rest ∧ Unjoined operators rest

/-- Whether a mark neither begins any of some operators nor begins with one. -/
def unlike (operators : List (String × Operator)) (text : List Char) : Bool :=
  operators.all fun m => !m.1.toList.isPrefixOf text && !text.isPrefixOf m.1.toList

/-- Whether a path ends where a mark follows. -/
def endsPath (text : List Char) : Bool :=
  text.head?.any fun c => !pathMarks.contains c && !c.isDigit

/-- Whether an operand stops where a mark follows. -/
def clear : Rank → List Char → Bool
  | .path, text => endsPath text
  | .unary, text => endsPath text && unlike [("|", .union)] text
  | .chain operators operand, text => operand.clear text && unlike operators text

theorem unjoined_of_unlike {operators : List (String × Operator)} {text rest more : List Char}
    (h : unlike operators text) (he : skipBlank rest = text ++ more) : Unjoined operators rest := by
  intro m hm hp
  have hm := List.all_eq_true.mp h m hm
  rw [Bool.and_eq_true, Bool.not_eq_true', Bool.not_eq_true'] at hm
  rw [he] at hp
  rcases List.prefix_or_prefix_of_prefix hp (List.prefix_append text more) with hp | hp
  · rw [List.isPrefixOf_iff_prefix.mpr hp] at hm
    cases hm.1
  · rw [List.isPrefixOf_iff_prefix.mpr hp] at hm
    cases hm.2

theorem ends_of_endsPath {text rest more : List Char} (h : endsPath text)
    (he : skipBlank rest = text ++ more) : Ends pathMarks rest := by
  intro c hc
  cases text with
  | nil => cases h
  | cons d text =>
    rw [he] at hc
    cases hc
    simpa [endsPath] using h

theorem stops_of_clear {rank : Rank} {text rest more : List Char} (h : rank.clear text)
    (he : skipBlank rest = text ++ more) : rank.Stops rest := by
  induction rank with
  | path => exact ends_of_endsPath h he
  | unary =>
    obtain ⟨hpath, hunlike⟩ := Bool.and_eq_true_iff.mp h
    exact ⟨ends_of_endsPath hpath he, unjoined_of_unlike hunlike he⟩
  | chain operators operand ih =>
    obtain ⟨hoperand, hunlike⟩ := Bool.and_eq_true_iff.mp h
    exact ⟨ih hoperand, unjoined_of_unlike hunlike he⟩

/-- An operand stops where an operator of its own level, or of a looser one, follows. -/
def Apart : Rank → Prop
  | .path | .unary => True
  | .chain operators operand => (∀ m ∈ operators, operand.clear m.1.toList) ∧ operand.Apart

theorem apart_union : union.Apart := ⟨by decide, trivial⟩

theorem apart_any : any.Apart :=
  ⟨by decide, by decide, by decide, by decide, by decide, by decide, trivial⟩

theorem clear_nil (rank : Rank) : rank.clear [] = false := by
  induction rank with
  | path | unary => rfl
  | chain operators operand ih => rw [clear, ih, Bool.false_and]

theorem stops_of_nil {rank : Rank} (ha : rank.Apart) {rest : List Char} (h : skipBlank rest = []) :
    rank.Stops rest := by
  have hends : Ends pathMarks rest := by
    intro c hc
    rw [h] at hc
    cases hc
  induction rank with
  | path => exact hends
  | unary =>
    refine ⟨hends, fun m hm hp => ?_⟩
    rw [h, List.prefix_nil] at hp
    cases List.mem_singleton.mp hm
    cases hp
  | chain operators operand ih =>
    refine ⟨ih ha.2, fun m hm hp => ?_⟩
    rw [h, List.prefix_nil] at hp
    have := ha.1 m hm
    rw [hp, clear_nil] at this
    cases this

/-- An expression stops at a closing bracket, at a comma and at the end. -/
theorem stops_any {rest : List Char}
    (h : ∀ c ∈ (skipBlank rest).head?, c ∈ [')', ']', ',']) : any.Stops rest := by
  cases hrest : skipBlank rest with
  | nil => exact stops_of_nil apart_any hrest
  | cons c more =>
    have hclear : ∀ c ∈ [')', ']', ','], any.clear [c] := List.all_eq_true.mp (by decide)
    exact stops_of_clear (hclear c (h c (by rw [hrest]; rfl))) hrest

end Rank

/-- What follows a phrase is nothing that would go on with it. -/
def Part.Stops : Part → List Char → Prop
  | .operand rank, rest => rank.Stops rest
  | .primary, _ => True
  | .arguments, rest | .furtherArguments, rest => ')' ∈ (skipBlank rest).head?
  | .location, rest | .steps, rest => Ends pathMarks rest
  | .step, rest | .predicates, rest => Ends stepMarks rest

theorem Ends.mono {marks more : List Char} (h : ∀ c ∈ marks, c ∈ more) {rest : List Char}
    (he : Ends more rest) : Ends marks rest :=
  fun c hc => ⟨fun hm => (he c hc).1 (h c hm), (he c hc).2⟩

theorem Ends.head?_ne {marks rest : List Char} (h : Ends marks rest) {c : Char} (hc : c ∈ marks) :
    ∀ d ∈ (skipBlank rest).head?, d ≠ c := by
  rintro d hd rfl
  exact (h d hd).1 hc

theorem head?_skipBlank {c : Char} {input : List Char} (h : c ∈ input.head?)
    (hc : ¬Text.isMarkupBlank c) : c ∈ (skipBlank input).head? := by
  obtain ⟨more, rfl⟩ := List.head?_eq_some_iff.mp h
  rw [skipBlank_cons hc]
  rfl

/-- Behind a step other steps may follow, or what stops them. -/
theorem Phrase.ends_steps {more : List Step} {input rest : List Char}
    (h : Phrase .read .steps more input rest) (hr : Ends pathMarks rest) : Ends stepMarks input := by
  cases h with
  | noSteps => exact hr.mono fun c hc => List.mem_cons_of_mem _ hc
  | steps before slash =>
    obtain rfl := before
    obtain ⟨more, rfl⟩ := slash.exists_cons_slash
    rw [Ends, skipBlank_cons (by decide)]
    rintro c ⟨⟩
    decide

theorem Phrase.head?_predicates {predicates : List Expression} {input rest : List Char}
    (h : Phrase .read .predicates predicates input rest) (hr : Ends stepMarks rest) :
    ∀ c ∈ (skipBlank input).head?, c ≠ '(' := by
  cases h with
  | noPredicates => exact hr.head?_ne (by decide)
  | predicates opened =>
    rw [opened]
    rintro c ⟨⟩
    decide

/-! Primary expressions and location paths -/

section
variable {expression : Reader Expression} {input rest : List Char}

theorem number_eq_none (h : ∀ c ∈ input.head?, ¬(c.isDigit ∨ c = '.')) : number input = none := by
  refine Option.eq_none_iff_forall_ne_some.mpr fun (e, rest) hn => ?_
  obtain ⟨c, more, rfl, hc⟩ := (number_eq_some_iff.mp hn).exists_cons
  exact h c rfl hc

theorem literal_eq_none (h : ∀ c ∈ input.head?, ¬(c = '\'' ∨ c = '"')) : literal input = none := by
  refine Option.eq_none_iff_forall_ne_some.mpr fun (e, rest) hl => ?_
  obtain ⟨hquote, -⟩ := literal_eq_some_iff.mp hl
  exact h _ rfl hquote

theorem call_eq_none (h : ∀ c ∈ input.head?, ¬isNameStart c) : call expression input = none := by
  refine Option.eq_none_iff_forall_ne_some.mpr fun (e, rest) hc => ?_
  obtain ⟨whole, base, behind, inner, last, hname, -⟩ := call_eq_some_iff.mp hc
  obtain ⟨c, more, rfl, hstart⟩ := hname.exists_cons
  exact h c rfl hstart

theorem parenthesized_eq_none (h : ∀ c ∈ (skipBlank input).head?, c ≠ '(') :
    parenthesized expression input = none := by
  refine Option.eq_none_iff_forall_ne_some.mpr fun (e, rest) hp => ?_
  obtain ⟨inner, last, behind, hopened, -⟩ := parenthesized_eq_some_iff.mp hp
  exact h '(' (by rw [hopened]; rfl) rfl

theorem Name.unique {whole base rest whole' base' rest' : List Char}
    (h : Name whole base input rest) (h' : Name whole' base' input rest') :
    whole = whole' ∧ rest = rest' := by
  have := (qualifiedName_eq_some_iff.mpr h).symm.trans (qualifiedName_eq_some_iff.mpr h')
  cases this
  exact ⟨rfl, rfl⟩

/-- The first word of a name that begins with a mark, where the mark ends before a character that no
name has. -/
theorem Word.eq_of_mark {w behind text last : List Char} {c : Char} (h : Word w input behind)
    (ht : ∀ d ∈ text, isNameCharacter d) (he : input = text ++ last)
    (hlast : skipBlank last = c :: rest) (hc : ¬isNameCharacter c) : w = text ∧ behind = last := by
  obtain ⟨more, rfl, rfl⟩ := h.run.exists_append ht he
  cases more with
  | nil => exact ⟨by simp, rfl⟩
  | cons d more =>
    have hd := h.run.all d (by simp)
    rw [List.cons_append, skipBlank_cons (not_isMarkupBlank_of_isNameCharacter hd)] at hlast
    cases hlast
    exact absurd hd hc

/-- What begins a step is no call of a function. -/
theorem call_eq_none_of_head {axis : Axis} {test : NodeTest} {behind : List Char}
    (h : Head (· = ·) axis test input behind) (hb : ∀ c ∈ (skipBlank behind).head?, c ≠ '(') :
    call expression input = none := by
  refine Option.eq_none_iff_forall_ne_some.mpr fun (e, rest) hc => ?_
  obtain ⟨whole, base, mid, inner, last, hname, hopened, hkind, -⟩ := call_eq_some_iff.mp hc
  have hnoName {c : Char} {more : List Char} (he : input = c :: more) (hc : ¬isNameStart c) : False := by
    obtain ⟨d, last, hd, hstart⟩ := hname.exists_cons
    cases he.symm.trans hd
    exact hc hstart
  cases h with
  | sign => exact hnoName rfl (by decide)
  | named hnamed before =>
    -- The name of the call begins with that of the axis, behind which there are colons.
    subst before
    cases hname with
    | plain hword =>
      obtain ⟨-, rfl⟩ := hword.eq_of_mark (isNameCharacter_of_axis hnamed) hnamed.eq
        (skipBlank_cons (by decide)) (by decide)
      rw [skipBlank_cons (by decide)] at hopened
      cases hopened
    | prefixed hfirst hsecond =>
      obtain ⟨-, he⟩ := hfirst.eq_of_mark (isNameCharacter_of_axis hnamed) hnamed.eq
        (skipBlank_cons (by decide)) (by decide)
      obtain ⟨c, more, hc, hstart⟩ := hsecond.exists_cons
      cases he
      cases hc
      revert hstart
      decide
  | plain _ tested =>
    cases tested with
    | any => exact hnoName rfl (by decide)
    | kind kind opened =>
      -- The whole name of the call is that of the kind, which no function has.
      have hlookup : ∀ m ∈ kindTests, kindTests.lookup m.1 ≠ none := by decide
      cases hname with
      | plain hword =>
        obtain ⟨rfl, -⟩ := hword.eq_of_mark (isNameCharacter_of_kind kind) kind.eq opened (by decide)
        exact hlookup _ kind.mem (by simpa using hkind)
      | prefixed hfirst =>
        obtain ⟨-, rfl⟩ := hfirst.eq_of_mark (isNameCharacter_of_kind kind) kind.eq opened (by decide)
        rw [skipBlank_cons (by decide)] at opened
        cases opened
    | name name =>
      obtain ⟨-, rfl⟩ := name.unique hname
      exact hb '(' (by rw [hopened]; rfl) rfl

/-- A dot with no digit behind it begins no numeral. -/
theorem number_eq_none_of_dots {text : String} {s : Step} (h : Longest dots text s input rest)
    (hr : ∀ c ∈ rest.head?, ¬c.isDigit) : number input = none := by
  refine Option.eq_none_iff_forall_ne_some.mpr fun (e, last) hn => ?_
  obtain ⟨more, hmore⟩ := h.exists_cons_dot
  have hno {w behind : List Char} (hrun : Run Char.isDigit w input behind) : w = [] := by
    cases w with
    | nil => rfl
    | cons c w =>
      have hc := hrun.all c List.mem_cons_self
      cases hmore.symm.trans hrun.eq
      exact absurd hc (by decide)
  cases number_eq_some_iff.mp hn with
  | whole digits filled => exact filled (hno digits)
  | @pointed w f _ behind _ digits fraction filled =>
    -- No digits stand in front of the point, so there must be some behind it.
    obtain rfl := hno digits
    obtain ⟨c, f, rfl⟩ := List.exists_cons_of_ne_nil fun hf => filled ⟨rfl, hf⟩
    have hc := fraction.all c List.mem_cons_self
    have hinput := digits.eq
    rw [fraction.eq] at hinput
    have hmarks : ∀ m ∈ dots, m.1 = ".." ∨ m.1 = "." := by decide
    rcases hmarks _ h.mem with rfl | rfl
    · cases h.eq.symm.trans hinput
      exact absurd hc (by decide)
    · cases h.eq.symm.trans hinput
      exact hr c rfl hc

theorem primary_eq_none (hn : number (skipBlank input) = none)
    (hl : literal (skipBlank input) = none) (hc : call expression (skipBlank input) = none)
    (hp : parenthesized expression (skipBlank input) = none) : primary expression input = none := by
  refine Option.eq_none_iff_forall_ne_some.mpr fun (e, rest) h => ?_
  obtain ⟨behind, h, -⟩ := primary_eq_some_iff.mp h
  rcases h with h | ⟨-, h | ⟨-, h | ⟨-, h⟩⟩⟩
  · rw [number_eq_some_iff.mpr h] at hn
    cases hn
  · rw [literal_eq_some_iff.mpr h] at hl
    cases hl
  · rw [h] at hc
    cases hc
  · rw [h] at hp
    cases hp

theorem primary_eq_none_of_step {s : Step} (h : Phrase .read .step s input rest)
    (hr : Ends stepMarks rest) : primary expression input = none := by
  cases h with
  | dots dots =>
    obtain ⟨more, rfl⟩ := dots.exists_cons_dot
    have hskip : skipBlank ('.' :: more) = '.' :: more := skipBlank_cons (by decide)
    refine primary_eq_none ?_ ?_ ?_ ?_ <;> rw [hskip]
    · exact number_eq_none_of_dots dots fun c hc hd =>
        (hr c (head?_skipBlank hc (not_isMarkupBlank_of_begins (.inl hd)))).2 hd
    · exact literal_eq_none (by rintro c ⟨⟩; decide)
    · exact call_eq_none (by rintro c ⟨⟩; decide)
    · exact parenthesized_eq_none (by rw [hskip]; rintro c ⟨⟩; decide)
  | full head filtered =>
    obtain ⟨c, more, rfl, hc⟩ := head.exists_cons
    have hno : ¬(c.isDigit ∨ c = '.') ∧ ¬(c = '\'' ∨ c = '"') ∧ c ≠ '(' ∧ ¬Text.isMarkupBlank c := by
      rcases hc with rfl | rfl | hc
      · decide
      · decide
      · refine ⟨?_, ?_, ?_, not_isMarkupBlank_of_isNameCharacter (isNameCharacter_of_isNameStart hc)⟩
        · rintro (hd | rfl)
          · exact not_isDigit_of_isNameStart hc hd
          · exact absurd hc (by decide)
        · rintro (rfl | rfl) <;> exact absurd hc (by decide)
        · rintro rfl
          exact absurd hc (by decide)
    have hskip : skipBlank (c :: more) = c :: more := skipBlank_cons hno.2.2.2
    refine primary_eq_none ?_ ?_ ?_ ?_ <;> rw [hskip]
    · exact number_eq_none (by rintro c ⟨⟩; exact hno.1)
    · exact literal_eq_none (by rintro c ⟨⟩; exact hno.2.1)
    · exact call_eq_none_of_head head (filtered.head?_predicates hr)
    · exact parenthesized_eq_none (by rw [hskip]; rintro c ⟨⟩; exact hno.2.2.1)

theorem primary_eq_none_of_location {e : Expression} (h : Phrase .read .location e input rest)
    (hr : Ends pathMarks rest) : primary expression input = none := by
  have hslash {more : List Char} : primary expression ('/' :: more) = none := by
    have hskip : skipBlank ('/' :: more) = '/' :: more := skipBlank_cons (by decide)
    refine primary_eq_none ?_ ?_ ?_ ?_ <;> rw [hskip]
    · exact number_eq_none (by rintro c ⟨⟩; decide)
    · exact literal_eq_none (by rintro c ⟨⟩; decide)
    · exact call_eq_none (by rintro c ⟨⟩; decide)
    · exact parenthesized_eq_none (by rw [hskip]; rintro c ⟨⟩; decide)
  cases h with
  | relative before step further =>
    subst before
    exact primary_eq_none_of_step step (further.ends_steps hr)
  | root before slash | absolute before slash =>
    subst before
    obtain ⟨more, rfl⟩ := slash.exists_cons_slash
    exact hslash

end

/-! Brackets and commas -/

/-- No expression begins with a closing bracket. -/
theorem expression_eq_none {input : List Char} (h : ')' ∈ (skipBlank input).head?) (depth : Nat) :
    expression depth input = none :=
  Option.eq_none_iff_forall_ne_some.mpr fun _ he =>
    (sound_expression depth he).head?_ne (c := ')') (by decide) (by decide) ')' h rfl

/-- Behind an argument there is a comma or a closing bracket. -/
theorem Phrase.stops_further {more : List Expression} {input rest : List Char}
    (h : Phrase .read .furtherArguments more input rest) (hr : ')' ∈ (skipBlank rest).head?) :
    Rank.any.Stops input := by
  refine Rank.stops_any fun c hc => ?_
  cases h with
  | noFurther =>
    cases hr.symm.trans hc
    decide
  | further comma =>
    rw [comma] at hc
    cases hc
    decide

theorem stops_any_of_closed {c : Char} {last rest : List Char} (h : skipBlank last = c :: rest)
    (hc : c ∈ [')', ']', ',']) : Rank.any.Stops last :=
  Rank.stops_any fun d hd => by
    rw [h] at hd
    cases hd
    exact hc

theorem furtherArgument_eq_none {expression : Reader Expression} {input : List Char}
    (h : ')' ∈ (skipBlank input).head?) : furtherArgument expression input = none := by
  refine Option.eq_none_iff_forall_ne_some.mpr fun (e, rest) hf => ?_
  obtain ⟨inner, hcomma, -⟩ := furtherArgument_eq_some_iff.mp hf
  rw [hcomma] at h
  cases h

theorem predicate_eq_none {expression : Reader Expression} {input : List Char}
    (h : ∀ c ∈ (skipBlank input).head?, c ≠ '[') : predicate expression input = none := by
  refine Option.eq_none_iff_forall_ne_some.mpr fun (e, rest) hf => ?_
  obtain ⟨inner, last, behind, hopened, -⟩ := predicate_eq_some_iff.mp hf
  exact h '[' (by rw [hopened]; rfl) rfl

theorem oneOf_dots_eq_none {input : List Char} (h : ∀ c ∈ input.head?, c ≠ '.') :
    oneOf dots input = none := by
  refine Option.eq_none_iff_forall_ne_some.mpr fun (s, rest) hf => ?_
  obtain ⟨text, hdots⟩ := (oneOf_eq_some_iff ordered_dots).mp hf
  obtain ⟨more, rfl⟩ := hdots.exists_cons_dot
  exact h '.' rfl rfl

theorem Ends.head?_ne_raw {marks rest : List Char} (h : Ends marks rest) {c : Char}
    (hc : c ∈ marks) (hb : ¬Text.isMarkupBlank c) : ∀ d ∈ rest.head?, d ≠ c := by
  rintro d hd rfl
  exact h.head?_ne hc _ (head?_skipBlank hd hb) rfl

theorem number_eq_none_of_quotation {e : Expression} {input rest : List Char}
    (h : Quotation e input rest) : number input = none := by
  cases h with
  | mk isQuote =>
    refine number_eq_none ?_
    rintro c ⟨⟩
    rcases isQuote with rfl | rfl <;> decide

theorem number_eq_none_of_name {whole base input rest : List Char} (h : Name whole base input rest) :
    number input = none := by
  obtain ⟨c, more, rfl, hc⟩ := h.exists_cons
  refine number_eq_none ?_
  rintro _ ⟨⟩ (hd | rfl)
  · exact not_isDigit_of_isNameStart hc hd
  · exact absurd hc (by decide)

theorem literal_eq_none_of_name {whole base input rest : List Char} (h : Name whole base input rest) :
    literal input = none := by
  obtain ⟨c, more, rfl, hc⟩ := h.exists_cons
  refine literal_eq_none ?_
  rintro _ ⟨⟩ (rfl | rfl) <;> exact absurd hc (by decide)

end MarkupGraft.Query
