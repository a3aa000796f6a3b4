import MarkupGraft.Proofs.Query.Acceptance
import MarkupGraft.Proofs.Query.Rendering

/-!
The written form of a tree is read back. It is a phrase of the grammar whatever stands behind it, as
long as that is a blank, a bracket or a comma; only a numeral that ends the whole query loses the
digits behind its point.
-/

namespace MarkupGraft.Query

open Reader

/-! Numerals at the end -/

/-- The number that a numeral denotes when nothing stands behind it. -/
def numberAtEnd (text : List Char) (x : Float) : Float :=
  if text.takeWhile Char.isDigit = [] then x else Decimal.ofDigits (text.takeWhile Char.isDigit) []

section
variable (numeral : Float → List Char)

/-- What is read of the text of an expression when nothing stands behind it. -/
def Expression.cut : Expression → Expression
  | .number x => .number (numberAtEnd (numeral x) x)
  | .binary operator left right =>
    .binary operator left (if operator.precedence + 1 ≤ right.precedence then right.cut else right)
  | .negate e => .negate (if 7 ≤ e.precedence then e.cut else e)
  | e => e

/-- The text of an expression ends with no numeral that has digits on both sides of a point. -/
def Expression.EndsWhole : Expression → Prop
  | .number x => ∀ w f, numeral x = w ++ '.' :: f → w = [] ∨ f = []
  | .binary operator _ right => operator.precedence + 1 ≤ right.precedence → right.EndsWhole
  | .negate e => 7 ≤ e.precedence → e.EndsWhole
  | _ => True

/-- What is read of the text of an expression before the rest of a query. -/
def Expression.before (rest : List Char) (e : Expression) : Expression :=
  if rest = [] then e.cut numeral else e

end

theorem Denotes.numberAtEnd_whole {w : List Char} (h : ∀ c ∈ w, c.isDigit) :
    numberAtEnd w (Decimal.ofDigits w []) = Decimal.ofDigits w [] := by
  have hw : w.takeWhile Char.isDigit = w :=
    Run.takeWhile_eq ⟨(List.append_nil w).symm, h, by simp⟩
  rw [numberAtEnd, hw, ite_self]

theorem Denotes.numberAtEnd_pointed {w f : List Char} (h : ∀ c ∈ w, c.isDigit) :
    numberAtEnd (w ++ '.' :: f) (Decimal.ofDigits w f) =
      Decimal.ofDigits w (if w = [] then f else []) := by
  have hw : (w ++ '.' :: f).takeWhile Char.isDigit = w := Run.takeWhile_eq ⟨rfl, h, by simp⟩
  rw [numberAtEnd, hw]
  split
  · rfl
  · rfl

theorem Expression.cut_eq_self {numeral : Float → List Char} {e : Expression}
    (h : e.Writable numeral) (he : e.EndsWhole numeral) : e.cut numeral = e := by
  induction h with
  | @number x denotes =>
    rw [cut]
    rw [EndsWhole] at he
    generalize numeral x = text at denotes he
    cases denotes with
    | whole digits => rw [Denotes.numberAtEnd_whole digits]
    | @pointed w f digits =>
      rw [Denotes.numberAtEnd_pointed digits]
      rcases he w f rfl with rfl | rfl
      · rfl
      · rw [ite_self]
  | @binary operator left right _ _ _ ih =>
    rw [cut]
    split
    · rename_i hle
      rw [ih (he hle)]
    · rfl
  | @negate e _ ih =>
    rw [cut]
    split
    · rename_i hle
      rw [ih (he hle)]
    · rfl
  | _ => rfl

/-! Ranks of operands -/

/-- The rank of the operands that are bound at least as tightly as a precedence says. -/
def Rank.ofPrecedence (p : Nat) : Rank :=
  if 9 ≤ p then .path
  else if p = 8 then .union
  else (binaryLevels.take (7 - p)).foldl (fun operand operators => .chain operators operand) .unary

theorem Rank.ofPrecedence_of_le {p : Nat} (h : 9 ≤ p) : ofPrecedence p = .path := if_pos h

/-- The operators beside an operator, and its operands. -/
theorem Operator.exists_level (operator : Operator) :
    ∃ operators, Rank.ofPrecedence operator.precedence =
        .chain operators (.ofPrecedence (operator.precedence + 1)) ∧
      (operator.spelling, operator) ∈ operators ∧ ∀ m ∈ operators, ' ' ∉ m.1.toList := by
  cases operator <;> exact ⟨_, rfl, by decide, by decide⟩

section
variable {L : Lexis} {e : Expression} {input rest : List Char}

theorem Phrase.loosen {p : Nat} (h : Phrase L (.operand (.ofPrecedence (p + 1))) e input rest) :
    Phrase L (.operand (.ofPrecedence p)) e input rest :=
  match p with
  | 0 => h
  | 1 | 2 | 3 | 4 | 5 | 6 | 8 => .single h
  | 7 => .unsigned h
  | p + 9 => by
    rw [Rank.ofPrecedence_of_le (by omega)] at h ⊢
    exact h

theorem Phrase.of_le {p q : Nat} (hle : p ≤ q)
    (h : Phrase L (.operand (.ofPrecedence q)) e input rest) :
    Phrase L (.operand (.ofPrecedence p)) e input rest := by
  induction hle with
  | refl => exact h
  | step _ ih => exact ih h.loosen

/-- A primary expression is an operand at every place. -/
theorem Phrase.of_primary (h : Phrase L .primary e input rest) (p : Nat) :
    Phrase L (.operand (.ofPrecedence p)) e input rest := by
  have hpath : Phrase L (.operand .path) e input rest := .filtered h .noSteps
  rcases Nat.le_total p 9 with hle | hle
  · exact .of_le hle hpath
  · rwa [Rank.ofPrecedence_of_le hle]

end

/-! What follows -/

/-- What may stand behind an expression. -/
def enders : List Char := [' ', ')', ']', ',']

/-- Nothing follows, or one of some marks. -/
def Follows (marks rest : List Char) : Prop := ∀ c ∈ rest.head?, c ∈ marks

theorem follows_cons {marks rest : List Char} {c : Char} (h : c ∈ marks) :
    Follows marks (c :: rest) := by
  rintro d ⟨⟩
  exact h

theorem Follows.cons {marks rest : List Char} (h : Follows marks rest) (c : Char) :
    Follows (c :: marks) rest := fun d hd => List.mem_cons_of_mem c (h d hd)

/-- What is left is what follows, perhaps without the blanks in front. -/
def Trails (last rest : List Char) : Prop := last = rest ∨ last = skipBlank rest

namespace Trails
variable {input last rest : List Char}

theorem skipBlank_eq (h : Trails last rest) : skipBlank last = skipBlank rest := by
  rcases h with rfl | rfl
  · rfl
  · exact skipBlank_skipBlank rest

theorem eq_cons {c : Char} (h : Trails last (c :: rest)) (hc : ¬Text.isMarkupBlank c) :
    last = c :: rest := by
  rcases h with rfl | rfl
  · rfl
  · exact skipBlank_cons hc

theorem skipBlank_eq_cons {c : Char} (h : Trails last (c :: rest)) (hc : ¬Text.isMarkupBlank c) :
    skipBlank last = c :: rest := by
  rw [h.eq_cons hc, skipBlank_cons hc]

theorem refl (rest : List Char) : Trails rest rest := .inl rfl

end Trails

/-! Words -/

section
variable {rest : List Char}

theorem Denotes.numeral {text : List Char} {x : Float} (h : Denotes text x)
    (hr : ∀ c ∈ rest.head?, ¬c.isDigit ∧ c ≠ '.') :
    Numeral (.number (if rest = [] then numberAtEnd text x else x)) (text ++ rest) rest := by
  cases h with
  | whole digits filled =>
    rw [numberAtEnd_whole digits, ite_self]
    exact .whole ⟨rfl, digits, fun c hc => (hr c hc).1⟩ filled fun c hc => (hr c hc).2
  | @pointed w f digits fraction filled =>
    have hnumber : (if rest = [] then Decimal.ofDigits w (if w = [] then f else [])
        else Decimal.ofDigits w f) = Decimal.ofDigits w (if rest = [] ∧ w ≠ [] then [] else f) := by
      by_cases hrest : rest = [] <;> by_cases hw : w = [] <;> simp [hrest, hw]
    rw [numberAtEnd_pointed digits, hnumber, List.append_assoc]
    exact .pointed ⟨rfl, digits, by simp⟩ ⟨rfl, fraction, fun c hc => (hr c hc).1⟩ filled

theorem IsWord.name {text : List Char} (h : IsWord text)
    (hr : ∀ c ∈ rest.head?, ¬isNameCharacter c ∧ c ≠ ':') : Name text text (text ++ rest) rest :=
  .plain ⟨⟨rfl, h.all, fun c hc => (hr c hc).1⟩, h.start⟩ fun behind he =>
    absurd rfl (hr ':' (by rw [he]; rfl)).2

theorem IsName.name {text : List Char} (h : IsName text)
    (hr : ∀ c ∈ rest.head?, ¬isNameCharacter c ∧ c ≠ ':') :
    ∃ base, Name text base (text ++ rest) rest := by
  cases h with
  | plain word => exact ⟨_, word.name hr⟩
  | @prefixed p w first second =>
    have hsecond : Word w (w ++ rest) rest :=
      ⟨⟨rfl, second.all, fun c hc => (hr c hc).1⟩, second.start⟩
    refine ⟨w, .prefixed ⟨⟨by simp, first.all, ?_⟩, first.start⟩ hsecond⟩
    rintro c ⟨⟩
    decide

theorem longest_slash (h : ∀ c ∈ rest.head?, c ≠ '/') :
    Longest slashes "/" [] ('/' :: rest) rest := by
  refine ⟨by simp [slashes], rfl, fun m hm hp => ?_⟩
  have hm : m = ("//", [.anyNode .descendantOrSelf]) ∨ m = ("/", []) := by simpa [slashes] using hm
  rcases hm with rfl | rfl
  · obtain ⟨more, hmore⟩ := hp
    cases hmore
    exact absurd rfl (h '/' rfl)
  · rfl

theorem NodeTest.Writable.test {test : NodeTest} (h : test.Writable)
    (hr : ∀ c ∈ rest.head?, ¬isNameCharacter c ∧ c ≠ ':') :
    Test test (test.spelling.toList ++ rest) rest := by
  have hkind {kind : String} {test : NodeTest} (hm : (kind, test) ∈ kindTests)
      (ht : test.spelling.toList = kind.toList ++ ['(', ')']) :
      Test test (test.spelling.toList ++ rest) rest := by
    rw [ht, List.append_assoc]
    exact .kind (.of_mem (by decide) hm) (skipBlank_cons (by decide)) (skipBlank_cons (by decide))
  cases test with
  | name base =>
    have hname := Test.name (IsWord.name h hr)
    rwa [String.ofList_toList] at hname
  | any => exact .any
  | text => exact hkind (show ("text", _) ∈ kindTests by decide) (by decide)
  | node => exact hkind (show ("node", _) ∈ kindTests by decide) (by decide)
  | comment => exact hkind (show ("comment", _) ∈ kindTests by decide) (by decide)
  | instruction =>
    exact hkind (show ("processing-instruction", _) ∈ kindTests by decide) (by decide)

theorem not_isNameCharacter_of_follows (h : Follows ('[' :: '/' :: enders) rest) :
    ∀ c ∈ rest.head?, ¬isNameCharacter c ∧ c ≠ ':' := by
  have hmarks : ∀ c ∈ '[' :: '/' :: enders, ¬isNameCharacter c ∧ c ≠ ':' :=
    List.all_iff_forall_prop.mp (by decide)
  exact fun c hc => hmarks c (h c hc)

theorem not_isDigit_of_follows (h : Follows ('/' :: enders) rest) :
    ∀ c ∈ rest.head?, ¬c.isDigit ∧ c ≠ '.' := by
  have hmarks : ∀ c ∈ '/' :: enders, ¬c.isDigit ∧ c ≠ '.' :=
    List.all_iff_forall_prop.mp (by decide)
  exact fun c hc => hmarks c (h c hc)

end

theorem Step.head?_text_append (numeral : Float → List Char) (s : Step) (rest : List Char) :
    ∀ c ∈ (s.text numeral ++ rest).head?, c ≠ '/' := by
  obtain ⟨axis, test, predicates⟩ := s
  cases axis <;> exact fun c hc => by cases hc; decide

/-! Expressions -/

section
variable {numeral : Float → List Char} {e : Expression}

theorem Expression.before_cons (c : Char) (rest : List Char) : e.before numeral (c :: rest) = e :=
  if_neg (List.cons_ne_nil c rest)

/-- The text of an expression is a phrase, whatever stands behind it. -/
structure Expression.Reads (numeral : Float → List Char) (e : Expression) : Prop where
  trimmed : Trimmed (e.text numeral)
  operand (rest : List Char) (hr : Follows enders rest) : ∃ last, Trails last rest ∧
    Phrase .read (.operand (.ofPrecedence e.precedence)) (e.before numeral rest)
      (e.text numeral ++ rest) last
  primary (rest : List Char) (hp : 10 ≤ e.precedence) (hr : Follows ('/' :: enders) rest) :
    Phrase .read .primary (e.before numeral rest) (e.text numeral ++ rest) (skipBlank rest)

namespace Expression.Reads

/-- An expression between other tokens is read as itself. -/
theorem inside (h : e.Reads numeral) {c : Char} {rest : List Char} (hc : c ∈ enders) :
    ∃ last, Trails last (c :: rest) ∧
      Phrase .read (.operand .any) e (skipBlank (e.text numeral ++ c :: rest)) last := by
  obtain ⟨last, hlast, hp⟩ := h.operand (c :: rest) (follows_cons hc)
  rw [before_cons] at hp
  rw [h.trimmed.skipBlank_append]
  exact ⟨last, hlast, hp.of_le (Nat.zero_le _)⟩

/-- In brackets an expression is a primary one. -/
theorem enclosed (h : e.Reads numeral) (rest : List Char) :
    Phrase .read .primary e ('(' :: (e.text numeral ++ [')']) ++ rest) (skipBlank rest) := by
  obtain ⟨last, hlast, hp⟩ := h.inside (show ')' ∈ enders by decide)
  rw [List.cons_append, List.append_assoc, List.singleton_append]
  exact .parenthesized (skipBlank_cons (by decide)) hp (hlast.skipBlank_eq_cons (by decide))

/-- At its place an operand is read as itself, in brackets where it needs them. -/
theorem placed (h : e.Reads numeral) (least : Nat) (rest : List Char)
    (hr : Follows enders rest) : ∃ last, Trails last rest ∧
      Phrase .read (.operand (.ofPrecedence least))
        (if least ≤ e.precedence then e.before numeral rest else e)
        (operandText least e (e.text numeral) ++ rest) last := by
  rw [operandText]
  split
  · rename_i hle
    obtain ⟨last, hlast, hp⟩ := h.operand rest hr
    exact ⟨last, hlast, hp.of_le hle⟩
  · exact ⟨skipBlank rest, .inr rfl, (h.enclosed rest).of_primary least⟩

/-- An expression at the head of a path. -/
theorem head (h : e.Reads numeral) (rest : List Char) :
    Phrase .read .primary e (operandText 10 e (e.text numeral) ++ '/' :: rest) ('/' :: rest) := by
  have hslash : skipBlank ('/' :: rest) = '/' :: rest := skipBlank_cons (by decide)
  rw [operandText]
  split
  · rename_i hle
    have hp := h.primary ('/' :: rest) hle (follows_cons (by decide))
    rwa [before_cons, hslash] at hp
  · have hp := h.enclosed ('/' :: rest)
    rwa [hslash] at hp

theorem of_primary (ht : Trimmed (e.text numeral)) (hp : e.precedence = 10)
    (h : ∀ rest, Follows ('/' :: enders) rest →
      Phrase .read .primary (e.before numeral rest) (e.text numeral ++ rest) (skipBlank rest)) :
    e.Reads numeral where
  trimmed := ht
  operand rest hr := by
    rw [hp]
    exact ⟨_, .inr rfl, (h rest (hr.cons '/')).of_primary 10⟩
  primary rest _ hr := h rest hr

theorem of_operand (ht : Trimmed (e.text numeral)) (hp : e.precedence < 10)
    (h : ∀ rest, Follows enders rest → ∃ last, Trails last rest ∧
      Phrase .read (.operand (.ofPrecedence e.precedence)) (e.before numeral rest)
        (e.text numeral ++ rest) last) : e.Reads numeral where
  trimmed := ht
  operand := h
  primary _ hle := absurd hle (Nat.not_le_of_lt hp)

theorem literal {value : String} (h : ¬('\'' ∈ value.toList ∧ '"' ∈ value.toList))
    (ht : Trimmed ((literal value).text numeral)) : (Expression.literal value).Reads numeral := by
  refine .of_primary ht rfl fun rest _ => ?_
  have hbefore : (Expression.literal value).before numeral rest = .literal value := ite_self _
  have hquote : (quoteFor value.toList = '\'' ∨ quoteFor value.toList = '"') ∧
      quoteFor value.toList ∉ value.toList := by
    rw [quoteFor]
    split
    · rename_i hsingle
      exact ⟨.inr rfl, fun hdouble => h ⟨hsingle, hdouble⟩⟩
    · rename_i hsingle
      exact ⟨.inl rfl, hsingle⟩
  have hquotation :
      Quotation (.literal value) ((Expression.literal value).text numeral ++ rest) rest := by
    have hmk : Quotation _ (_ :: (value.toList ++ _ :: rest)) rest := .mk hquote.1 hquote.2
    simpa [text] using hmk
  rw [hbefore]
  rw [← ht.skipBlank_append] at hquotation
  exact .literal hquotation

theorem number {x : Float} (h : Denotes (numeral x) x) : (Expression.number x).Reads numeral := by
  refine .of_primary h.trimmed rfl fun rest hr => ?_
  have hbefore : (Expression.number x).before numeral rest =
      .number (if rest = [] then numberAtEnd (numeral x) x else x) := by
    rw [before, cut]
    split <;> rfl
  have hnumeral := h.numeral (not_isDigit_of_follows hr)
  rw [hbefore]
  rw [← h.trimmed.skipBlank_append] at hnumeral
  exact .number hnumeral

theorem exists_cons_furtherText (numeral : Float → List Char) (arguments : List Expression)
    (rest : List Char) : ∃ c behind, c ∈ enders ∧
      furtherText numeral arguments ++ ')' :: rest = c :: behind := by
  cases arguments with
  | nil => exact ⟨')', rest, by decide, rfl⟩
  | cons => exact ⟨',', _, by decide, rfl⟩

theorem further {arguments : List Expression} (h : ∀ e ∈ arguments, e.Reads numeral)
    {input rest : List Char} (hi : Trails input (furtherText numeral arguments ++ ')' :: rest)) :
    ∃ last, Trails last (')' :: rest) ∧ Phrase .read .furtherArguments arguments input last := by
  induction arguments generalizing input with
  | nil => exact ⟨input, hi, .noFurther⟩
  | cons e more ih =>
    obtain ⟨he, hmore⟩ := List.forall_mem_cons.mp h
    obtain ⟨c, behind, hc, hbehind⟩ := exists_cons_furtherText numeral more rest
    obtain ⟨mid, hmid, hnext⟩ := he.inside hc
    rw [← hbehind] at hmid hnext
    obtain ⟨last, hlast, hfurther⟩ := ih hmore hmid
    rw [furtherText, List.cons_append, List.cons_append, List.append_assoc] at hi
    exact ⟨last, hlast, .further (hi.skipBlank_eq_cons (by decide)) hnext hfurther⟩

theorem arguments {arguments : List Expression} (h : ∀ e ∈ arguments, e.Reads numeral)
    (rest : List Char) : ∃ last, Trails last (')' :: rest) ∧
      Phrase .read .arguments arguments (argumentsText numeral arguments ++ ')' :: rest) last := by
  cases arguments with
  | nil => exact ⟨_, .refl _, .noArguments⟩
  | cons e more =>
    obtain ⟨he, hmore⟩ := List.forall_mem_cons.mp h
    obtain ⟨c, behind, hc, hbehind⟩ := exists_cons_furtherText numeral more rest
    obtain ⟨mid, hmid, hfirst⟩ := he.inside hc
    rw [he.trimmed.skipBlank_append] at hfirst
    rw [← hbehind] at hmid hfirst
    obtain ⟨last, hlast, hfurther⟩ := Reads.further hmore hmid
    rw [argumentsText, List.append_assoc]
    exact ⟨last, hlast, .arguments hfirst hfurther⟩

theorem call {function : String} {arguments : List Expression} (hname : IsName function.toList)
    (hkind : kindTests.lookup function = none) (h : ∀ e ∈ arguments, e.Reads numeral)
    (ht : Trimmed ((Expression.call function arguments).text numeral)) :
    (Expression.call function arguments).Reads numeral := by
  refine .of_primary ht rfl fun rest _ => ?_
  have hbefore : (Expression.call function arguments).before numeral rest =
    .call function arguments := ite_self _
  obtain ⟨last, hlast, hnested⟩ := Reads.arguments h rest
  have hmark : Follows ['('] ('(' :: (argumentsText numeral arguments ++ ')' :: rest)) :=
    follows_cons List.mem_cons_self
  obtain ⟨base, hword⟩ := hname.name fun c hc => by
    obtain rfl := List.mem_singleton.mp (hmark c hc)
    decide
  have htext : skipBlank ((Expression.call function arguments).text numeral ++ rest) =
      function.toList ++ '(' :: (argumentsText numeral arguments ++ ')' :: rest) := by
    rw [ht.skipBlank_append]
    simp [text]
  rw [← htext] at hword
  have hcall := Phrase.call hword (by rwa [String.ofList_toList]) (skipBlank_cons (by decide))
    hnested (hlast.skipBlank_eq_cons (by decide))
  rw [String.ofList_toList] at hcall
  rwa [hbefore]

theorem predicates {predicates : List Expression} (h : ∀ e ∈ predicates, e.Reads numeral)
    {input rest : List Char} (hi : Trails input (predicatesText numeral predicates ++ rest)) :
    ∃ last, Trails last rest ∧ Phrase .read .predicates predicates input last := by
  induction predicates generalizing input with
  | nil => exact ⟨input, hi, .noPredicates⟩
  | cons e more ih =>
    obtain ⟨he, hmore⟩ := List.forall_mem_cons.mp h
    obtain ⟨mid, hmid, hnested⟩ := he.inside (show ']' ∈ enders by decide)
    obtain ⟨last, hlast, hfurther⟩ := ih hmore (.inr rfl)
    rw [predicatesText, List.cons_append, List.append_assoc] at hi
    exact ⟨last, hlast, .predicates (hi.skipBlank_eq_cons (by decide)) hnested
      (hmid.skipBlank_eq_cons (by decide)) hfurther⟩

theorem step {s : Step} (ht : s.test.Writable) (h : ∀ e ∈ s.predicates, e.Reads numeral)
    {rest : List Char} (hr : Follows ('/' :: enders) rest) :
    ∃ last, Trails last rest ∧ Phrase .read .step s (s.text numeral ++ rest) last := by
  obtain ⟨axis, test, predicates⟩ := s
  obtain ⟨last, hlast, hfiltered⟩ :=
    Reads.predicates h (.refl (predicatesText numeral predicates ++ rest))
  have hbehind : Follows ('[' :: '/' :: enders) (predicatesText numeral predicates ++ rest) := by
    cases predicates with
    | nil => exact hr.cons '['
    | cons => exact follows_cons List.mem_cons_self
  have htest := NodeTest.Writable.test ht (not_isNameCharacter_of_follows hbehind)
  have haxis : (axis.spelling, axis) ∈ axisNames := by cases axis <;> decide
  refine ⟨last, hlast, ?_⟩
  rw [Step.text]
  simp only [List.append_assoc, List.cons_append]
  exact .full (.named (longest_axis haxis) rfl rfl htest) hfiltered

theorem follows_stepsText {rest : List Char} (hr : Follows enders rest) (steps : List Step) :
    Follows ('/' :: enders) (stepsText numeral steps ++ rest) := by
  cases steps with
  | nil => exact hr.cons '/'
  | cons => exact follows_cons List.mem_cons_self

theorem steps {steps : List Step} (ht : ∀ s ∈ steps, s.test.Writable)
    (h : ∀ s ∈ steps, ∀ e ∈ s.predicates, e.Reads numeral) {input rest : List Char}
    (hr : Follows enders rest) (hi : Trails input (stepsText numeral steps ++ rest)) :
    ∃ last, Trails last rest ∧ Phrase .read .steps steps input last := by
  induction steps generalizing input with
  | nil => exact ⟨input, hi, .noSteps⟩
  | cons s more ih =>
    obtain ⟨hs, hmore⟩ := List.forall_mem_cons.mp h
    obtain ⟨hts, htmore⟩ := List.forall_mem_cons.mp ht
    obtain ⟨mid, hmid, hstep⟩ := Reads.step hts hs (follows_stepsText hr more)
    obtain ⟨last, hlast, hfurther⟩ := ih htmore hmore hmid
    rw [stepsText, List.cons_append, List.append_assoc] at hi
    rw [hi.eq_cons (by decide)]
    have hslash := longest_slash (Step.head?_text_append numeral s (stepsText numeral more ++ rest))
    exact ⟨last, hlast, .steps rfl hslash rfl hstep hfurther⟩

theorem of_path {origin : Origin} {steps : List Step}
    (ht : Trimmed ((Expression.path origin steps).text numeral))
    (h : ∀ rest, Follows enders rest → ∃ last, Trails last rest ∧
      Phrase .read (.operand .path) (.path origin steps)
        ((Expression.path origin steps).text numeral ++ rest) last) :
    (Expression.path origin steps).Reads numeral := by
  refine .of_operand ht (Nat.lt_succ_self 9) fun rest hr => ?_
  have hbefore : (Expression.path origin steps).before numeral rest = .path origin steps :=
    ite_self _
  rw [hbefore]
  exact h rest hr

theorem binary {operator : Operator} {left right : Expression} (hl : left.Reads numeral)
    (hr : right.Reads numeral)
    (ht : Trimmed ((Expression.binary operator left right).text numeral)) :
    (Expression.binary operator left right).Reads numeral := by
  have hprecedence : operator.precedence < 10 := by cases operator <;> decide
  refine .of_operand ht hprecedence fun rest hrest => ?_
  obtain ⟨operators, hlevel, hmem, hblank⟩ := operator.exists_level
  obtain ⟨last, hlast, hsecond⟩ := hr.placed (operator.precedence + 1) rest hrest
  have hmark : Trimmed operator.spelling.toList := by
    refine .of_all ?_ (List.all_iff_forall_prop.mp ?_) <;> cases operator <;> decide
  have hplace : Trimmed (operandText (operator.precedence + 1) right (right.text numeral)) :=
    hr.trimmed.operandText _
  have hbefore : (Expression.binary operator left right).before numeral rest =
      .binary operator left (if operator.precedence + 1 ≤ right.precedence then
        right.before numeral rest else right) := by
    rw [before, cut, before]
    split_ifs <;> rfl
  rw [text, hbefore, show (Expression.binary operator left right).precedence = operator.precedence
    from rfl, hlevel]
  generalize operandText (operator.precedence + 1) right (right.text numeral) = second at *
  obtain ⟨mid, hmid, hfirst⟩ := hl.placed operator.precedence
    (' ' :: (operator.spelling.toList ++ ' ' :: (second ++ rest))) (follows_cons (by decide))
  have hmid : skipBlank mid = operator.spelling.toList ++ ' ' :: (second ++ rest) :=
    hmid.skipBlank_eq.trans (hmark.skipBlank_append _)
  -- No operator holds a blank, so none goes on behind the one that is written.
  have hlongest : Longest operators operator.spelling operator (skipBlank mid)
      (' ' :: (second ++ rest)) := by
    rw [hmid]
    exact .of_mem hblank hmem
  rw [before_cons, ite_self, hlevel] at hfirst
  rw [← hplace.skipBlank_append] at hsecond
  rw [List.append_assoc, List.cons_append, List.append_assoc, List.cons_append]
  exact ⟨last, hlast, .joined hfirst hlongest (fun _ => trivial) hsecond⟩

theorem negate (h : e.Reads numeral) (ht : Trimmed (e.negate.text numeral)) :
    e.negate.Reads numeral := by
  refine .of_operand ht (show 7 < 10 by decide) fun rest hr => ?_
  obtain ⟨last, hlast, hp⟩ := h.placed 7 rest hr
  have hbefore : e.negate.before numeral rest =
      .negate (if 7 ≤ e.precedence then e.before numeral rest else e) := by
    rw [before, cut, before]
    split_ifs <;> rfl
  rw [hbefore]
  rw [← (h.trimmed.operandText 7).skipBlank_append] at hp
  exact ⟨last, hlast, .negated (skipBlank_cons (by decide)) hp⟩

/-- The first step of a path, and the others. -/
theorem first {s : Step} {more : List Step} (hs : ∀ t ∈ s :: more, t.test.Writable)
    (h : ∀ t ∈ s :: more, ∀ e ∈ t.predicates, e.Reads numeral) {rest : List Char}
    (hr : Follows enders rest) : ∃ mid last, Trails last rest ∧
      Phrase .read .step s (s.text numeral ++ (stepsText numeral more ++ rest)) mid ∧
      Phrase .read .steps more mid last := by
  obtain ⟨hfirst, hmore⟩ := List.forall_mem_cons.mp h
  obtain ⟨htest, htests⟩ := List.forall_mem_cons.mp hs
  obtain ⟨mid, hmid, hstep⟩ := Reads.step htest hfirst (follows_stepsText hr more)
  obtain ⟨last, hlast, hfurther⟩ := Reads.steps htests hmore hr hmid
  exact ⟨mid, last, hlast, hstep, hfurther⟩

theorem relative {s : Step} {more : List Step} (hs : ∀ t ∈ s :: more, t.test.Writable)
    (h : ∀ t ∈ s :: more, ∀ e ∈ t.predicates, e.Reads numeral)
    (ht : Trimmed ((Expression.path .context (s :: more)).text numeral)) :
    (Expression.path .context (s :: more)).Reads numeral := by
  refine of_path ht fun rest hr => ?_
  obtain ⟨mid, last, hlast, hstep, hfurther⟩ := first hs h hr
  rw [text, List.append_assoc]
  exact ⟨last, hlast, .located (.relative rfl hstep hfurther)⟩

theorem root (ht : Trimmed ((Expression.path .root []).text numeral)) :
    (Expression.path .root []).Reads numeral := by
  refine of_path ht fun rest hr =>
    ⟨rest, .refl rest, .located (.root rfl (longest_slash ?_) ⟨?_, ?_⟩)⟩
  · have hmarks : ∀ c ∈ enders, c ≠ '/' := List.all_iff_forall_prop.mp (by decide)
    exact fun c hc => hmarks c (hr c hc)
  · intro text s behind hdots
    obtain ⟨more, rfl⟩ := hdots.exists_cons_dot
    exact absurd (hr '.' rfl) (by decide)
  · intro axis test behind hhead
    obtain ⟨c, more, rfl, hc⟩ := hhead.exists_cons
    have hmarks : ∀ c ∈ enders, ¬(c = '@' ∨ c = '*' ∨ isNameStart c) :=
      List.all_iff_forall_prop.mp (by decide)
    exact hmarks c (hr c rfl) hc

theorem absolute {s : Step} {more : List Step} (hs : ∀ t ∈ s :: more, t.test.Writable)
    (h : ∀ t ∈ s :: more, ∀ e ∈ t.predicates, e.Reads numeral)
    (ht : Trimmed ((Expression.path .root (s :: more)).text numeral)) :
    (Expression.path .root (s :: more)).Reads numeral := by
  refine of_path ht fun rest hr => ?_
  obtain ⟨mid, last, hlast, hstep, hfurther⟩ := first hs h hr
  have hslash := longest_slash (Step.head?_text_append numeral s (stepsText numeral more ++ rest))
  refine ⟨last, hlast, .located ?_⟩
  have hp := Phrase.absolute rfl hslash rfl hstep hfurther
  simpa [text, stepsText] using hp

theorem filtered {steps : List Step} (he : e.Reads numeral)
    (hpath : ∀ origin steps, e ≠ .path origin steps) (hne : steps ≠ [])
    (hs : ∀ s ∈ steps, s.test.Writable) (h : ∀ s ∈ steps, ∀ e ∈ s.predicates, e.Reads numeral)
    (ht : Trimmed ((Expression.path (.nodes e) steps).text numeral)) :
    (Expression.path (.nodes e) steps).Reads numeral := by
  refine of_path ht fun rest hr => ?_
  obtain ⟨s, more, rfl⟩ := List.exists_cons_of_ne_nil hne
  obtain ⟨last, hlast, hfurther⟩ := Reads.steps hs h hr (.refl _)
  have hextend : extendPath e (s :: more) = .path (.nodes e) (s :: more) := by
    cases e with
    | path origin steps => exact absurd rfl (hpath origin steps)
    | _ => rfl
  have hp := Phrase.filtered (he.head (s.text numeral ++ stepsText numeral more ++ rest)) hfurther
  rw [hextend] at hp
  rw [text, List.append_assoc]
  exact ⟨last, hlast, hp⟩

end Expression.Reads

theorem Expression.Writable.reads (h : e.Writable numeral) : e.Reads numeral := by
  have ht := h.trimmed
  induction h with
  | literal quotable => exact .literal quotable ht
  | number denotes => exact .number denotes
  | @relative steps filled tests predicates ih =>
    obtain ⟨s, more, rfl⟩ := List.exists_cons_of_ne_nil filled
    exact .relative tests (fun s hs e he => ih s hs e he (predicates s hs e he).trimmed) ht
  | @absolute steps tests predicates ih =>
    cases steps with
    | nil => exact .root ht
    | cons s more =>
      exact .absolute tests (fun s hs e he => ih s hs e he (predicates s hs e he).trimmed) ht
  | filtered head noPath filled tests predicates ih ihPredicates =>
    exact .filtered (ih head.trimmed) noPath filled tests
      (fun s hs e he => ihPredicates s hs e he (predicates s hs e he).trimmed) ht
  | call name noKind each ih => exact .call name noKind (fun e he => ih e he (each e he).trimmed) ht
  | binary first second ihFirst ihSecond =>
    exact .binary (ihFirst first.trimmed) (ihSecond second.trimmed) ht
  | negate operand ih => exact .negate (ih operand.trimmed) ht

theorem Expression.Writable.parse_eq (h : e.Writable numeral) :
    parse (String.ofList (e.text numeral)) = .ok (e.cut numeral) := by
  obtain ⟨last, hlast, hp⟩ := h.reads.operand [] (by simp [Follows])
  have hlast : last = [] := hlast.elim id id
  rw [List.append_nil, before, if_pos rfl, hlast] at hp
  rw [parse_eq_ok_iff, h.trimmed.trim_eq, String.toList_ofList]
  exact hp.of_le (Nat.zero_le _)

/-- The text of a tree is read back as the tree, but for a numeral at its end that has digits on
both sides of its point: that one is read without its fraction. -/
theorem parse_text (numeral : Float → List Char) (e : Expression) (h : e.Writable numeral) :
    parse (String.ofList (e.text numeral)) = .ok (e.cut numeral) ∧
    (e.EndsWhole numeral → parse (String.ofList (e.text numeral)) = .ok e) :=
  ⟨h.parse_eq, fun he => by rw [h.parse_eq, Expression.cut_eq_self h he]⟩

/-- A sum with a fraction times a call, over paths with a predicate and without. -/
def mixedTree : Expression :=
  .binary .times
    (.binary .plus (.number (Decimal.ofDigits ['1'] ['5']))
      (.negate (.path .context
        [.mk .child (.name "b") [.binary .less (.literal "it's") (.path .root [])]])))
    (.call "id" [.path (.nodes (.literal "x")) [.mk .attribute .any []],
      .number (Decimal.ofDigits ['1'] ['5'])])

theorem parse_text_mixedTree :
    parse "(1.5 + -child::b[\"it's\" < /]) * id('x'/attribute::*, 1.5)" = .ok mixedTree := by
  have hnumber :
      (Expression.number (Decimal.ofDigits ['1'] ['5'])).Writable fun _ => ['1', '.', '5'] :=
    .number (.pointed (List.forall_mem_singleton.mpr (show '1'.isDigit by decide))
      (List.forall_mem_singleton.mpr (show '5'.isDigit by decide)) (by decide))
  have hstep : IsWord ['b'] := ⟨⟨'b', rfl, by decide⟩, List.all_eq_true.mp (by decide)⟩
  have hfunction : IsWord ['i', 'd'] := ⟨⟨'i', rfl, by decide⟩, List.all_eq_true.mp (by decide)⟩
  have hw : mixedTree.Writable fun _ => ['1', '.', '5'] := by
    refine .binary (.binary hnumber (.negate (.relative (by simp) ?_ ?_)))
      (.call (.plain hfunction) (by decide) ?_)
    · exact List.forall_mem_singleton.mpr hstep
    · exact List.forall_mem_singleton.mpr <| List.forall_mem_singleton.mpr <|
        .binary (.literal (by decide)) (.absolute (List.forall_mem_nil _) (List.forall_mem_nil _))
    · refine List.forall_mem_cons.mpr ⟨?_, List.forall_mem_singleton.mpr hnumber⟩
      exact .filtered (.literal (by decide)) (by simp) (by simp)
        (List.forall_mem_singleton.mpr trivial)
        (List.forall_mem_singleton.mpr (List.forall_mem_nil _))
  exact (parse_text (fun _ => ['1', '.', '5']) mixedTree hw).2 fun _ => trivial

end

/-! What the parser returns -/

theorem Word.isWord {w input rest : List Char} (h : Word w input rest) : IsWord w :=
  ⟨h.start, h.run.all⟩

theorem Name.isName {whole base input rest : List Char} (h : Name whole base input rest) :
    IsName whole ∧ IsWord base := by
  cases h with
  | plain word => exact ⟨.plain word.isWord, word.isWord⟩
  | prefixed first second => exact ⟨.prefixed first.isWord second.isWord, second.isWord⟩

theorem Test.writable {test : NodeTest} {input rest : List Char} (h : Test test input rest) :
    test.Writable := by
  cases h with
  | any => trivial
  | kind kind =>
    have hkinds : ∀ m ∈ kindTests, m.2.Writable := by simp [kindTests, NodeTest.Writable]
    exact hkinds _ kind.mem
  | name name =>
    rw [NodeTest.Writable, String.toList_ofList]
    exact name.isName.2

theorem Head.writable {gap : List Char → List Char → Prop} {axis : Axis} {test : NodeTest}
    {input rest : List Char} (h : Head gap axis test input rest) : test.Writable := by
  cases h with
  | sign _ tested | named _ _ _ tested | plain _ tested => exact tested.writable

theorem Numeral.exists_denotes {e : Expression} {input rest : List Char}
    (h : Numeral e input rest) : ∃ text x, Denotes text x ∧ e = .number x := by
  cases h with
  | whole digits filled => exact ⟨_, _, .whole digits.all filled, rfl⟩
  | @pointed w f _ _ _ digits fraction filled =>
    split
    · rename_i h
      exact ⟨_, _, .whole digits.all h.2, rfl⟩
    · exact ⟨_, _, .pointed digits.all fraction.all filled, rfl⟩

theorem Quotation.writable {numeral : Float → List Char} {e : Expression} {input rest : List Char}
    (h : Quotation e input rest) : e.Writable numeral := by
  cases h with
  | mk isQuote closed =>
    refine .literal fun h => ?_
    rw [String.toList_ofList] at h
    rcases isQuote with rfl | rfl
    · exact closed h.1
    · exact closed h.2

section
variable {numeral : Float → List Char}

def Step.Writable (numeral : Float → List Char) (s : Step) : Prop :=
  s.test.Writable ∧ ∀ e ∈ s.predicates, e.Writable numeral

def Part.Writable (numeral : Float → List Char) : (p : Part) → p.Value → Prop
  | .operand _, e | .primary, e | .location, e => e.Writable numeral
  | .arguments, es | .furtherArguments, es | .predicates, es => ∀ e ∈ es, e.Writable numeral
  | .steps, more => ∀ s ∈ more, s.Writable numeral
  | .step, s => s.Writable numeral

theorem Step.writable_anyNode (axis : Axis) : (Step.anyNode axis).Writable numeral :=
  ⟨trivial, by simp [Step.anyNode, Step.predicates]⟩

theorem Expression.writable_path {origin : Origin} {steps more : List Step}
    (h : (Expression.path origin steps).Writable numeral) (hm : ∀ s ∈ more, s.Writable numeral) :
    (Expression.path origin (steps ++ more)).Writable numeral := by
  have htests {P : Step → Prop} (hs : ∀ s ∈ steps, P s) (hm : ∀ s ∈ more, P s) :
      ∀ s ∈ steps ++ more, P s := List.forall_mem_append.mpr ⟨hs, hm⟩
  cases h with
  | relative filled tests predicates =>
    exact .relative (by simp [filled]) (htests tests fun s hs => (hm s hs).1)
      (htests predicates fun s hs => (hm s hs).2)
  | absolute tests predicates =>
    exact .absolute (htests tests fun s hs => (hm s hs).1)
      (htests predicates fun s hs => (hm s hs).2)
  | filtered head noPath filled tests predicates =>
    exact .filtered head noPath (by simp [filled]) (htests tests fun s hs => (hm s hs).1)
      (htests predicates fun s hs => (hm s hs).2)

theorem Expression.writable_extendPath {e : Expression} {more : List Step}
    (h : e.Writable numeral) (hm : ∀ s ∈ more, s.Writable numeral) :
    (extendPath e more).Writable numeral := by
  cases more with
  | nil => exact h
  | cons s more =>
    have hnodes (hp : ∀ origin steps, e ≠ .path origin steps) :
        (Expression.path (.nodes e) (s :: more)).Writable numeral :=
      .filtered h hp (by simp) (fun s hs => (hm s hs).1) fun s hs => (hm s hs).2
    cases e with
    | path origin steps => exact writable_path h hm
    | _ => exact hnodes (by simp)

theorem Phrase.writable (hn : ∀ {text x}, Denotes text x → Denotes (numeral x) x) {L : Lexis}
    {p : Part} {value : p.Value} {input rest : List Char} (h : Phrase L p value input rest) :
    p.Writable numeral value := by
  have hbetween {text : String} {between : List Step} {s : Step} {more : List Step}
      {start behind : List Char} (slash : Longest slashes text between start behind)
      (step : s.Writable numeral) (further : ∀ t ∈ more, t.Writable numeral) :
      ∀ t ∈ between ++ s :: more, t.Writable numeral := by
    have hslashes : ∀ m ∈ slashes, ∀ s ∈ m.2, s.Writable numeral := by
      simp [slashes, Step.writable_anyNode]
    exact List.forall_mem_append.mpr
      ⟨hslashes _ slash.mem, List.forall_mem_cons.mpr ⟨step, further⟩⟩
  induction h with
  | number numeral =>
    obtain ⟨text, x, hx, rfl⟩ := numeral.exists_denotes
    exact Expression.Writable.number (hn hx)
  | literal quotation => exact quotation.writable
  | call name noKind _ _ _ ih =>
    exact Expression.Writable.call (by simpa using name.isName.1) noKind ih
  | parenthesized _ _ _ ih => exact ih
  | noArguments | noFurther | noPredicates | noSteps => exact List.forall_mem_nil _
  | arguments _ _ first further => exact List.forall_mem_cons.mpr ⟨first, further⟩
  | further _ _ _ next further => exact List.forall_mem_cons.mpr ⟨next, further⟩
  | predicates _ _ _ _ nested further => exact List.forall_mem_cons.mpr ⟨nested, further⟩
  | dots dots =>
    have hdots : ∀ m ∈ Query.dots, m.2.Writable numeral := by
      simp [Query.dots, Step.writable_anyNode]
    exact hdots _ dots.mem
  | full head _ filtered => exact ⟨head.writable, filtered⟩
  | steps _ slash _ _ _ step further => exact hbetween slash step further
  | relative _ _ _ step further =>
    have hm := List.forall_mem_cons.mpr ⟨step, further⟩
    exact Expression.Writable.relative (by simp) (fun s hs => (hm s hs).1) fun s hs => (hm s hs).2
  | root => exact Expression.Writable.absolute (by simp) (by simp)
  | absolute _ slash _ _ _ step further =>
    have hm := hbetween slash step further
    exact Expression.Writable.absolute (fun s hs => (hm s hs).1) fun s hs => (hm s hs).2
  | filtered _ _ primary further => exact Expression.writable_extendPath primary further
  | located _ location => exact location
  | negated _ _ operand => exact Expression.Writable.negate operand
  | unsigned _ operand => exact operand
  | single _ only => exact only
  | joined _ _ _ _ first second => exact Expression.Writable.binary first second

/-- Every tree that the parser returns has a text, if its numbers have one. -/
theorem writable_of_parse (hn : ∀ {text x}, Denotes text x → Denotes (numeral x) x)
    {query : String} {e : Expression} (h : parse query = .ok e) : e.Writable numeral :=
  (parse_eq_ok_iff.mp h).writable hn

/-- A query and the text of its tree mean the same, up to a fraction at the end. -/
theorem parse_text_of_parse (hn : ∀ {text x}, Denotes text x → Denotes (numeral x) x)
    {query : String} {e : Expression} (h : parse query = .ok e) :
    parse (String.ofList (e.text numeral)) = .ok (e.cut numeral) :=
  (writable_of_parse hn h).parse_eq

end

end MarkupGraft.Query
