import MarkupGraft.Host.Passage
import MarkupGraft.Proofs.Markup.Tiling

/-!
How the tokens of a host make its passages. A template or an instance makes one part with all that is
inside it, through the token that closes it; each other token is a part of its own.
-/

namespace MarkupGraft
open Markup

/-! Places outside templates and instances -/

namespace Markup.Token

/-- The tags of the elements that are open behind a token, innermost first. -/
def openBehind (tags : List Token) (t : Token) : List Token :=
  match t.form with
  | .startTag _ _ => t :: tags
  | .endTag _ closes => tags.drop closes
  | _ => tags

/-- Whether a tag begins a template or an instance. -/
def isCutOut (tag : Token) : Bool :=
  tag.opens? = some "template" || tag.opens? = some "template-instance"

end Markup.Token

/-- Whether none of the elements of the given tags is a template or an instance. -/
def AllOutside (tags : List Token) : Prop := ∀ tag ∈ tags, ¬tag.isCutOut

theorem allOutside_nil : AllOutside [] := fun _ h => absurd h List.not_mem_nil

/-- Whether what stands behind a sequence of tokens is inside no template and no instance. -/
def Outside (tokens : List Token) : Prop := AllOutside (tokens.foldl Token.openBehind [])

/-! Parts -/

/-- Tokens up to the one that closes an element, of `depth` elements that are open the outermost, and
what is left from that token on. -/
def splitContent : (depth : Nat) → List Token → List Token × List Token
  | _, [] => ([], [])
  | depth, token :: tokens =>
    if token.depthAfter depth = 0 then ([], token :: tokens)
    else
      let (inside, behind) := splitContent (token.depthAfter depth) tokens
      (token :: inside, behind)

/-- A token, or a whole element that is cut out. The last one may not be closed. -/
structure Part where
  head : Token
  inside : List Token := []
  closing? : Option Token := none

namespace Part

def tokens (p : Part) : List Token := p.head :: (p.inside ++ p.closing?.toList)

/-- The part that begins with a token, and the tokens behind it. -/
def read (token : Token) (behind : List Token) : Part × List Token :=
  match token.form with
  | .startTag _ _ =>
    if token.isCutOut then
      let (inside, rest) := splitContent 1 behind
      (⟨token, inside, rest.head?⟩, rest.tail)
    else (⟨token, [], none⟩, behind)
  | _ => (⟨token, [], none⟩, behind)

end Part

section
variable {depth : Nat} {tags extra tokens inside behind : List Token} {tag token : Token}

theorem splitContent_append (depth : Nat) (tokens : List Token) :
    (splitContent depth tokens).1 ++ (splitContent depth tokens).2 = tokens := by
  induction tokens generalizing depth with
  | nil => rfl
  | cons token tokens ih =>
    rw [splitContent]
    split
    · rfl
    · exact congrArg (token :: ·) (ih _)

/-- What is inside an element can be told from what is before its end. -/
private theorem splitContent_of_closed {closing : Token} {rest : List Token}
    (h : splitContent depth tokens = (inside, closing :: rest)) (others : List Token) :
    splitContent depth (inside ++ closing :: others) = (inside, closing :: others) := by
  induction tokens generalizing depth inside with
  | nil => cases h
  | cons token tokens ih =>
    rw [splitContent] at h
    split at h
    · rename_i hd
      cases h
      rw [List.nil_append, splitContent, if_pos hd]
    · rename_i hd
      obtain ⟨rfl, hbehind⟩ := Prod.mk.inj h
      rw [List.cons_append, splitContent, if_neg hd, ih (Prod.ext rfl hbehind)]

variable (tag tags) in
/-- A token that does not close an element leaves it open, and those around it. -/
private theorem openBehind_of_depthAfter (h : token.depthAfter (extra.length + 1) ≠ 0) :
    ∃ extra', token.openBehind (extra ++ tag :: tags) = extra' ++ tag :: tags ∧
      extra'.length + 1 = token.depthAfter (extra.length + 1) := by
  cases hf : token.form with
  | startTag =>
    simp only [Token.depthAfter, Token.openBehind, hf]
    exact ⟨token :: extra, rfl, rfl⟩
  | endTag name closes =>
    simp only [Token.depthAfter, Token.openBehind, hf] at h ⊢
    refine ⟨extra.drop closes, List.drop_append_of_le_length (by omega), ?_⟩
    rw [List.length_drop]
    omega
  | _ =>
    simp only [Token.depthAfter, Token.openBehind, hf]
    exact ⟨extra, rfl, rfl⟩

variable (tag tags) in
private theorem openBehind_of_closing (h : token.depthAfter (extra.length + 1) = 0) :
    ∃ n, token.openBehind (extra ++ tag :: tags) = tags.drop n := by
  cases hf : token.form with
  | endTag name closes =>
    simp only [Token.depthAfter, Token.openBehind, hf] at h ⊢
    obtain ⟨n, rfl⟩ := Nat.exists_eq_add_of_le (show extra.length + 1 ≤ closes by omega)
    rw [Nat.add_assoc, List.drop_length_add_append, Nat.add_comm 1 n, List.drop_succ_cons]
    exact ⟨n, rfl⟩
  | _ => simp [Token.depthAfter, hf] at h

private theorem openBehind_inside (h : splitContent (extra.length + 1) tokens = (inside, behind)) :
    ∃ extra', inside.foldl Token.openBehind (extra ++ tag :: tags) = extra' ++ tag :: tags ∧
      ∀ closing ∈ behind.head?, closing.depthAfter (extra'.length + 1) = 0 := by
  induction tokens generalizing extra inside with
  | nil =>
    cases h
    exact ⟨extra, rfl, by simp⟩
  | cons token tokens ih =>
    rw [splitContent] at h
    split at h
    · rename_i hd
      cases h
      exact ⟨extra, rfl, by rintro _ ⟨⟩; exact hd⟩
    · rename_i hd
      obtain ⟨rfl, hbehind⟩ := Prod.mk.inj h
      obtain ⟨extra', hopen, hdepth⟩ := openBehind_of_depthAfter tags tag hd
      rw [← hdepth] at hbehind ⊢
      rw [List.foldl_cons, hopen]
      exact ih (Prod.ext rfl hbehind)

end

namespace Part
variable {token : Token} {behind : List Token}

/-- Whether a part reads alike whatever stands behind it, and leaves no template and no instance open. -/
def IsClosed (p : Part) : Prop :=
  (∀ others, read p.head (p.inside ++ p.closing?.toList ++ others) = (p, others)) ∧
    ∀ tags, AllOutside tags → AllOutside (p.tokens.foldl Token.openBehind tags)

theorem tokens_read (token : Token) (behind : List Token) :
    (read token behind).1.head = token ∧
      (read token behind).1.tokens ++ (read token behind).2 = token :: behind := by
  unfold read
  split
  · split
    · refine ⟨rfl, congrArg (token :: ·) ?_⟩
      have happend := splitContent_append 1 behind
      cases hsplit : splitContent 1 behind with
      | mk inside rest =>
        rw [hsplit] at happend
        cases rest <;> simpa using happend
    · exact ⟨rfl, rfl⟩
  · exact ⟨rfl, rfl⟩

theorem length_read (token : Token) (behind : List Token) :
    (read token behind).2.length ≤ behind.length := by
  have hlength := congrArg List.length (tokens_read token behind).2
  rw [tokens, List.cons_append, List.length_cons, List.length_cons, List.length_append] at hlength
  omega

theorem read_element {name : String} {attributes : List Attribute}
    (hf : token.form = .startTag name attributes) (hc : token.isCutOut) (behind : List Token) :
    read token behind = (⟨token, (splitContent 1 behind).1, (splitContent 1 behind).2.head?⟩,
      (splitContent 1 behind).2.tail) := by
  unfold read
  split
  · rw [if_pos hc]
  · rename_i hno
    exact absurd hf (hno name attributes)

theorem read_single
    (h : ∀ name attributes, token.form = .startTag name attributes → ¬token.isCutOut)
    (behind : List Token) : read token behind = (⟨token, [], none⟩, behind) := by
  unfold read
  split
  · rw [if_neg (h _ _ ‹_›)]
  · rfl

private theorem isClosed_single
    (h : ∀ name attributes, token.form = .startTag name attributes → ¬token.isCutOut) :
    (⟨token, [], none⟩ : Part).IsClosed := by
  refine ⟨read_single h, fun tags htags => ?_⟩
  change AllOutside (token.openBehind tags)
  cases hf : token.form with
  | startTag name attributes =>
    simp only [Token.openBehind, hf]
    exact List.forall_mem_cons.mpr ⟨h name attributes hf, htags⟩
  | endTag name closes =>
    simp only [Token.openBehind, hf]
    exact fun tag htag => htags tag (List.mem_of_mem_drop htag)
  | _ => simpa only [Token.openBehind, hf] using htags

/-- Inside an element it stays open, and the token behind what is inside closes it. -/
private theorem openBehind_element {name : String} {attributes : List Attribute}
    (hf : token.form = .startTag name attributes) {inside rest : List Token}
    (hsplit : splitContent 1 behind = (inside, rest)) (tags : List Token) :
    ∃ extra, (token :: inside).foldl Token.openBehind tags = extra ++ token :: tags ∧
      ∀ closing ∈ rest.head?, closing.depthAfter (extra.length + 1) = 0 := by
  have henter : token.openBehind tags = token :: tags := by simp only [Token.openBehind, hf]
  rw [List.foldl_cons, henter]
  exact openBehind_inside (show splitContent (([] : List Token).length + 1) behind = _ from hsplit)

private theorem isClosed_element {name : String} {attributes : List Attribute}
    (hf : token.form = .startTag name attributes) (hc : token.isCutOut)
    {inside rest : List Token} {closing : Token}
    (hsplit : splitContent 1 behind = (inside, closing :: rest)) :
    (⟨token, inside, some closing⟩ : Part).IsClosed := by
  refine ⟨fun others => ?_, fun tags htags => ?_⟩
  · have hclosed := splitContent_of_closed hsplit others
    simp only [Option.toList_some, List.append_assoc, List.singleton_append]
    rw [read_element hf hc, hclosed]
    rfl
  · obtain ⟨extra, hopen, hclosing⟩ := openBehind_element hf hsplit tags
    obtain ⟨n, hdrop⟩ := openBehind_of_closing tags token (hclosing closing rfl)
    have htokens : (tokens ⟨token, inside, some closing⟩).foldl Token.openBehind tags =
        tags.drop n := by
      rw [tokens, ← List.cons_append, List.foldl_append, hopen]
      exact hdrop
    rw [htokens]
    exact fun tag htag => htags tag (List.mem_of_mem_drop htag)

/-- A part is closed, or it is the last one and its element stays open. -/
theorem isClosed_read (token : Token) (behind : List Token) :
    (read token behind).1.IsClosed ∨ (read token behind).2 = [] ∧ token.isCutOut ∧
      ∀ tags, token ∈ (token :: behind).foldl Token.openBehind tags := by
  by_cases hsingle : ∀ name attributes, token.form = .startTag name attributes → ¬token.isCutOut
  · rw [read_single hsingle]
    exact .inl (isClosed_single hsingle)
  · obtain ⟨name, attributes, hf, hc⟩ : ∃ name attributes,
        token.form = .startTag name attributes ∧ token.isCutOut := by
      simpa using hsingle
    rw [read_element hf hc]
    cases hsplit : splitContent 1 behind with
    | mk inside rest =>
      cases rest with
      | nil =>
        have happend := splitContent_append 1 behind
        rw [hsplit, List.append_nil] at happend
        obtain rfl : inside = behind := happend
        refine .inr ⟨rfl, hc, fun tags => ?_⟩
        obtain ⟨extra, hopen, -⟩ := openBehind_element hf hsplit tags
        rw [hopen]
        exact List.mem_append_right _ List.mem_cons_self
      | cons closing rest => exact .inl (isClosed_element hf hc hsplit)

end Part

def parts : List Token → List Part
  | [] => []
  | token :: tokens => (Part.read token tokens).1 :: parts (Part.read token tokens).2
termination_by tokens => tokens.length
decreasing_by exact Nat.lt_succ_of_le (Part.length_read token tokens)

section
variable {tags before tokens : List Token} {ps qs : List Part} {p : Part}

/-- At a place outside templates and instances one part ends and another begins. -/
theorem parts_append (htags : AllOutside tags)
    (h : AllOutside (before.foldl Token.openBehind tags)) (behind : List Token) :
    parts (before ++ behind) = parts before ++ parts behind := by
  fun_induction parts before generalizing tags with
  | case1 => rfl
  | case2 token before ih =>
    obtain ⟨hhead, htokens⟩ := Part.tokens_read token before
    rcases Part.isClosed_read token before with ⟨hclosed, hopen⟩ | ⟨-, hcut, hmem⟩
    · rw [← htokens, List.foldl_append] at h
      rw [Part.tokens, hhead, List.cons_append] at htokens
      have hread := hclosed ((Part.read token before).2 ++ behind)
      rw [hhead, ← List.append_assoc, List.tail_eq_of_cons_eq htokens] at hread
      rw [List.cons_append, parts, hread, ih (hopen tags htags) h]
      rfl
    · -- An element that stays open would be among those that are open at the end.
      exact absurd hcut (h token (hmem tags))

/-- A part begins outside templates and instances, and the parts before it are those of the tokens before
it. -/
theorem exists_of_parts (htags : AllOutside tags) (h : parts tokens = ps ++ p :: qs) :
    ∃ before behind, tokens = before ++ p.head :: behind ∧
      AllOutside (before.foldl Token.openBehind tags) ∧ ps = parts before ∧
      p = (Part.read p.head behind).1 ∧ qs = parts (Part.read p.head behind).2 := by
  fun_induction parts tokens generalizing tags ps with
  | case1 => simp at h
  | case2 token tokens ih =>
    obtain ⟨hhead, htokens⟩ := Part.tokens_read token tokens
    cases ps with
    | nil =>
      obtain ⟨rfl, rfl⟩ := List.cons.inj h
      rw [hhead]
      exact ⟨[], tokens, rfl, htags, by rw [parts], rfl, rfl⟩
    | cons q ps =>
      obtain ⟨rfl, hparts⟩ := List.cons.inj h
      rcases Part.isClosed_read token tokens with ⟨hclosed, hopen⟩ | ⟨hnil, -⟩
      · obtain ⟨before, behind, hrest, hout, rfl, hp, hqs⟩ := ih (hopen tags htags) hparts
        refine ⟨(Part.read token tokens).1.tokens ++ before, behind, ?_, ?_, ?_, hp, hqs⟩
        · rw [List.append_assoc, ← hrest, htokens]
        · rwa [List.foldl_append]
        · -- The first part ends within the tokens before the one in question.
          rw [Part.tokens, List.cons_append, parts, hclosed before]
      · rw [hnil, parts] at hparts
        exact absurd hparts.symm (List.append_ne_nil_of_right_ne_nil ps (List.cons_ne_nil p qs))

end

/-! Passages -/

namespace Part

/-- What is written inside an element that is cut out. -/
def content (p : Part) (input : Bytes) : Bytes :=
  match p.head.form with
  | .startTag _ _ =>
    (Span.mk p.head.span.stop ((p.closing?.map (·.span.start)).getD input.length)).cut input
  | _ => []

/-- From the first token through the last. -/
def span (p : Part) : Span :=
  ⟨p.head.span.start, ((p.inside ++ p.closing?.toList).getLastD p.head).span.stop⟩

def passage (p : Part) (input : Bytes) : Passage :=
  ⟨(Passage.kindOf? p.head (p.content input)).getD .verbatim, p.span⟩

theorem stop_of_tile {token : Token} {tokens : List Token} {stop : Nat}
    (h : Span.Tile token.span.stop (tokens.map (·.span)) stop) :
    (tokens.getLastD token).span.stop = stop := by
  induction tokens generalizing token with
  | nil => exact h
  | cons next tokens ih =>
    rw [List.getLastD_cons]
    exact ih h.2.2

end Part

/-- The parts of a sequence of tokens lie side by side as the tokens do. -/
theorem tile_parts {tokens : List Token} {start stop : Nat}
    (h : Span.Tile start (tokens.map (·.span)) stop) :
    Span.Tile start ((parts tokens).map (·.span)) stop := by
  fun_induction parts tokens generalizing start with
  | case1 => exact h
  | case2 token tokens ih =>
    rw [← (Part.tokens_read token tokens).2, List.map_append, Span.tile_append] at h
    obtain ⟨middle, ⟨hstart, hlt, hinside⟩, hrest⟩ := h
    have hstop := Part.stop_of_tile hinside
    have hle := hinside.le
    rw [← hstop] at hrest hle
    exact ⟨hstart, Nat.lt_of_lt_of_le hlt hle, ih hrest⟩

end MarkupGraft
