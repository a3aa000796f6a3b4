import MarkupGraft.Proofs.Host.Expansion

/-!
The templates that are known at a place of a host are, for each name, the last one of that name that
ends before it, of those outside other templates and instances.
-/

namespace MarkupGraft
open Markup

section
variable {front before mid behind tokens : List Token} {tag definition : Token} {host : Bytes}
  {name : String} {stop : Nat}

/-! Places -/

/-- The parts up to a place outside templates and instances, of which one begins at another such place. -/
theorem parts_between (hf : Outside front) (d : Token) (rest : List Token) :
    parts (front ++ d :: rest) =
      parts front ++ (Part.read d rest).1 :: parts (Part.read d rest).2 := by
  rw [parts_append allOutside_nil hf, parts]

/-- A part that ends before a place outside templates and instances can be read from what stands before
that place. -/
theorem read_between (hf : Outside front) (hb : Outside (front ++ definition :: mid))
    (others : List Token) :
    (Part.read definition (mid ++ others)).1 = (Part.read definition mid).1 ∧
      parts (Part.read definition (mid ++ others)).2 =
        parts (Part.read definition mid).2 ++ parts others := by
  have hparts := parts_append allOutside_nil hb others
  rw [List.append_assoc, List.cons_append, parts_between hf, parts_between hf, List.append_assoc,
    List.append_cancel_left_eq, List.cons_append] at hparts
  exact List.cons.inj hparts

/-! Definitions -/

/-- Whether a template known by `name` begins with a tag behind `front`, outside templates and instances,
and ends at `stop` or before. -/
structure Defines (host : Bytes) (tokens : List Token) (name : String) (stop : Nat)
    (front : List Token) (tag : Token) (rest : List Token) : Prop where
  splits : tokens = front ++ tag :: rest
  outside : Outside front
  opens : tag.opens? = some "template"
  named : tag.attribute? "id" = some name
  ends : ((Part.read tag rest).1.element host).stop ≤ stop

/-- Whether that template is the last one. -/
structure IsLatest (host : Bytes) (tokens : List Token) (name : String) (stop : Nat)
    (front : List Token) (tag : Token) (rest : List Token) : Prop
    extends Defines host tokens name stop front tag rest where
  last : ∀ front' tag' rest', Defines host tokens name stop front' tag' rest' →
    front'.length ≤ front.length

private theorem start_of_tile {α : Type} {span : α → Span} {start : Nat} {front behind : List α}
    {a : α} (h : Span.Tile start ((front ++ a :: behind).map span) stop) :
    start ≤ (span a).start ∧ Span.Tile (span a).start ((a :: behind).map span) stop := by
  rw [List.map_append, Span.tile_append] at h
  obtain ⟨middle, hfront, ha⟩ := h
  obtain rfl : (span a).start = middle := ha.1
  exact ⟨hfront.le, ha⟩

/-- A template that ends before the tag of an instance begins before it. -/
private theorem exists_mid (ht : Span.Tile 0 (tokens.map (·.span)) host.length)
    (htokens : tokens = before ++ tag :: behind) (hi : tag.opens? = some "template-instance")
    {rest : List Token} (h : Defines host tokens name tag.span.start front definition rest) :
    ∃ mid, before = front ++ definition :: mid ∧ rest = mid ++ tag :: behind := by
  have hne : definition ≠ tag := by
    rintro rfl
    exact absurd (h.opens.symm.trans hi) (by decide)
  have hsplit := h.splits.symm.trans htokens
  rcases List.append_eq_append_iff.mp hsplit with ⟨mid, hbefore, hmid⟩ | ⟨mid, hfront, hmid⟩
  · cases mid with
    | nil => exact absurd (List.cons.inj hmid).1 hne
    | cons d mid =>
      obtain ⟨rfl, rfl⟩ := List.cons.inj hmid
      exact ⟨mid, hbefore, rfl⟩
  · cases mid with
    | nil => exact absurd (List.cons.inj hmid).1.symm hne
    | cons t mid =>
      obtain ⟨rfl, rfl⟩ := List.cons.inj hmid
      -- The template would begin behind the tag of the instance and end before it.
      have hcut : definition.isCutOut := by simp [Token.isCutOut, h.opens]
      obtain ⟨-, -, hlt, hbehind⟩ := start_of_tile (htokens ▸ ht)
      obtain ⟨hstart, hdefinition⟩ := start_of_tile hbehind
      have hle := (Part.holdsElement_read hcut hdefinition).le
      have hbegins : ((Part.read definition rest).1.element host).start = definition.span.start :=
        congrArg (·.span.start) (Part.tokens_read definition rest).1
      have hstop := h.ends
      omega

/-- A template that begins before a place outside templates ends before it. -/
private theorem ends_before (ht : Span.Tile 0 (tokens.map (·.span)) host.length)
    (htokens : tokens = before ++ tag :: behind) (hout : Outside before)
    (hbefore : before = front ++ definition :: mid) (hf : Outside front)
    (hd : definition.isCutOut) :
    ((Part.read definition (mid ++ tag :: behind)).1.element host).stop ≤ tag.span.start := by
  subst hbefore
  obtain ⟨hread, hparts⟩ := read_between hf hout (tag :: behind)
  rw [htokens, List.append_assoc, List.cons_append] at ht
  have helement := (Part.holdsElement_read hd (start_of_tile ht).2).stop
  have htiles := tile_parts ht
  rw [parts_between hf, hparts, parts] at htiles
  obtain ⟨-, -, -, hbehind⟩ := start_of_tile htiles
  have hstart := (start_of_tile hbehind).1
  rw [Part.span, (Part.tokens_read tag behind).1] at hstart
  exact Nat.le_trans helement hstart

theorem defines_iff (ht : Span.Tile 0 (tokens.map (·.span)) host.length)
    (htokens : tokens = before ++ tag :: behind) (hout : Outside before)
    (hi : tag.opens? = some "template-instance") {rest : List Token} :
    Defines host tokens name tag.span.start front definition rest ↔
      ∃ mid, before = front ++ definition :: mid ∧ rest = mid ++ tag :: behind ∧ Outside front ∧
        definition.opens? = some "template" ∧ definition.attribute? "id" = some name := by
  constructor
  · intro h
    obtain ⟨mid, hbefore, hrest⟩ := exists_mid ht htokens hi h
    exact ⟨mid, hbefore, hrest, h.outside, h.opens, h.named⟩
  · rintro ⟨mid, hbefore, rfl, hf, hopens, hnamed⟩
    have hcut : definition.isCutOut := by simp [Token.isCutOut, hopens]
    refine ⟨?_, hf, hopens, hnamed, ends_before ht htokens hout hbefore hf hcut⟩
    rw [htokens, hbefore, List.append_assoc, List.cons_append]

/-! The registry -/

namespace Part

/-- Whether a part is a template known by `name`. -/
def IsNamed (name : String) (p : Part) : Prop :=
  p.head.opens? = some "template" ∧ p.head.attribute? "id" = some name

instance (name : String) (p : Part) : Decidable (p.IsNamed name) :=
  inferInstanceAs (Decidable (_ ∧ _))

theorem get?_learn (p : Part) (host : Bytes) (r : Registry) (name : String) :
    (r.learn (p.passage host).kind).get? name =
      if p.IsNamed name then some (p.content host) else r.get? name := by
  have hkind : (p.passage host).kind =
      (Passage.kindOf? p.head (p.content host)).getD .verbatim := rfl
  rw [hkind, Passage.kindOf?]
  by_cases hopens : p.head.opens? = some "template"
  · rw [hopens]
    cases hid : p.head.attribute? "id" with
    | none =>
      rw [if_neg fun h => absurd (hid.symm.trans h.2) (Option.some_ne_none name).symm]
      rfl
    | some other =>
      have hnamed : p.IsNamed name ↔ name = other := by
        rw [IsNamed, hid, Option.some.injEq, and_iff_right hopens, eq_comm]
      simp only [Option.getD_some, Registry.learn, Registry.get?_register, hnamed]
  · rw [if_neg fun h => hopens h.1]
    split
    · exact absurd ‹_› hopens
    · rfl
    · rfl

end Part

/-- The last template of a name is the one that is known by it. -/
theorem get?_learn_all (host : Bytes) (ps : List Part) (r : Registry) (name : String) :
    (∃ qs p qs', ps = qs ++ p :: qs' ∧ p.IsNamed name ∧ (∀ q ∈ qs', ¬q.IsNamed name) ∧
      (ps.foldl (fun r p => r.learn (p.passage host).kind) r).get? name = some (p.content host)) ∨
      (∀ p ∈ ps, ¬p.IsNamed name) ∧
        (ps.foldl (fun r p => r.learn (p.passage host).kind) r).get? name = r.get? name := by
  induction ps generalizing r with
  | nil => exact .inr ⟨by simp, rfl⟩
  | cons p ps ih =>
    rw [List.foldl_cons]
    rcases ih (r.learn (p.passage host).kind) with ⟨qs, q, qs', rfl, hq, hqs', hget⟩ | ⟨hno, hget⟩
    · exact .inl ⟨p :: qs, q, qs', rfl, hq, hqs', hget⟩
    · rw [Part.get?_learn] at hget
      by_cases hp : p.IsNamed name
      · rw [if_pos hp] at hget
        exact .inl ⟨[], p, ps, rfl, hp, hno, hget⟩
      · rw [if_neg hp] at hget
        exact .inr ⟨List.forall_mem_cons.mpr ⟨hp, hno⟩, hget⟩

/-- What is known by a name at the tag of an instance is the content of the last template of that name that
ends before it. -/
theorem get?_definitions (ht : Span.Tile 0 (tokens.map (·.span)) host.length)
    (htokens : tokens = before ++ tag :: behind) (hout : Outside before)
    (hi : tag.opens? = some "template-instance") (name : String) :
    (∃ front definition rest, IsLatest host tokens name tag.span.start front definition rest ∧
      (definitions host before).get? name = some ((Part.read definition rest).1.content host)) ∨
      (∀ front definition rest, ¬Defines host tokens name tag.span.start front definition rest) ∧
        (definitions host before).get? name = none := by
  rcases get?_learn_all host (parts before) {} name with
    ⟨qs, p, qs', hparts, ⟨hopens, hnamed⟩, hlast, hget⟩ | ⟨hno, hget⟩
  · obtain ⟨front, mid, rfl, hf, rfl, hp, rfl⟩ := exists_of_parts allOutside_nil hparts
    refine .inl ⟨front, p.head, mid ++ tag :: behind, ⟨?_, ?_⟩, ?_⟩
    · exact (defines_iff ht htokens hout hi).mpr ⟨mid, rfl, rfl, hf, hopens, hnamed⟩
    · intro front' other rest' hother
      obtain ⟨mid', hbefore, rfl, hf', hopens', hnamed'⟩ := (defines_iff ht htokens hout hi).mp hother
      refine Nat.le_of_not_lt fun hlt => ?_
      obtain ⟨y, rfl, rfl⟩ : ∃ y, front' = front ++ p.head :: y ∧ mid = y ++ other :: mid' := by
        rcases List.append_eq_append_iff.mp hbefore with ⟨y, hfront, hy⟩ | ⟨y, hfront, -⟩
        · cases y with
          | nil => simp [hfront] at hlt
          | cons d y =>
            obtain ⟨rfl, rfl⟩ := List.cons.inj hy
            exact ⟨y, hfront, rfl⟩
        · simp only [hfront, List.length_append] at hlt
          omega
      -- The other template is among the parts behind the last one.
      refine hlast (Part.read other mid').1 ?_ ?_
      · rw [(read_between hf hf' _).2, parts]
        exact List.mem_append_right _ List.mem_cons_self
      · rw [Part.IsNamed, (Part.tokens_read other mid').1]
        exact ⟨hopens', hnamed'⟩
    · rw [(read_between hf hout _).1, ← hp]
      exact hget
  · refine .inr ⟨fun front definition rest hdefines => ?_, hget⟩
    obtain ⟨mid, rfl, -, hf, hopens, hnamed⟩ := (defines_iff ht htokens hout hi).mp hdefines
    refine hno (Part.read definition mid).1 ?_ ?_
    · rw [parts_between hf]
      exact List.mem_append_right _ List.mem_cons_self
    · rw [Part.IsNamed, (Part.tokens_read definition mid).1]
      exact ⟨hopens, hnamed⟩

end
end MarkupGraft
