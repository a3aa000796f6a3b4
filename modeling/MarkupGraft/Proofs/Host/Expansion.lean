import MarkupGraft.Host.Expansion
import MarkupGraft.Proofs.Host.Passage

/-!
Expansion writes templates in place of instances and copies all else. Main statements: a host in which no
instance asks to be expanded stays as it is, and in any other each instance that is expanded is replaced
by its template, as far as its element reaches.
-/

namespace MarkupGraft
open Markup

/-! Replacements -/

/-- What is written in place of a stretch of a sequence. -/
structure Replacement where
  span : Span
  written : Bytes

/-- A sequence from `start` to `stop` with replacements made in it. -/
def splice (bytes : Bytes) (stop : Nat) : (start : Nat) → List Replacement → Bytes
  | start, [] => (Span.mk start stop).cut bytes
  | start, e :: edits =>
    (Span.mk start e.span.start).cut bytes ++ e.written ++ splice bytes stop e.span.stop edits

/-- Whether replacements stand one behind the other between `start` and `stop`. -/
def Apart (stop : Nat) : (start : Nat) → List Replacement → Prop
  | start, [] => start ≤ stop
  | start, e :: edits =>
    start ≤ e.span.start ∧ e.span.start ≤ e.span.stop ∧ Apart stop e.span.stop edits

section
variable {bytes : Bytes} {start middle stop : Nat} {edits : List Replacement}

private theorem Apart.mono (h : Apart stop middle edits) (hle : start ≤ middle) :
    Apart stop start edits := by
  cases edits with
  | nil => exact Nat.le_trans hle h
  | cons e edits => exact ⟨Nat.le_trans hle h.1, h.2⟩

private theorem Apart.le_start (h : Apart stop start edits) : ∀ e ∈ edits, start ≤ e.span.start := by
  induction edits generalizing start with
  | nil => simp
  | cons e edits ih =>
    have hrest := h.2.2.mono (Nat.le_trans h.1 h.2.1)
    exact List.forall_mem_cons.mpr ⟨h.1, ih hrest⟩

private theorem Apart.pairwise (h : Apart stop start edits) :
    edits.Pairwise fun e e' => e.span.stop ≤ e'.span.start := by
  induction edits generalizing start with
  | nil => exact .nil
  | cons e edits ih => exact .cons h.2.2.le_start (ih h.2.2)

private theorem splice_cut (h : Apart stop middle edits) (hle : start ≤ middle) :
    (Span.mk start middle).cut bytes ++ splice bytes stop middle edits =
      splice bytes stop start edits := by
  cases edits with
  | nil => exact Span.cut_append hle h bytes
  | cons e edits =>
    rw [splice, splice, ← List.append_assoc, ← List.append_assoc, Span.cut_append hle h.1]

end

/-! What is written for the parts of a host -/

/-- The templates known behind a sequence of tokens. -/
def definitions (host : Bytes) (tokens : List Token) : Registry :=
  (parts tokens).foldl (fun r p => r.learn (p.passage host).kind) {}

namespace Part

/-- What is written in place of a part, if it is not copied. -/
def written? (p : Part) (env : Environment) (host : Bytes) (r : Registry) : Option Bytes :=
  match (p.passage host).kind with
  | .occurrence i => (i.expand? env host r).toOption.join
  | _ => none

end Part

/-- The replacements for a run of parts, given the templates known before it. -/
def replacements (env : Environment) (host : Bytes) (region : Part → Span) :
    Registry → List Part → List Replacement
  | _, [] => []
  | r, p :: ps =>
    ((p.written? env host r).map (Replacement.mk (region p))).toList ++
      replacements env host region (r.learn (p.passage host).kind) ps

section
variable {env : Environment} {host out : Bytes} {region : Part → Span} {r : Registry} {ps : List Part}
  {start middle stop : Nat}

theorem mem_replacements {e : Replacement} : e ∈ replacements env host region r ps ↔
    ∃ qs p qs', ps = qs ++ p :: qs' ∧ e.span = region p ∧
      p.written? env host (qs.foldl (fun r p => r.learn (p.passage host).kind) r) =
        some e.written := by
  induction ps generalizing r with
  | nil => simp [replacements]
  | cons p ps ih =>
    rw [replacements, List.mem_append, ih, Option.mem_toList, Option.map_eq_some_iff]
    constructor
    · rintro (⟨written, hwritten, rfl⟩ | ⟨qs, q, qs', rfl, he⟩)
      · exact ⟨[], p, ps, rfl, rfl, hwritten⟩
      · exact ⟨p :: qs, q, qs', rfl, he⟩
    · rintro ⟨qs, q, qs', hps, he, hwritten⟩
      cases qs with
      | nil =>
        obtain ⟨rfl, rfl⟩ := List.cons.inj hps
        exact .inl ⟨e.written, hwritten, by rw [← he]⟩
      | cons p' qs =>
        obtain ⟨rfl, hrest⟩ := List.cons.inj hps
        exact .inr ⟨qs, q, qs', hrest, he, hwritten⟩

private theorem replacements_congr {region' : Part → Span}
    (h : ∀ qs p qs', ps = qs ++ p :: qs' →
      (p.written? env host (qs.foldl (fun r p => r.learn (p.passage host).kind) r)).isSome →
      region p = region' p) :
    replacements env host region r ps = replacements env host region' r ps := by
  induction ps generalizing r with
  | nil => rfl
  | cons p ps ih =>
    have hrest := ih (r := r.learn (p.passage host).kind) fun qs q qs' hps =>
      h (p :: qs) q qs' (congrArg (p :: ·) hps)
    rw [replacements, replacements, hrest]
    cases hw : p.written? env host r with
    | none => rfl
    | some written => rw [h [] p ps rfl (Option.isSome_of_eq_some hw)]

/-- Whether regions lie in what is cut out, from its first byte on. -/
def Regions (env : Environment) (host : Bytes) (region : Part → Span) (ps : List Part) : Prop :=
  ∀ p ∈ ps, ∀ r, (p.written? env host r).isSome →
    (region p).start = p.span.start ∧ (region p).start ≤ (region p).stop ∧
      (region p).stop ≤ p.span.stop

private theorem apart_replacements (hregion : Regions env host region ps)
    (ht : Span.Tile start (ps.map (·.span)) stop) :
    Apart stop start (replacements env host region r ps) := by
  induction ps generalizing r start with
  | nil => exact Nat.le_of_eq ht
  | cons p ps ih =>
    obtain ⟨hp, hps⟩ := List.forall_mem_cons.mp hregion
    obtain ⟨rfl, hlt, hrest⟩ := ht
    have hapart := ih (r := r.learn (p.passage host).kind) hps hrest
    rw [replacements]
    cases hw : p.written? env host r with
    | none => exact hapart.mono (Nat.le_of_lt hlt)
    | some written =>
      obtain ⟨hstart, hle, hstop⟩ := hp r (by rw [hw]; rfl)
      exact ⟨Nat.le_of_eq hstart.symm, hle, hapart.mono hstop⟩

theorem regions_span (ht : Span.Tile start (ps.map (·.span)) stop) :
    Regions env host Part.span ps := by
  induction ps generalizing start with
  | nil => exact fun p hp => absurd hp List.not_mem_nil
  | cons p ps ih =>
    obtain ⟨rfl, hlt, hrest⟩ := ht
    exact List.forall_mem_cons.mpr ⟨fun r _ => ⟨rfl, Nat.le_of_lt hlt, Nat.le_refl _⟩, ih hrest⟩

/-- Parts are replaced in the order they are in, each before the next one. -/
theorem pairwise_replacements (ht : Span.Tile start (ps.map (·.span)) stop) :
    (replacements env host Part.span r ps).Pairwise fun e e' => e.span.stop ≤ e'.span.start :=
  (apart_replacements (regions_span ht) ht).pairwise

private theorem eq_of_expand {p : Part} (h : (p.passage host).expand env host r = .ok out) :
    out = (p.written? env host r).getD (p.span.cut host) := by
  unfold Passage.expand at h
  unfold Part.written?
  cases hk : (p.passage host).kind with
  | occurrence i =>
    rw [hk] at h
    obtain ⟨written?, hi, hout⟩ := bind_eq_ok_iff.mp h
    cases hout
    dsimp only
    rw [hi]
    rfl
  | _ =>
    rw [hk] at h
    cases h
    rfl

/-- Parts are copied, or replaced as a whole. -/
theorem eq_splice (h : expandPassages env host r (ps.map (·.passage host)) = .ok out)
    (ht : Span.Tile start (ps.map (·.span)) stop) :
    out = splice host stop start (replacements env host Part.span r ps) := by
  induction ps generalizing r start out with
  | nil =>
    cases h
    obtain rfl : start = stop := ht
    simp [replacements, splice, Span.cut]
  | cons p ps ih =>
    obtain ⟨rfl, hlt, hrest⟩ := ht
    rw [List.map_cons, expandPassages] at h
    obtain ⟨written, hw, h⟩ := bind_eq_ok_iff.mp h
    obtain ⟨others, hr, hout⟩ := bind_eq_ok_iff.mp h
    cases hout
    rw [ih hr hrest, eq_of_expand hw, replacements]
    cases p.written? env host r with
    | none =>
      have hregions : Regions env host Part.span ps := regions_span hrest
      have hapart := apart_replacements (r := r.learn (p.passage host).kind) hregions hrest
      exact splice_cut hapart (Nat.le_of_lt hlt)
    | some written =>
      have hempty : (Span.mk p.span.start p.span.start).cut host = [] := by simp [Span.cut]
      simp [splice, hempty]

/-! Lengths -/

private theorem forall_split {C : List Part → Part → Prop} {q : Part} (hq : C [] q)
    (hps : ∀ qs p qs', ps = qs ++ p :: qs' → C (q :: qs) p) :
    ∀ qs p qs', q :: ps = qs ++ p :: qs' → C qs p := by
  intro qs p qs' h
  cases qs with
  | nil =>
    obtain ⟨rfl, -⟩ := List.cons.inj h
    exact hq
  | cons q' qs =>
    obtain ⟨rfl, hrest⟩ := List.cons.inj h
    exact hps qs p qs' hrest

/-- What smaller regions leave in place makes the outcome longer. -/
private theorem length_splice_replacements (hregion : Regions env host region ps)
    (ht : Span.Tile middle (ps.map (·.span)) stop) (hle : start ≤ middle)
    (hstop : stop ≤ host.length) :
    (splice host stop middle (replacements env host Part.span r ps)).length + (middle - start) ≤
        (splice host stop start (replacements env host region r ps)).length ∧
      ((splice host stop start (replacements env host region r ps)).length ≤
          (splice host stop middle (replacements env host Part.span r ps)).length +
            (middle - start) →
        ∀ qs p qs', ps = qs ++ p :: qs' →
          (p.written? env host (qs.foldl (fun r p => r.learn (p.passage host).kind) r)).isSome →
          region p = p.span) := by
  -- What is copied goes on at start where regions are replaced, and at middle where whole parts are.
  induction ps generalizing r start middle with
  | nil =>
    obtain rfl : middle = stop := ht
    simp only [replacements, splice, Span.length_cut]
    refine ⟨by omega, fun _ => by simp⟩
  | cons p ps ih =>
    obtain ⟨hp, hps⟩ := List.forall_mem_cons.mp hregion
    obtain ⟨rfl, hlt, hrest⟩ :
        p.span.start = middle ∧ middle < p.span.stop ∧ Span.Tile p.span.stop (ps.map Part.span) stop :=
      ht
    have htile := hrest.le
    rw [replacements, replacements]
    cases hw : p.written? env host r with
    | none =>
      have hwhole : Regions env host Part.span ps := regions_span hrest
      have hapart := apart_replacements (r := r.learn (p.passage host).kind) hwhole hrest
      obtain ⟨hmore, hall⟩ := ih (r := r.learn (p.passage host).kind) hps hrest
        (show start ≤ p.span.stop by omega)
      simp only [Option.map_none, Option.toList_none, List.nil_append]
      rw [← splice_cut hapart (Nat.le_of_lt hlt), List.length_append, Span.length_cut]
      refine ⟨by omega, fun hfew => forall_split ?_ (hall (by omega))⟩
      intro hsome
      rw [List.foldl_nil, hw] at hsome
      cases hsome
    | some written =>
      obtain ⟨hstart, hle', hstop'⟩ := hp r (by rw [hw]; rfl)
      obtain ⟨hmore, hall⟩ := ih (r := r.learn (p.passage host).kind) hps hrest hstop'
      simp only [Option.map_some, Option.toList_some, List.singleton_append, splice,
        List.length_append, Span.length_cut]
      refine ⟨by omega, fun hfew => forall_split (fun _ => ?_) (hall (by omega))⟩
      have hend : (region p).stop = p.span.stop := by omega
      calc region p = ⟨(region p).start, (region p).stop⟩ := rfl
        _ = p.span := by rw [hstart, hend]

end

/-! Instances that are expanded -/

namespace Part

theorem written?_eq_some_iff {p : Part} {env : Environment} {host written : Bytes} {r : Registry} :
    p.written? env host r = some written ↔ p.head.opens? = some "template-instance" ∧
      (Instance.ofToken p.head (p.content host)).expand? env host r = .ok (some written) := by
  have hkind : (p.passage host).kind =
      (Passage.kindOf? p.head (p.content host)).getD .verbatim := rfl
  unfold written?
  rw [hkind]
  unfold Passage.kindOf?
  by_cases hi : p.head.opens? = some "template-instance"
  · rw [hi]
    simp only [Option.getD_some, true_and]
    cases (Instance.ofToken p.head (p.content host)).expand? env host r with
    | error => simp [Except.toOption]
    | ok written? => simp [Except.toOption]
  · refine iff_of_false ?_ fun h => hi h.1
    split
    · rename_i hk
      split at hk
      · cases hk
      · exact absurd ‹_› hi
      · cases hk
    · simp

theorem isCutOut_of_opens {tag : Token} (h : tag.opens? = some "template-instance") :
    tag.isCutOut := by
  simp [Token.isCutOut, h]

end Part

/-- Whether the tag of an instance stands behind `before`, outside templates and other instances, and its
template becomes `written`. -/
structure IsExpanded (env : Environment) (host : Bytes) (before : List Token) (tag : Token)
    (behind : List Token) (written : Bytes) : Prop where
  outside : Outside before
  opens : tag.opens? = some "template-instance"
  writes : (Instance.ofToken tag ((Part.read tag behind).1.content host)).expand? env host
    (definitions host before) = .ok (some written)

section
variable {env : Environment} {host out : Bytes} {tokens : List Token}

/-- The parts that are replaced are the instances that are expanded. -/
theorem exists_written_iff {written : Bytes} {C : Part → Prop} :
    (∃ qs p qs', parts tokens = qs ++ p :: qs' ∧ C p ∧
      p.written? env host (qs.foldl (fun r p => r.learn (p.passage host).kind) {}) =
        some written) ↔
    ∃ before tag behind, tokens = before ++ tag :: behind ∧ C (Part.read tag behind).1 ∧
      IsExpanded env host before tag behind written := by
  constructor
  · rintro ⟨qs, p, qs', hparts, hC, hwritten⟩
    obtain ⟨before, behind, htokens, hout, rfl, hp, -⟩ :=
      exists_of_parts allOutside_nil hparts
    obtain ⟨hopens, hwrites⟩ := Part.written?_eq_some_iff.mp hwritten
    refine ⟨before, p.head, behind, htokens, by rwa [← hp], hout, hopens, ?_⟩
    rw [← hp]
    exact hwrites
  · rintro ⟨before, tag, behind, rfl, hC, hout, hopens, hwrites⟩
    have hparts := parts_append allOutside_nil hout
      (tag :: behind)
    rw [parts] at hparts
    refine ⟨_, _, _, hparts, hC, Part.written?_eq_some_iff.mpr ?_⟩
    rw [(Part.tokens_read tag behind).1]
    exact ⟨hopens, hwrites⟩

theorem exists_of_expand (h : expand env host = .ok out) : ∃ tokens,
    tokenize .html host = .ok tokens ∧
      expandPassages env host {} ((parts tokens).map (·.passage host)) = .ok out := by
  unfold expand at h
  cases hp : passages host with
  | mk found error? =>
    rw [hp] at h
    obtain ⟨output, ho, h⟩ := bind_eq_ok_iff.mp h
    cases error? with
    | some => cases h
    | none =>
      cases h
      obtain ⟨tokens, htokens, rfl⟩ := exists_of_passages hp
      exact ⟨tokens, htokens, ho⟩

/-- Nothing can be loaded. -/
def unaided : Environment := { load := fun path => .error (.notFound path), mode := .html }

/-! Hosts that stay as they are -/

/-- Whether the tag of an instance has a condition that does not hold in its source, which is the host
unless the tag names another one. -/
def Declines (env : Environment) (host : Bytes) (tag : Token) : Prop :=
  let path := (tag.attribute? "src").getD ""
  ∃ condition source query, tag.attribute? "if" = some condition ∧ condition ≠ "" ∧
    (if path = "" then env.parse 0 host else env.loadSource 0 path) = .ok source ∧
    Query.compile condition = .ok query ∧
    query.holds source.view source.contextNode = .ok false

private theorem Declines.expand? {tag : Token} (h : Declines env host tag) (mapping written : Bytes)
    (r : Registry) : (Instance.ofToken tag mapping).expand? env host r ≠ .ok (some written) := by
  obtain ⟨condition, source, query, hif, hne, hsource, hquery, hholds⟩ := h
  have hcondition : (Instance.ofToken tag mapping).condition? = some condition := by
    change (tag.attribute? "if").filter (· ≠ "") = some condition
    rw [hif, Option.filter_some, if_pos (decide_eq_true hne)]
  have hwanted : (Instance.ofToken tag mapping).isWanted source = .ok false := by
    simp only [Instance.isWanted, hcondition, hquery, bind, Except.bind, hholds]
    rfl
  have hsource : (if (Instance.ofToken tag mapping).source = "" then env.parse 0 host
      else env.loadSource 0 (Instance.ofToken tag mapping).source) = .ok source := hsource
  intro hsome
  obtain ⟨body, -, hsome⟩ := bind_eq_ok_iff.mp hsome
  by_cases hpath : (Instance.ofToken tag mapping).source = ""
  · rw [if_pos hpath] at hsource
    simp only [if_pos hpath, hsource, hwanted, bind, Except.bind] at hsome
    cases hsome
  · rw [if_neg hpath] at hsource
    simp only [if_neg hpath, hsource, hwanted, bind, Except.bind] at hsome
    cases hsome

/-- A template, and an instance of it that has a condition. -/
def decliningHost : Bytes :=
  Text.encode "<template id='t'>b</template><p>x<template-instance using='t' if='z'/></q>"

/-- A host in which no instance is to be expanded stays as it is, byte for byte, but for what is lost
behind a byte-order mark when no raw text is read. -/
theorem expand_passes_through (h : expand env host = .ok out) : ∃ tokens,
    tokenize .html host = .ok tokens ∧
      ((∀ before tag behind, tokens = before ++ tag :: behind → Outside before →
          tag.opens? = some "template-instance" → Declines env host tag) →
        (out = host ↔ (Reader.startsWithMark host →
          ∃ token ∈ tokens, (token.form.opensRaw? .html).isSome))) := by
  obtain ⟨tokens, htokens, hout⟩ := exists_of_expand h
  refine ⟨tokens, htokens, fun hnone => ?_⟩
  obtain ⟨stop, htiles, hle, hstop⟩ := tile_of_tokenize htokens
  have hedits : replacements env host Part.span {} (parts tokens) = [] := by
    refine List.eq_nil_iff_forall_not_mem.mpr fun e he => ?_
    obtain ⟨qs, p, qs', hparts, -, hwritten⟩ := mem_replacements.mp he
    obtain ⟨before, tag, behind, hsplit, -, hexpanded⟩ :=
      (exists_written_iff (C := fun _ => True)).mp ⟨qs, p, qs', hparts, trivial, hwritten⟩
    exact (hnone before tag behind hsplit hexpanded.outside hexpanded.opens).expand? _ _ _
      hexpanded.writes
  have heq := eq_splice hout (tile_parts htiles)
  rw [hedits, splice, Span.cut, List.drop_zero] at heq
  have heq : out = host.take stop := heq
  rw [heq, ← hstop]
  constructor
  · intro hhost
    have hlength := congrArg List.length hhost
    rw [List.length_take] at hlength
    omega
  · intro hall
    rw [hall, List.take_length]

/-- Nothing in the host is called `z`. -/
theorem expand_passes_through_declining :
    expand unaided decliningHost = .ok decliningHost := by
  have hsome : (expand unaided decliningHost).toOption.isSome := by decide +kernel
  have hinstances : (tokenize .html decliningHost).toOption.map
      (List.filter (·.opens? = some "template-instance")) =
      some [⟨.emptyTag "template-instance" [⟨"using", "t"⟩, ⟨"if", "z"⟩], ⟨33, 70⟩⟩] := by
    decide +kernel
  have hfalse : ((unaided.parse 0 decliningHost).toOption.bind fun source =>
      (Query.compile "z").toOption.bind fun query =>
        (query.holds source.view source.contextNode).toOption) = some false := by
    decide +kernel
  obtain ⟨out, hout⟩ := Option.isSome_iff_exists.mp hsome
  obtain ⟨source, hsource, hfalse⟩ := Option.bind_eq_some_iff.mp hfalse
  obtain ⟨query, hquery, hfalse⟩ := Option.bind_eq_some_iff.mp hfalse
  have hout := eq_ok_of_toOption hout
  obtain ⟨tokens, htokens, hkeeps⟩ := expand_passes_through hout
  rw [htokens] at hinstances
  have hsame := (hkeeps fun before tag behind hsplit _ hopens => ?_).mpr
    (fun hm => absurd hm (by decide))
  · rwa [hsame] at hout
  · have htag : tag ∈ tokens.filter (·.opens? = some "template-instance") := by
      rw [List.mem_filter, hsplit]
      exact ⟨List.mem_append_right _ List.mem_cons_self, decide_eq_true hopens⟩
    rw [Option.some.inj hinstances, List.mem_singleton] at htag
    subst htag
    exact ⟨"z", source, query, by decide, by decide, eq_ok_of_toOption hsource,
      eq_ok_of_toOption hquery, eq_ok_of_toOption hfalse⟩

/-! Instances as far as their elements reach -/

/-- Whether a token is the end tag of an element of the given name. -/
def isEndOf (name : String) (t : Token) : Bool :=
  match t.form with
  | .endTag other _ => foldCase other = foldCase name
  | _ => false

namespace Part

/-- The element that a part begins with: through its own end tag, or up to the end tag of another element
that closes it, or to the end of the input. -/
def element (p : Part) (input : Bytes) : Span :=
  ⟨p.head.span.start, match p.head.form, p.closing? with
    | .startTag name _, some closing =>
      if isEndOf name closing then closing.span.stop else closing.span.start
    | .startTag _ _, none => input.length
    | _, _ => p.head.span.stop⟩

/-- Whether the element is closed by no end tag but its own. -/
def ClosesItself (p : Part) : Prop :=
  ∀ name ∈ p.head.opens?, ∀ closing ∈ p.closing?, isEndOf name closing

/-- Whether a part holds its element, and no more unless it is closed with an element around it. -/
structure HoldsElement (p : Part) (input : Bytes) : Prop where
  start : (p.element input).start = p.span.start
  le : (p.element input).start ≤ (p.element input).stop
  stop : (p.element input).stop ≤ p.span.stop
  fills : p.element input = p.span ↔ p.ClosesItself

section
variable {tag closing : Token} {inside behind : List Token} {name : String}
  {attributes : List Attribute}

private theorem holdsElement_tag (hs : ∀ name attributes, tag.form ≠ .startTag name attributes)
    (hlt : tag.span.start < tag.span.stop) (input : Bytes) :
    (⟨tag, [], none⟩ : Part).HoldsElement input := by
  have helement : (⟨tag, [], none⟩ : Part).element input = tag.span := by
    unfold element
    split
    · rename_i hnone
      cases hnone
    · exact absurd ‹_› (hs _ _)
    · rfl
  refine ⟨?_, ?_, ?_, ?_⟩ <;> rw [helement]
  · rfl
  · exact Nat.le_of_lt hlt
  · exact Nat.le_refl _
  · exact iff_of_true rfl (by simp [ClosesItself])

private theorem holdsElement_unclosed (hf : tag.form = .startTag name attributes)
    (hlt : tag.span.start < tag.span.stop) {input : Bytes}
    (ht : Span.Tile tag.span.stop (inside.map (·.span)) input.length) :
    (⟨tag, inside, none⟩ : Part).HoldsElement input := by
  have hle := ht.le
  have hspan : (⟨tag, inside, none⟩ : Part).span = ⟨tag.span.start, input.length⟩ := by
    simp only [span, Option.toList_none, List.append_nil, stop_of_tile ht]
  have helement : (⟨tag, inside, none⟩ : Part).element input = ⟨tag.span.start, input.length⟩ := by
    simp only [element, hf]
  refine ⟨?_, ?_, ?_, ?_⟩ <;> rw [helement]
  · rw [hspan]
  · dsimp only
    omega
  · exact Nat.le_of_eq (congrArg Span.stop hspan).symm
  · exact iff_of_true hspan.symm (by simp [ClosesItself])

private theorem holdsElement_closed (hf : tag.form = .startTag name attributes)
    (hlt : tag.span.start < closing.span.start) (hclosing : closing.span.start < closing.span.stop)
    (input : Bytes) : (⟨tag, inside, some closing⟩ : Part).HoldsElement input := by
  have hspan : (⟨tag, inside, some closing⟩ : Part).span = ⟨tag.span.start, closing.span.stop⟩ := by
    simp only [span, Option.toList_some, List.getLastD_concat]
  have helement : (⟨tag, inside, some closing⟩ : Part).element input = ⟨tag.span.start,
      if isEndOf name closing then closing.span.stop else closing.span.start⟩ := by
    simp only [element, hf]
  have hcloses : (⟨tag, inside, some closing⟩ : Part).ClosesItself ↔ isEndOf name closing := by
    simp [ClosesItself, Token.opens?, hf]
  by_cases hend : isEndOf name closing
  · rw [if_pos hend] at helement
    refine ⟨?_, ?_, ?_, ?_⟩ <;> rw [helement]
    · rw [hspan]
    · exact Nat.le_of_lt (Nat.lt_trans hlt hclosing)
    · exact Nat.le_of_eq (congrArg Span.stop hspan).symm
    · exact iff_of_true hspan.symm (hcloses.mpr hend)
  · rw [if_neg hend] at helement
    refine ⟨?_, ?_, ?_, ?_⟩ <;> rw [helement]
    · rw [hspan]
    · exact Nat.le_of_lt hlt
    · rw [hspan]
      exact Nat.le_of_lt hclosing
    · refine iff_of_false (fun heq => ?_) fun hself => hend (hcloses.mp hself)
      rw [hspan] at heq
      exact absurd (congrArg Span.stop heq) (Nat.ne_of_lt hclosing)

theorem holdsElement_read {start : Nat} {input : Bytes} (hc : tag.isCutOut)
    (ht : Span.Tile start ((tag :: behind).map (·.span)) input.length) :
    (read tag behind).1.HoldsElement input := by
  obtain ⟨rfl, hlt, hbehind⟩ : tag.span.start = start ∧ start < tag.span.stop ∧
    Span.Tile tag.span.stop (behind.map Token.span) input.length := ht
  by_cases hs : ∃ name attributes, tag.form = .startTag name attributes
  · obtain ⟨name, attributes, hf⟩ := hs
    have happend := splitContent_append 1 behind
    rw [read_element hf hc]
    cases hsplit : splitContent 1 behind with
    | mk inside rest =>
      rw [hsplit] at happend
      obtain rfl : inside ++ rest = behind := happend
      cases rest with
      | nil =>
        rw [List.append_nil] at hbehind
        exact holdsElement_unclosed hf (by omega) hbehind
      | cons closing rest =>
        rw [List.map_append, Span.tile_append] at hbehind
        obtain ⟨middle, hinside, rfl, hclosing, -⟩ := hbehind
        have hmiddle := hinside.le
        exact holdsElement_closed hf (by omega) hclosing input
  · have hs (name : String) (attributes : List Attribute) :
        tag.form ≠ .startTag name attributes := fun hf => hs ⟨name, attributes, hf⟩
    rw [read_single fun name attributes hf => absurd hf (hs name attributes)]
    exact holdsElement_tag hs (by omega) input

end

end Part

/-- What is expanded begins outside templates and other instances, with the tag of an instance. -/
private theorem holdsElement_of_parts (ht : Span.Tile 0 (tokens.map (·.span)) host.length)
    {qs qs' : List Part} {p : Part} (hparts : parts tokens = qs ++ p :: qs') {r : Registry}
    (hwritten : (p.written? env host r).isSome) : p.HoldsElement host := by
  obtain ⟨written, hwritten⟩ := Option.isSome_iff_exists.mp hwritten
  obtain ⟨before, behind, rfl, -, -, hp, -⟩ := exists_of_parts allOutside_nil hparts
  rw [List.map_append, Span.tile_append] at ht
  obtain ⟨middle, -, ht⟩ := ht
  have hopens := (Part.written?_eq_some_iff.mp hwritten).1
  rw [hp]
  exact Part.holdsElement_read (Part.isCutOut_of_opens hopens) ht

/-- Two instances with text behind each. -/
def unclosedHost : Bytes := Text.encode
  "<template id='t'>b</template>a<template-instance using='t'/>c<template-instance using='t'>d"

/-- Each instance that is expanded is replaced by its template, as far as its element reaches, and every
other byte is kept, exactly if none of these instances is closed with an element around it: the end tag
of that element is lost. -/
theorem expand_replaces (hm : ¬Reader.startsWithMark host) (h : expand env host = .ok out) :
    ∃ tokens edits, tokenize .html host = .ok tokens ∧
      edits.Pairwise (fun e e' => e.span.stop ≤ e'.span.start) ∧
      (∀ e, e ∈ edits ↔ ∃ before tag behind, tokens = before ++ tag :: behind ∧
        e.span = (Part.read tag behind).1.element host ∧
        IsExpanded env host before tag behind e.written) ∧
      (out = splice host host.length 0 edits ↔
        ∀ before tag behind written, tokens = before ++ tag :: behind →
          IsExpanded env host before tag behind written →
          (Part.read tag behind).1.ClosesItself) := by
  obtain ⟨tokens, htokens, hout⟩ := exists_of_expand h
  obtain ⟨htiles, -, -⟩ := tokenize_tiles hm htokens
  have hparts := tile_parts htiles
  have hregions : Regions env host (·.element host) (parts tokens) := by
    intro p hp r hwritten
    obtain ⟨qs, qs', hsplit⟩ := List.append_of_mem hp
    have helement := holdsElement_of_parts htiles hsplit hwritten
    exact ⟨helement.start, helement.le, helement.stop⟩
  refine ⟨tokens, replacements env host (·.element host) {} (parts tokens), htokens,
    (apart_replacements hregions hparts).pairwise, fun e => ?_, ?_⟩
  · rw [mem_replacements]
    exact exists_written_iff
  · rw [eq_splice hout hparts]
    obtain ⟨-, hall⟩ := length_splice_replacements (r := {}) hregions hparts (Nat.le_refl 0)
      (Nat.le_refl _)
    constructor
    · intro heq before tag behind written hsplit hexpanded
      obtain ⟨qs, p, qs', hps, rfl, hwritten⟩ :=
        (exists_written_iff (C := (· = (Part.read tag behind).1))).mpr
          ⟨before, tag, behind, hsplit, rfl, hexpanded⟩
      have hsome := Option.isSome_of_eq_some hwritten
      exact (holdsElement_of_parts htiles hps hsome).fills.mp
        (hall (Nat.le_of_eq (congrArg List.length heq).symm) qs _ qs' hps hsome)
    · intro hclose
      refine congrArg (splice host host.length 0) (replacements_congr fun qs p qs' hps hsome => ?_)
      obtain ⟨written, hwritten⟩ := Option.isSome_iff_exists.mp hsome
      obtain ⟨before, tag, behind, hsplit, rfl, hexpanded⟩ :=
        (exists_written_iff (C := (p = ·))).mp ⟨qs, p, qs', hps, rfl, hwritten⟩
      exact ((holdsElement_of_parts htiles hps hsome).fills.mpr
        (hclose before tag behind written hsplit hexpanded)).symm

/-- The last instance is not closed. -/
theorem expand_replaces_unclosed : ∃ tokens edits, tokenize .html unclosedHost = .ok tokens ∧
    (∀ e, e ∈ edits ↔ ∃ before tag behind, tokens = before ++ tag :: behind ∧
      e.span = (Part.read tag behind).1.element unclosedHost ∧
      IsExpanded unaided unclosedHost before tag behind e.written) ∧
    splice unclosedHost unclosedHost.length 0 edits =
      Text.encode "<template id='t'>b</template>abcb" := by
  have hout : expand unaided unclosedHost = .ok (Text.encode "<template id='t'>b</template>abcb") :=
    eq_ok_of_toOption (by decide +kernel)
  have hends : (tokenize .html unclosedHost).toOption.map (fun tokens =>
      (List.range tokens.length).all fun n => match tokens.drop n with
        | tag :: behind => tag.opens? ≠ some "template-instance" ||
            (Part.read tag behind).1.closing?.isNone
        | [] => true) = some true := by
    decide +kernel
  obtain ⟨tokens, edits, htokens, -, hedits, hsame⟩ := expand_replaces (by decide) hout
  rw [htokens] at hends
  have hends := List.all_eq_true.mp (Option.some.inj hends)
  refine ⟨tokens, edits, htokens, hedits, (hsame.mpr ?_).symm⟩
  rintro before tag behind written rfl hexpanded name - closing hclosing
  have hend := hends before.length (by simp)
  simp only [List.drop_left, hexpanded.opens, ne_eq, not_true, decide_false, Bool.false_or,
    Option.isNone_iff_eq_none] at hend
  rw [hend] at hclosing
  cases hclosing

end

end MarkupGraft
