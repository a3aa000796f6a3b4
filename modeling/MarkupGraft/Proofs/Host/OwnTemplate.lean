import MarkupGraft.Proofs.Host.Definition
import MarkupGraft.Proofs.Markup.Excerpt
import MarkupGraft.Proofs.Query.NodeSet

/-!
The template that an instance is filled with: the latest one of the name it asks for, or else the first
one inside it. Main statement: `expand_uses_latest`.
-/

namespace MarkupGraft
open Markup

/-! Elements of a run -/

section
variable {t last : Tokenizer} {floor : Nat} {tokens : List Token}

private theorem depthAfter_sub_iff {token : Token} {depth : Nat} (hf : 0 < floor)
    (h : floor ≤ depth) :
    token.depthAfter (depth + 1 - floor) = 0 ↔ token.depthAfter depth < floor := by
  unfold Token.depthAfter
  split <;> omega

private theorem depthAfter_sub_eq {token : Token} {depth : Nat} (hf : 0 < floor)
    (h : floor ≤ depth) (ha : floor ≤ token.depthAfter depth) :
    token.depthAfter (depth + 1 - floor) = token.depthAfter depth + 1 - floor := by
  unfold Token.depthAfter at ha ⊢
  split at ha <;> omega

/-- A run goes through the content of an element, and then through what is left. -/
theorem run_splitContent (hf : 0 < floor) (hr : t.Run 0 tokens last) (h : floor ≤ t.depth) :
    ∃ u, t.Run floor (splitContent (t.depth + 1 - floor) tokens).1 u ∧
      u.Run 0 (splitContent (t.depth + 1 - floor) tokens).2 last := by
  induction hr with
  | done t => exact ⟨t, .done t, .done t⟩
  | @step t behind last token tokens hn hd hr ih =>
    have hafter := (Tokenizer.next_kept hn).2.2.2
    rw [splitContent]
    split
    · exact ⟨t, .done t, .step hn hd hr⟩
    · rename_i hopen
      have hle : floor ≤ behind.depth := by
        rw [hafter]
        exact Nat.le_of_not_lt fun hlt => hopen ((depthAfter_sub_iff hf h).mpr hlt)
      obtain ⟨u, hinside, hrest⟩ := ih hle
      rw [depthAfter_sub_eq hf h (hafter ▸ hle), ← hafter]
      exact ⟨u, .step hn hle hinside, hrest⟩

/-- Content is skipped up to the token that closes it. -/
theorem skipContent_run (hf : 0 < floor) (hr : t.Run 0 tokens last) (hend : last.next = .ok none)
    (h : floor ≤ t.depth) : ∃ u, t.skipContent floor =
      .ok ((splitContent (t.depth + 1 - floor) tokens).2.head?.map (·.span.start), u) ∧
        u.input = t.input := by
  induction hr with
  | done t =>
    refine ⟨t, ?_, rfl⟩
    rw [Tokenizer.skipContent]
    split <;> simp_all [splitContent]
  | @step t behind last token tokens hn hd hr ih =>
    obtain ⟨hinput, -, -, hafter⟩ := Tokenizer.next_kept hn
    have hskip : t.skipContent floor = if behind.depth < floor then
        .ok (some token.span.start, behind) else behind.skipContent floor := by
      rw [Tokenizer.skipContent]
      split <;> simp_all
    rw [hskip, splitContent, hafter]
    by_cases hlt : token.depthAfter t.depth < floor
    · rw [if_pos hlt, if_pos ((depthAfter_sub_iff hf h).mpr hlt)]
      exact ⟨behind, rfl, hinput⟩
    · rw [if_neg hlt, if_neg fun hzero => hlt ((depthAfter_sub_iff hf h).mp hzero)]
      have hle := Nat.le_of_not_lt hlt
      rw [depthAfter_sub_eq hf h hle, ← hafter, ← hinput]
      exact ih hend (hafter ▸ hle)

end

/-! Templates inside instances -/

/-- Whether a token is a start tag of a template. -/
def Markup.Token.StartsTemplate (t : Token) : Prop :=
  ∃ attributes, t.form = .startTag "template" attributes

section
variable {t last : Tokenizer} {tokens : List Token}

/-- What is written inside an element of a run is its content. -/
theorem rawContent_run {s : Tokenizer} {tag : Token} {name : String} {attributes : List Attribute}
    (hn : s.next = .ok (some (tag, t))) (hf : tag.form = .startTag name attributes)
    (hc : tag.isCutOut) (hr : t.Run 0 tokens last) (hend : last.next = .ok none) :
    ∃ u, t.rawContent tag = .ok ((Part.read tag tokens).1.content t.input, u) := by
  have hpos : 0 < t.depth := by
    rw [(Tokenizer.next_kept hn).2.2.2, Token.depthAfter, hf]
    exact Nat.succ_pos _
  obtain ⟨u, hskip, hinput⟩ := skipContent_run hpos hr hend (Nat.le_refl _)
  rw [Nat.add_sub_cancel_left] at hskip
  refine ⟨u, ?_⟩
  rw [Tokenizer.rawContent, Part.read_element hf hc]
  simp only [hf, hskip, Part.content, ← hinput]
  rfl

private theorem firstTemplate?_starts {token : Token} {behind : Tokenizer}
    (hn : t.next = .ok (some (token, behind))) (ht : token.StartsTemplate) :
    Passage.firstTemplate? t = (behind.rawContent token).map fun read => some read.1 := by
  obtain ⟨attributes, hf⟩ := ht
  rw [Passage.firstTemplate?]
  split <;> simp_all

private theorem firstTemplate?_other {token : Token} {behind : Tokenizer}
    (hn : t.next = .ok (some (token, behind))) (ht : ¬token.StartsTemplate) :
    Passage.firstTemplate? t = Passage.firstTemplate? behind := by
  rw [Passage.firstTemplate?]
  split
  · simp_all
  · simp_all
  · rename_i hn'
    cases hn.symm.trans hn'
    split
    · exact absurd ⟨_, ‹_›⟩ ht
    · rfl

/-- The first template that has a start tag is taken, with all that is inside it. -/
theorem firstTemplate?_run (hr : t.Run 0 tokens last) (hend : last.next = .ok none) :
    (∃ front own rest, tokens = front ++ own :: rest ∧ own.StartsTemplate ∧
      (∀ token ∈ front, ¬token.StartsTemplate) ∧
      Passage.firstTemplate? t = .ok (some ((Part.read own rest).1.content t.input))) ∨
      Passage.firstTemplate? t = .ok none := by
  induction hr with
  | done t =>
    right
    rw [Passage.firstTemplate?]
    split <;> simp_all
  | @step t behind last token tokens hn hd hr ih =>
    obtain ⟨hinput, -⟩ := Tokenizer.next_kept hn
    by_cases ht : token.StartsTemplate
    · have hc : token.isCutOut := by
        obtain ⟨attributes, hf⟩ := ht
        simp [Token.isCutOut, Token.opens?, hf]
      obtain ⟨u, hraw⟩ := rawContent_run hn ht.choose_spec hc hr hend
      refine .inl ⟨[], token, tokens, rfl, ht, by simp, ?_⟩
      rw [firstTemplate?_starts hn ht, hraw, hinput]
      rfl
    · rw [firstTemplate?_other hn ht, ← hinput]
      rcases ih hend with ⟨front, own, rest, rfl, hown, hfront, hfirst⟩ | hnone
      · exact .inl ⟨token :: front, own, rest, rfl, hown, List.forall_mem_cons.mpr ⟨ht, hfront⟩, hfirst⟩
      · exact .inr hnone

/-- What is written between two places is read alone as in its place. -/
private theorem excerpt_ofBytes (ht : t.Aligned) (hmode : t.mode = .html)
    (hahead : t.reader.ahead = 0) (hp : t.pending? = none) {stop : Nat} (hle : t.position ≤ stop)
    (hm : ¬Reader.startsWithMark ((Span.mk t.position stop).cut t.input)) :
    (Tokenizer.ofBytes .html ((Span.mk t.position stop).cut t.input)).Excerpt t.position stop
      t.openElements.names t := by
  have hoffset := ht.position_eq hp
  refine ⟨⟨hmode.symm, ⟨if_neg hm, hahead⟩, ?_, ?_⟩, by rw [hp]; rfl, rfl⟩
  · change 0 + t.position = _
    omega
  · change (Span.mk t.position stop).cut t.input = _
    rw [Span.cut, List.drop_take, ht.reader.source, hoffset]

end

section
variable {host : Bytes} {before behind : List Token} {tag : Token}

/-- The content of an instance is tokenized alone into the tokens inside it, moved by where it begins. -/
theorem tokenize_content (hm : ¬Reader.startsWithMark host)
    (h : tokenize .html host = .ok (before ++ tag :: behind))
    (hi : tag.opens? = some "template-instance")
    (hcontent : ¬Reader.startsWithMark ((Part.read tag behind).1.content host)) :
    ∃ alone, tokenize .html ((Part.read tag behind).1.content host) = .ok alone ∧
      alone.map (·.moved tag.span.stop) = (Part.read tag behind).1.inside := by
  have hcut := Part.isCutOut_of_opens hi
  cases hf : tag.form with
  | startTag name attributes =>
    obtain rfl : name = "template-instance" := by simpa [Token.opens?, hf] using hi
    obtain ⟨last, hr, hend⟩ := tokenize_eq_ok_iff.mp h
    obtain ⟨s, hbefore, hstep⟩ := hr.split
    cases hstep with
    | @step _ t _ _ _ hn _ hbehind =>
      have hs := (hbefore.tile (Tokenizer.aligned_ofBytes .html host)).1
      have ht := (hs.next hn).1
      have hraw : tag.form.opensRaw? .html = none := by
        rw [hf]
        exact if_neg (by decide +kernel)
      have hsmode : s.mode = .html := hbefore.kept.2
      obtain ⟨hp, hposition, -⟩ := Tokenizer.behind_startTag hs hf (by rw [hsmode]; exact hraw) hn
      have hinput : t.input = host := (Tokenizer.next_kept hn).1.trans hbefore.kept.1
      have htmode : t.mode = .html := (Tokenizer.next_kept hn).2.1.trans hsmode
      have hahead : t.reader.ahead = 0 := by
        have hs0 : s.reader.ahead = 0 := by
          have hzero : (Tokenizer.ofBytes .html host).reader.ahead = 0 := if_neg hm
          rw [hbefore.ahead, hzero, ite_self]
        rw [Tokenizer.next_ahead hn, hs0, ite_self]
      have hpos : 0 < t.depth := by
        rw [(Tokenizer.next_kept hn).2.2.2, Token.depthAfter, hf]
        exact Nat.succ_pos _
      obtain ⟨u, hinside, hrest⟩ := run_splitContent hpos hbehind (Nat.le_refl _)
      rw [Nat.add_sub_cancel_left] at hinside hrest
      obtain ⟨hu, htiles⟩ := hinside.tile ht
      have hstop : (((splitContent 1 behind).2.head?.map (·.span.start)).getD host.length) =
          u.position := by
        cases hsplit : (splitContent 1 behind).2 with
        | nil =>
          rw [hsplit] at hrest
          cases hrest
          have hlength := hu.stop hend
          rw [hinside.ahead, hahead, ite_self, hinside.kept.1, hinput] at hlength
          exact hlength.symm
        | cons closing rest =>
          rw [hsplit] at hrest
          cases hrest with
          | step hclosing _ _ => exact (hu.next hclosing).2.1
      have hcut : (Part.read tag behind).1.content host =
          (Span.mk t.position u.position).cut t.input := by
        rw [Part.read_element hf hcut, Part.content]
        simp only [hf]
        rw [hstop, hposition, hinput]
      rw [hcut] at hcontent ⊢
      have hv := excerpt_ofBytes ht htmode hahead hp htiles.le hcontent
      obtain ⟨alone, w, hrun, hmoved, hw⟩ := hv.run hinside ht
      have hwend := hw.next_none hu fun hxml => by
        have hmodes : Mode.html = Mode.xml := hrun.kept.2.symm.trans hxml
        cases hmodes
      refine ⟨alone, tokenize_eq_ok_iff.mpr ⟨w, hrun, hwend⟩, ?_⟩
      rw [← hposition, hmoved, Part.read_element hf (Part.isCutOut_of_opens hi)]
  | emptyTag name attributes =>
    rw [Part.read_single fun name' attributes' hs => by rw [hf] at hs; cases hs]
    refine ⟨[], ?_, rfl⟩
    simp only [Part.content, hf]
    exact eq_ok_of_toOption (by decide +kernel)
  | _ => simp [Token.opens?, hf] at hi

/-- The template inside an instance is the first one inside it that has a start tag. -/
theorem ownTemplate?_cases (hm : ¬Reader.startsWithMark host)
    (h : tokenize .html host = .ok (before ++ tag :: behind))
    (hi : tag.opens? = some "template-instance")
    (hcontent : ¬Reader.startsWithMark ((Part.read tag behind).1.content host)) {body : Bytes}
    (hbody : (Instance.ofToken tag ((Part.read tag behind).1.content host)).ownTemplate? =
      .ok (some body)) : ∃ front own rest,
      tokenize .html ((Part.read tag behind).1.content host) = .ok (front ++ own :: rest) ∧
        (front ++ own :: rest).map (·.moved tag.span.stop) = (Part.read tag behind).1.inside ∧
        own.StartsTemplate ∧ (∀ token ∈ front, ¬token.StartsTemplate) ∧
        body = (Part.read own rest).1.content ((Part.read tag behind).1.content host) := by
  obtain ⟨alone, halone, hmoved⟩ := tokenize_content hm h hi hcontent
  obtain ⟨last, hr, hend⟩ := tokenize_eq_ok_iff.mp halone
  rcases firstTemplate?_run hr hend with ⟨front, own, rest, rfl, hown, hfront, hfirst⟩ | hnone
  · refine ⟨front, own, rest, halone, hmoved, hown, hfront, ?_⟩
    exact Option.some.inj (Except.ok.inj (hbody.symm.trans hfirst))
  · cases hbody.symm.trans hnone

end

/-! Filling -/

/-- What an instance is replaced by, if it is, given the markup of its template. -/
def Instance.fill? (i : Instance) (env : Environment) (host body : Bytes) :
    Except TemplateError (Option Bytes) := do
  let source ← if i.source = "" then env.parse 0 host else env.loadSource 0 i.source
  if ← i.isWanted source then
    let program ← Program.parse i.mapping
    let (result, filled) := program.run env source i.source (← env.parse 1 body)
    let _ ← result
    pure (some filled.toBytes)
  else pure none

theorem Instance.expand?_eq (i : Instance) (env : Environment) (host : Bytes) (r : Registry) :
    i.expand? env host r = i.templateBody r >>= i.fill? env host := rfl

section
variable {env : Environment} {host out : Bytes}

/-- Where a host is expanded, each of its parts is. -/
theorem exists_of_expandPassages {r : Registry} {qs qs' : List Part} {p : Part}
    (h : expandPassages env host r ((qs ++ p :: qs').map (·.passage host)) = .ok out) :
    ∃ written, (p.passage host).expand env host
      (qs.foldl (fun r p => r.learn (p.passage host).kind) r) = .ok written := by
  induction qs generalizing r out with
  | nil =>
    obtain ⟨written, hwritten, -⟩ := bind_eq_ok_iff.mp h
    exact ⟨written, hwritten⟩
  | cons q qs ih =>
    obtain ⟨written, -, h⟩ := bind_eq_ok_iff.mp h
    obtain ⟨others, hothers, -⟩ := bind_eq_ok_iff.mp h
    exact ih hothers

/-- Where a host is expanded, each instance outside templates and other instances finds a template. -/
theorem templateBody_of_expand {tokens before behind : List Token} {tag : Token}
    (h : expandPassages env host {} ((parts tokens).map (·.passage host)) = .ok out)
    (htokens : tokens = before ++ tag :: behind) (hout : Outside before)
    (hi : tag.opens? = some "template-instance") :
    ∃ body, (Instance.ofToken tag ((Part.read tag behind).1.content host)).templateBody
      (definitions host before) = .ok body := by
  rw [htokens, parts_between hout] at h
  obtain ⟨written, hwritten⟩ := exists_of_expandPassages h
  have hkind : ((Part.read tag behind).1.passage host).kind =
      .occurrence (.ofToken tag ((Part.read tag behind).1.content host)) := by
    rw [Part.passage, Passage.kindOf?, (Part.tokens_read tag behind).1, hi]
    rfl
  simp only [Passage.expand, hkind] at hwritten
  obtain ⟨result, hresult, -⟩ := bind_eq_ok_iff.mp hwritten
  rw [Instance.expand?_eq] at hresult
  obtain ⟨body, hbody, -⟩ := bind_eq_ok_iff.mp hresult
  exact ⟨body, hbody⟩

/-- A host that redefines its template before, between and inside its instances. -/
def redefiningHost : Bytes :=
  Text.encode "<template id='t'>a</template><template id='t'>b</template>" ++
    Text.encode "<template-instance using='t'/><template id='t'>c</template>" ++
    Text.encode "<template-instance using='t'><template id='t'>d</template>"

/-- Each instance that asks for a template by name is filled with the content of the last template of that
name that ends before it, of those outside templates and instances. Only where there is none it is filled
with the content of the first template inside it, of those that have a start tag. -/
theorem expand_uses_latest (hm : ¬Reader.startsWithMark host) (h : expand env host = .ok out) :
    ∃ tokens edits, tokenize .html host = .ok tokens ∧ out = splice host host.length 0 edits ∧
      edits.Pairwise (fun e e' => e.span.stop ≤ e'.span.start) ∧
      (∀ e, e ∈ edits ↔ ∃ before tag behind, tokens = before ++ tag :: behind ∧
        e.span = (Part.read tag behind).1.span ∧ IsExpanded env host before tag behind e.written) ∧
      ∀ before tag behind name, tokens = before ++ tag :: behind → Outside before →
        tag.opens? = some "template-instance" → tag.attribute? "using" = some name → name ≠ "" →
        let mapping := (Part.read tag behind).1.content host
        ∃ body, (∀ written, IsExpanded env host before tag behind written ↔
            (Instance.ofToken tag mapping).fill? env host body = .ok (some written)) ∧
          ((∃ front definition rest, IsLatest host tokens name tag.span.start front definition rest ∧
              body = (Part.read definition rest).1.content host) ∨
            (∀ front definition rest,
              ¬Defines host tokens name tag.span.start front definition rest) ∧
            (¬Reader.startsWithMark mapping → ∃ front own rest,
              tokenize .html mapping = .ok (front ++ own :: rest) ∧
                (front ++ own :: rest).map (·.moved tag.span.stop) = (Part.read tag behind).1.inside ∧
                own.StartsTemplate ∧ (∀ token ∈ front, ¬token.StartsTemplate) ∧
                body = (Part.read own rest).1.content mapping)) := by
  obtain ⟨tokens, htokens, hout⟩ := exists_of_expand h
  obtain ⟨stop, htiles, -, hstop⟩ := tile_of_tokenize htokens
  obtain rfl := hstop.mpr fun hmark => absurd hmark hm
  have hparts := tile_parts htiles
  refine ⟨tokens, replacements env host Part.span {} (parts tokens), htokens, eq_splice hout hparts,
    pairwise_replacements hparts, fun e => ?_, ?_⟩
  · rw [mem_replacements]
    exact exists_written_iff
  · intro before tag behind name hsplit houtside hi husing hne mapping
    obtain ⟨body, hbody⟩ := templateBody_of_expand hout hsplit houtside hi
    have htemplate : (Instance.ofToken tag mapping).template? = some name := by
      change (tag.attribute? "using").filter (· ≠ "") = some name
      rw [husing, Option.filter_some, if_pos (decide_eq_true hne)]
    refine ⟨body, fun written => ?_, ?_⟩
    · have hfill : (Instance.ofToken tag mapping).expand? env host (definitions host before) =
          (Instance.ofToken tag mapping).fill? env host body := by
        rw [Instance.expand?_eq, hbody]
        rfl
      exact ⟨fun hexpanded => hfill ▸ hexpanded.writes, fun hwrites => ⟨houtside, hi, hfill ▸ hwrites⟩⟩
    · rw [Instance.templateBody, htemplate, Option.bind_some] at hbody
      rcases get?_definitions htiles hsplit houtside hi name with
        ⟨front, definition, rest, hlatest, hget⟩ | ⟨hnone, hget⟩
      · rw [hget] at hbody
        exact .inl ⟨front, definition, rest, hlatest, (Except.ok.inj hbody).symm⟩
      · rw [hget] at hbody
        refine .inr ⟨hnone, fun hmark => ?_⟩
        obtain ⟨own?, hown, hbody⟩ := bind_eq_ok_iff.mp hbody
        cases own? with
        | none => cases hbody
        | some own =>
          cases hbody
          exact ownTemplate?_cases hm (hsplit ▸ htokens) hi hmark (Query.mapError_eq_ok_iff.mp hown)

/-- The first instance is filled with the second definition, and the other one with the third. -/
theorem expand_uses_latest_redefined : ∃ tokens edits,
    tokenize .html redefiningHost = .ok tokens ∧
      edits.Pairwise (fun e e' => e.span.stop ≤ e'.span.start) ∧
      (∀ e, e ∈ edits ↔ ∃ before tag behind, tokens = before ++ tag :: behind ∧
        e.span = (Part.read tag behind).1.span ∧
        IsExpanded unaided redefiningHost before tag behind e.written) ∧
      splice redefiningHost redefiningHost.length 0 edits =
        Text.encode "<template id='t'>a</template><template id='t'>b</template>" ++
          Text.encode "b<template id='t'>c</template>c" := by
  have hout : expand unaided redefiningHost = .ok
      (Text.encode "<template id='t'>a</template><template id='t'>b</template>" ++
        Text.encode "b<template id='t'>c</template>c") :=
    eq_ok_of_toOption (by decide +kernel)
  have hm : ¬Reader.startsWithMark redefiningHost := by decide +kernel
  obtain ⟨tokens, edits, htokens, hsplice, hsorted, hedits, -⟩ := expand_uses_latest hm hout
  exact ⟨tokens, edits, htokens, hsorted, hedits, hsplice.symm⟩

end

end MarkupGraft
