import MarkupGraft.Proofs.Markup.Run
import MarkupGraft.Proofs.Store.Reading
import MarkupGraft.Proofs.Store.WellFormed

/-!
How a document is built from tokens. Nesting is kept track of twice while markup is read: the
tokenizer knows the names of the open elements, and what is made of the tokens the scopes inside
them. The two agree behind every token, so each node stands in the element that is open there.
-/

namespace MarkupGraft

/-- Whether a node is neither the document node nor an end marker. -/
def Node.isContent : Node → Bool
  | .document | .finish => false
  | _ => true

namespace Reading
open Markup (Attribute Token TokenForm Tokenizer)

/-- The nodes that stand for a token where `s` is in scope. End markers are not among them. -/
def image (s : Scope) (token : Token) : List Node :=
  match token.form with
  | .startTag name attributes | .emptyTag name attributes =>
    elementNodes (declare s attributes) name attributes
  | .endTag _ _ => []
  | .text value => [.text value]
  | .comment value => [.comment value]
  | .instruction value => [.instruction value]
  | .doctype value => [.doctype value]

/-- An element that is open, as its start tag gives it, and where it stands in the document. -/
structure OpenTag where
  name : String
  attributes : List Attribute
  position : Nat

/-- How far a document has been built: the position of the next node, and the elements that are open
there, innermost first. -/
structure Progress where
  position : Nat := 1
  opened : List OpenTag := []

/-- What is in scope inside open elements. -/
def scopeIn : List OpenTag → Scope
  | [] => .base
  | tag :: opened => declare (scopeIn opened) tag.attributes

/-- The scopes inside open elements, innermost first. -/
def scopesIn : List OpenTag → List Scope
  | [] => []
  | tag :: opened => scopeIn (tag :: opened) :: scopesIn opened

namespace Progress

def scope (p : Progress) : Scope := scopeIn p.opened

/-- The position of the innermost open element, or of the document node if none is open. -/
def innermost (p : Progress) : Nat := (p.opened.head?.map (·.position)).getD 0

/-- A start tag opens an element, and an end tag puts an end marker for each one that it closes. -/
def push (p : Progress) (token : Token) : Progress :=
  match token.form with
  | .startTag name attributes =>
    ⟨p.position + 1 + attributes.length, ⟨name, attributes, p.position⟩ :: p.opened⟩
  | .emptyTag _ attributes => ⟨p.position + 1 + attributes.length + 1, p.opened⟩
  | .endTag _ closes => ⟨p.position + closes, p.opened.drop closes⟩
  | _ => ⟨p.position + 1, p.opened⟩

/-- How far the document has been built behind some tokens. -/
def after (tokens : List Token) : Progress := tokens.foldl push {}

/-- The nodes that stand for tokens, one token after the other. -/
def images (p : Progress) : List Token → List Node
  | [] => []
  | token :: tokens => image p.scope token ++ images (p.push token) tokens

end Progress

/-- The scopes of the elements that are open behind some tokens. -/
def openedBehind (opened : List Scope) (tokens : List Token) : List Scope :=
  tokens.foldl (fun opened token => (tokenNodes opened token).2) opened

/-- The nodes that tokens add. -/
def addedBy (opened : List Scope) : List Token → List Node
  | [] => []
  | token :: tokens => (tokenNodes opened token).1 ++ addedBy (tokenNodes opened token).2 tokens

theorem nodesFrom_append (opened : List Scope) (before behind : List Token) :
    nodesFrom opened (before ++ behind) =
      addedBy opened before ++ nodesFrom (openedBehind opened before) behind := by
  induction before generalizing opened with
  | nil => rfl
  | cons token before ih =>
    rw [List.cons_append, nodesFrom]
    dsimp only
    rw [ih, addedBy, List.append_assoc]
    rfl

theorem nodesFrom_eq_append (opened : List Scope) (tokens : List Token) :
    nodesFrom opened tokens =
      addedBy opened tokens ++ List.replicate ((openedBehind opened tokens).length + 1) .finish := by
  have h := nodesFrom_append opened tokens []
  rwa [List.append_nil] at h

/-! Scopes -/

@[simp] theorem length_scopesIn (opened : List OpenTag) :
    (scopesIn opened).length = opened.length := by
  induction opened with
  | nil => rfl
  | cons tag opened ih => rw [scopesIn, List.length_cons, List.length_cons, ih]

theorem headD_scopesIn (opened : List OpenTag) : (scopesIn opened).headD .base = scopeIn opened := by
  cases opened <;> rfl

theorem drop_scopesIn (n : Nat) (opened : List OpenTag) :
    (scopesIn opened).drop n = scopesIn (opened.drop n) := by
  induction opened generalizing n with
  | nil => simp [scopesIn]
  | cons tag opened ih =>
    cases n with
    | zero => rfl
    | succ n => exact ih n

/-! Open containers -/

private theorem openedFrom_elementNodes (opened : List Nat) (position : Nat) (s : Scope)
    (name : String) (attributes : List Attribute) :
    Outline.openedFrom opened position (elementNodes s name attributes) = position :: opened := by
  have hattributes (opened : List Nat) (position : Nat) : Outline.openedFrom opened position
      (attributes.map fun a => .attribute (Name.resolve s .attribute a.key) a.value) = opened := by
    induction attributes generalizing position with
    | nil => rfl
    | cons a attributes ih => exact ih (position + 1)
  exact hattributes _ _

private theorem openedFrom_replicate (opened : List Nat) (position n : Nat) :
    Outline.openedFrom opened position (List.replicate n .finish) = opened.drop n := by
  induction n generalizing opened position with
  | zero => rfl
  | succ n ih =>
    rw [List.replicate_succ, Outline.openedFrom, Outline.enter, ih, List.drop_tail]

/-- Whether the nodes so far and the scopes of the open elements are as a progress tells. -/
structure Progress.Describes (p : Progress) (opened : List Scope) (nodes : List Node) : Prop where
  scopes : opened = scopesIn p.opened
  length : nodes.length = p.position
  containers : Outline.openedFrom [] 0 nodes = p.opened.map (·.position) ++ [0]

namespace Progress
variable {p : Progress} {opened : List Scope} {nodes : List Node} {token : Token}

theorem describes_start : Describes {} [] [.document] := ⟨rfl, rfl, rfl⟩

/-- A token that closes no more than what is open is read as a progress tells. -/
theorem Describes.push (h : p.Describes opened nodes)
    (hcloses : ∀ name closes, token.form = .endTag name closes → closes ≤ p.opened.length) :
    (p.push token).Describes (tokenNodes opened token).2
      (nodes ++ (tokenNodes opened token).1) := by
  obtain ⟨rfl, hlength, hcontainers⟩ := h
  have leaf (node : Node) (hnode : ∀ opened position, Outline.enter opened position node = opened) :
      Describes ⟨p.position + 1, p.opened⟩ (scopesIn p.opened) (nodes ++ [node]) := by
    refine ⟨rfl, by simp [hlength], ?_⟩
    rw [Outline.openedFrom_append, hcontainers]
    exact hnode _ _
  unfold tokenNodes Progress.push
  cases hform : token.form with
  | startTag name attributes =>
    dsimp only
    refine ⟨by rw [headD_scopesIn]; rfl, by simp [elementNodes, hlength]; omega, ?_⟩
    rw [Outline.openedFrom_append, hcontainers, openedFrom_elementNodes, Nat.zero_add, hlength]
    rfl
  | emptyTag name attributes =>
    dsimp only
    refine ⟨rfl, by simp [elementNodes, hlength]; omega, ?_⟩
    rw [Outline.openedFrom_append, hcontainers, Outline.openedFrom_append,
      openedFrom_elementNodes]
    rfl
  | endTag name closes =>
    have hle := hcloses name closes hform
    dsimp only
    rw [length_scopesIn, Nat.min_eq_left hle]
    refine ⟨drop_scopesIn _ _, by simp [hlength], ?_⟩
    rw [Outline.openedFrom_append, hcontainers, openedFrom_replicate,
      List.drop_append_of_le_length (by simpa using hle), List.map_drop]
  | _ => exact leaf _ fun _ _ => rfl

/-! Images -/

private theorem filter_elementNodes (s : Scope) (name : String) (attributes : List Attribute) :
    (elementNodes s name attributes).filter Node.isContent = elementNodes s name attributes := by
  refine List.filter_eq_self.mpr fun node hnode => ?_
  rcases List.mem_cons.mp hnode with rfl | hnode
  · rfl
  · obtain ⟨a, -, rfl⟩ := List.mem_map.mp hnode
    rfl

/-- Of the nodes that a token adds, all but end markers are its image. -/
theorem Describes.filter_tokenNodes (h : p.Describes opened nodes) :
    (tokenNodes opened token).1.filter Node.isContent = image p.scope token := by
  rw [h.scopes, tokenNodes, image, headD_scopesIn]
  cases token.form with
  | startTag name attributes => exact filter_elementNodes _ name attributes
  | emptyTag name attributes =>
    dsimp only
    rw [List.filter_append, filter_elementNodes]
    exact List.append_nil _
  | endTag name closes => exact List.filter_replicate_of_neg (by simp [Node.isContent])
  | _ => rfl

/-- The image comes in front of the end markers. -/
theorem Describes.image_prefix (h : p.Describes opened nodes) :
    image p.scope token <+: (tokenNodes opened token).1 := by
  rw [h.scopes, tokenNodes, image, headD_scopesIn]
  cases token.form with
  | emptyTag name attributes => exact List.prefix_append _ _
  | endTag name closes => exact List.nil_prefix
  | _ => exact List.prefix_refl _

/-! Runs of the tokenizer -/

/-- While tokens are handed out, what is built of them stays in step with the open elements. -/
theorem Describes.run {t u : Tokenizer} {depth : Nat} {tokens : List Token}
    (hrun : t.Run depth tokens u) (h : p.Describes opened nodes)
    (hnames : p.opened.map (·.name) = t.openElements.names) :
    (tokens.foldl Progress.push p).Describes (openedBehind opened tokens)
        (nodes ++ addedBy opened tokens) ∧
      (tokens.foldl Progress.push p).opened.map (·.name) = u.openElements.names ∧
      (addedBy opened tokens).filter Node.isContent = p.images tokens := by
  induction hrun generalizing p opened nodes with
  | done t => exact ⟨by simpa [addedBy, openedBehind] using h, hnames, rfl⟩
  | @step t behind last token tokens hnext _ _ ih =>
    have hdepth : p.opened.length = t.depth := by
      rw [← List.length_map, hnames]
      rfl
    have hpush := @Describes.push p opened nodes token h fun name closes hform =>
      hdepth ▸ (Tokenizer.closes_of_next hnext hform).1
    have hnames' : (p.push token).opened.map (·.name) = behind.openElements.names := by
      rw [Tokenizer.names_of_next hnext, ← hnames, Progress.push]
      cases token.form with
      | endTag name closes => exact List.map_drop
      | _ => rfl
    obtain ⟨hdescribes, hlast, himages⟩ := ih hpush hnames'
    refine ⟨?_, hlast, ?_⟩
    · rwa [List.append_assoc] at hdescribes
    · rw [addedBy, List.filter_append, h.filter_tokenNodes, himages]
      rfl

end Progress

/-! Documents -/

/-- What a document has of a token that is handed out behind others, on the way of the tokenizer from
`t` to `u`. -/
structure Shows (d : Document) (before : List Token) (token : Token) (t u : Tokenizer) : Prop where
  next : t.next = .ok (some (token, u))
  /-- The elements that are open in front of the token are those that the tokenizer has open. -/
  names : (Progress.after before).opened.map (·.name) = t.openElements.names
  depth : (openedBehind [] (before ++ [token])).length = u.depth
  /-- The image of the token stands where the document has been built up to. -/
  image : Reading.image (Progress.after before).scope token <+:
    d.nodes.drop (Progress.after before).position
  /-- Its first node, if it has one, stands in the innermost of the elements that are open. -/
  parent : Reading.image (Progress.after before).scope token ≠ [] →
    d.parent? (Progress.after before).position = some (Progress.after before).innermost
  /-- In XML an end tag closes the innermost open element, which has its name. -/
  innermost : t.mode = .xml → ∀ name closes, token.form = .endTag name closes →
    closes = 1 ∧ t.openElements.innermost? = some name

variable {d : Document} {before behind : List Token} {token : Token} {start t u : Tokenizer}

private theorem describes_after (hstart : start.openElements.names = [])
    (hrun : start.Run 0 before t) :
    (Progress.after before).Describes (openedBehind [] before)
        (.document :: addedBy [] before) ∧
      (Progress.after before).opened.map (·.name) = t.openElements.names ∧
      (addedBy [] before).filter Node.isContent = Progress.images {} before :=
  Progress.describes_start.run hrun hstart.symm

theorem shows_of_run (hstart : start.openElements.names = [])
    (hnodes : d.nodes = .document :: nodesFrom [] (before ++ token :: behind))
    (hrun : start.Run 0 before t) (hnext : t.next = .ok (some (token, u))) :
    Shows d before token t u := by
  obtain ⟨hbefore, hnames, -⟩ := describes_after hstart hrun
  have hrun' : start.Run 0 (before ++ [token]) u :=
    hrun.append (.step hnext (Nat.zero_le _) (.done u))
  obtain ⟨hbehind, hnames', -⟩ := describes_after hstart hrun'
  have hsplit : d.nodes = (.document :: addedBy [] before) ++
      nodesFrom (openedBehind [] before) (token :: behind) := by
    rw [hnodes, nodesFrom_append]
    rfl
  have hadded : nodesFrom (openedBehind [] before) (token :: behind) =
      (tokenNodes (openedBehind [] before) token).1 ++
        nodesFrom (tokenNodes (openedBehind [] before) token).2 behind := rfl
  have himage : image (Progress.after before).scope token <+:
      d.nodes.drop (Progress.after before).position := by
    rw [hsplit, ← hbefore.length, List.drop_left, hadded]
    exact hbefore.image_prefix.trans (List.prefix_append _ _)
  refine ⟨hnext, hnames, ?_, himage, fun hne => ?_, fun hm name closes hform =>
    (Tokenizer.closes_of_next hnext hform).2 hm⟩
  · rw [hbehind.scopes, length_scopesIn, ← List.length_map (f := OpenTag.name), hnames']
    rfl
  · have hlt : (Progress.after before).position < d.nodes.length := by
      by_contra hge
      rw [List.drop_eq_nil_of_le (Nat.le_of_not_lt hge), List.prefix_nil] at himage
      exact hne himage
    have hopened : Outline.openedAt d.nodes (Progress.after before).position =
        (Progress.after before).opened.map (·.position) ++ [0] := by
      rw [Outline.openedAt, hsplit, ← hbefore.length, List.take_left, hbefore.containers]
    refine (Outline.placeAt_parent hlt).trans ?_
    rw [hopened, Progress.innermost]
    cases (Progress.after before).opened <;> rfl

end Reading

namespace Document
open Reading Markup

/-- Parsing loses and invents nothing. The nodes of a document, the document node and end markers
apart, are those that stand for its tokens, in order. Behind each token as many elements are open in
what has been built as in the tokenizer, and what stands for it is inside the element that the
tokenizer had innermost in front of it. In XML each end tag closes the innermost element, whose name it
has, and none is left open. -/
theorem parse_shows_tokens {id : Nat} {mode : Mode} {input : Bytes} {d : Document}
    (h : Document.parse id mode input = .ok d) :
    ∃ tokens last, tokenize mode input = .ok tokens ∧
      (Tokenizer.ofBytes mode input).Run 0 tokens last ∧
      d.nodes.filter Node.isContent = Progress.images {} tokens ∧
      (∀ before token behind, tokens = before ++ token :: behind →
        ∃ t u, (Tokenizer.ofBytes mode input).Run 0 before t ∧ t.mode = mode ∧
          Shows d before token t u) ∧
      (mode = .xml → last.openElements.names = []) := by
  obtain ⟨tokens, htokens, rfl⟩ := map_eq_ok_iff.mp h
  obtain ⟨last, hrun, hlast⟩ := tokenize_eq_ok_iff.mp htokens
  have hmode : last.mode = mode := hrun.kept.2
  refine ⟨tokens, last, htokens, hrun, ?_, fun before token behind hsplit => ?_, fun hxml => ?_⟩
  · have hcontent := (describes_after rfl hrun).2.2
    rw [nodes_ofNodes, nodesFrom_eq_append]
    rw [List.filter_cons_of_neg (by simp [Node.isContent]), List.filter_append, hcontent,
      List.filter_replicate_of_neg (by simp [Node.isContent]), List.append_nil]
  · subst hsplit
    obtain ⟨t, hbefore, hbehind⟩ := hrun.split
    cases hbehind with
    | @step _ u _ _ _ hnext _ _ =>
      exact ⟨t, u, hbefore, hbefore.kept.2, shows_of_run rfl (nodes_ofNodes ..) hbefore hnext⟩
  · obtain ⟨u, htake, hnone⟩ := Tokenizer.next_eq_none_iff.mp hlast
    obtain ⟨-, hopen, hkept⟩ := Tokenizer.take?_kept htake
    rw [← hopen]
    exact hnone (hkept.trans (hmode.trans hxml))

/-- An end tag that closes several elements, one that closes none, a void element, and an element that
is left open. -/
theorem parse_shows_tokens_unbalanced : ∃ d tokens last,
    Document.parse 0 .html (Text.encode "<ul><li n=1>a<b>c</ul></p><br>d<i>") = .ok d ∧
      d.nodes = [.document, .element (.plain "ul"), .element (.plain "li"),
        .attribute (.plain "n") "1", .text "a", .element (.plain "b"), .text "c", .finish, .finish,
        .finish, .element (.plain "br"), .finish, .text "d", .element (.plain "i"), .finish,
        .finish] ∧
      tokenize .html (Text.encode "<ul><li n=1>a<b>c</ul></p><br>d<i>") = .ok tokens ∧
      (Tokenizer.ofBytes .html (Text.encode "<ul><li n=1>a<b>c</ul></p><br>d<i>")).Run 0 tokens last ∧
      d.nodes.filter Node.isContent = Progress.images {} tokens := by
  have hnodes : (Document.parse 0 .html
      (Text.encode "<ul><li n=1>a<b>c</ul></p><br>d<i>")).toOption.map (·.nodes) =
        some [.document, .element (.plain "ul"), .element (.plain "li"),
          .attribute (.plain "n") "1", .text "a", .element (.plain "b"), .text "c", .finish, .finish,
          .finish, .element (.plain "br"), .finish, .text "d", .element (.plain "i"), .finish,
          .finish] := by decide +kernel
  obtain ⟨d, hd, hnodes⟩ := Option.map_eq_some_iff.mp hnodes
  have hparse := eq_ok_of_toOption hd
  obtain ⟨tokens, last, htokens, hrun, himages, -, -⟩ := parse_shows_tokens hparse
  exact ⟨d, tokens, last, hparse, hnodes, htokens, hrun, himages⟩

end Document
end MarkupGraft
