import Mathlib.Data.List.Sort
import MarkupGraft.Proofs.Store.Qualification
import MarkupGraft.Store.Writing

/-!
Trees that are written alike in different scopes. The prefix of a name is the first that is bound to
its namespace, so a tree depends on the scope by the bindings to namespaces it uses. An outermost
element that takes declarations from its former place is written as it was there, the declarations
put in behind its tag name.
-/

namespace MarkupGraft
open MarkupGraft.Tree (listing listingAll attributeNodes)

/-- The namespaces of some nodes are bound to the same prefixes. -/
def Scope.Agree (s t : Scope) (nodes : List Node) : Prop :=
  ∀ mark space, space ≠ "" → (∃ n ∈ nodes, Placement.uses mark space n) →
    (s.get? mark = some space ↔ t.get? mark = some space)

theorem Scope.Agree.mono {s t : Scope} {nodes others : List Node} (h : Agree s t nodes)
    (hsub : others ⊆ nodes) : Agree s t others :=
  fun mark space hspace ⟨n, hn, hu⟩ => h mark space hspace ⟨n, hsub hn, hu⟩

namespace Name
variable {s t : Scope}

/-- The prefix to write for a namespace depends on its own bindings. -/
theorem prefixFor?_congr {role : NameRole} {space : String}
    (h : ∀ mark, space ≠ "" → (role = .attribute → mark ≠ "") →
      (s.get? mark = some space ↔ t.get? mark = some space)) :
    prefixFor? s role space = prefixFor? t role space := by
  unfold prefixFor?
  split
  · rfl
  · rename_i hspace
    let wanted (b : String × String) : Bool := b.2 = space && !(role = .attribute && b.1 = "")
    have hfilter : s.bindings.filter wanted = t.bindings.filter wanted := by
      refine (s.increasing.filter wanted).eq_of_mem_iff (t.increasing.filter wanted) fun b => ?_
      rw [List.mem_filter, List.mem_filter, Scope.mem_bindings_iff, Scope.mem_bindings_iff]
      refine and_congr_left fun hb => ?_
      have hb : b.2 = space ∧ (role = .attribute → b.1 ≠ "") := by
        simpa [wanted, imp_iff_not_or] using hb
      rw [hb.1]
      exact h b.1 hspace hb.2
    have hfind : s.bindings.find? wanted = t.bindings.find? wanted := by
      rw [← List.head?_filter, ← List.head?_filter, hfilter]
    simp only [wanted] at hfind
    rw [hfind]

theorem written_congr {nodes : List Node} (h : Scope.Agree s t nodes) {role : NameRole} {n : Name}
    (hu : ∀ mark, (role = .attribute → mark ≠ "") →
      ∃ node ∈ nodes, Placement.uses mark n.space node) :
    n.written s role = n.written t role := by
  rw [written, written, prefixFor?_congr fun mark hspace hmark =>
    h mark n.space hspace (hu mark hmark)]

theorem written_element_congr {nodes : List Node} (h : Scope.Agree s t nodes) {n : Name}
    (hn : .element n ∈ nodes) : n.written s .element = n.written t .element :=
  written_congr h fun mark _ => ⟨_, hn, by simp [Placement.uses]⟩

theorem written_attribute_congr {nodes : List Node} (h : Scope.Agree s t nodes) {n : Name}
    {value : String} (hn : .attribute n value ∈ nodes) :
    n.written s .attribute = n.written t .attribute :=
  written_congr h fun mark hmark => ⟨_, hn, by simpa [Placement.uses] using hmark⟩

end Name

namespace Tree
variable {s t : Scope}

theorem agree_declare {nodes : List Node} (h : Scope.Agree s t nodes)
    (attributes : List (Name × String)) :
    Scope.Agree (declare s attributes) (declare t attributes) nodes := by
  intro mark space hspace hu
  by_cases hm : mark ∈ declaredMarks attributes
  · rw [get?_declare_of_mem hm s t]
  · rw [get?_declare_of_not_mem hm, get?_declare_of_not_mem hm]
    exact h mark space hspace hu

/-! Elements in parts -/

/-- The markup of attributes, a blank in front of each. -/
def writeAttributes (s : Scope) (attributes : List (Name × String)) : String :=
  String.join (attributes.map fun a => " " ++ writeAttribute s a.1 a.2)

/-- The markup of an element behind its attributes, where `s` is in scope inside it. -/
def writeContent (mode : Markup.Mode) (s : Scope) (name : Name) (children : List Tree) : String :=
  if children.isEmpty && Markup.isVoidElement name.base then "/>"
  else
    ">" ++ writeAll mode (isVerbatim mode name) s children ++
      "</" ++ name.written s .element ++ ">"

theorem intercalate_empty (texts : List String) :
    "".intercalate texts = String.join texts := by
  induction texts with
  | nil => simp
  | cons t texts ih => cases texts <;> simp_all

theorem write_element (mode : Markup.Mode) (verbatim : Bool) (s : Scope) (name : Name)
    (attributes : List (Name × String)) (children : List Tree) :
    write mode verbatim s (.element name attributes children) =
      "<" ++ name.written (declare s attributes) .element ++
        writeAttributes (declare s attributes) attributes ++
          writeContent mode (declare s attributes) name children := by
  rw [write, intercalate_empty, writeContent]
  split <;> simp only [writeAttributes, String.append_assoc]

theorem writeAttributes_congr (attributes : List (Name × String))
    (h : Scope.Agree s t (attributeNodes attributes)) :
    writeAttributes s attributes = writeAttributes t attributes := by
  refine congrArg _ (List.map_congr_left fun a ha => ?_)
  rw [writeAttribute, writeAttribute, Name.written_attribute_congr h (List.mem_map_of_mem ha)]

/-- Trees are written alike where their namespaces are bound to the same prefixes. -/
theorem writeAll_congr (mode : Markup.Mode) (verbatim : Bool) (ts : List Tree)
    (h : Scope.Agree s t (listingAll ts)) :
    writeAll mode verbatim s ts = writeAll mode verbatim t ts := by
  induction ts using forest_induction generalizing s t verbatim with
  | nil => rfl
  | element name attributes children ts ihc iht =>
    have hinner := agree_declare h attributes
    have hname : name.written (declare s attributes) .element =
        name.written (declare t attributes) .element :=
      Name.written_element_congr hinner (by simp [listingAll, listing])
    have hattributes := writeAttributes_congr attributes
      (hinner.mono fun n hn => by simp [listingAll, listing, hn])
    have hcontent := ihc (isVerbatim mode name)
      (hinner.mono fun n hn => by simp [listingAll, listing, hn])
    have hrest := iht verbatim (h.mono fun n hn => by simp [listingAll, hn])
    rw [writeAll, writeAll, hrest, write_element, write_element, hname, hattributes, writeContent,
      writeContent, hcontent, hname]
  | text value ts ih | comment _ ts ih | instruction _ ts ih | doctype _ ts ih =>
    have hrest := ih verbatim (h.mono fun n hn => by simp [listingAll, hn])
    rw [writeAll, writeAll, hrest]
    rfl

/-! Former places -/

/-- On its own, an outermost element is written as at its former place, with the declarations that
it takes from there behind its tag name. -/
theorem exists_write_placed {scope : Scope}
    (hxml : ∀ space, scope.get? "xml" = some space → space = xmlNamespace) (mode : Markup.Mode)
    (name : Name) (attributes : List (Name × String)) (children : List Tree) :
    let tree := Tree.element name attributes children
    let tag := name.written (declare (Scope.base.override scope) attributes) .element
    let taken := tree.declared scope .base
    ∃ rest, write mode false (Scope.base.override scope) tree = "<" ++ tag ++ rest ∧
      write mode false .base (tree.placed scope .base) =
        "<" ++ tag ++ writeAttributes (declare .base (taken ++ attributes)) taken ++ rest := by
  intro tree tag taken
  let former := declare (Scope.base.override scope) attributes
  let own := declare .base (taken ++ attributes)
  have hagree : Scope.Agree former own (listing tree) := fun mark space hspace hu =>
    get?_declared_iff hxml hspace hu
  have hname : tag = name.written own .element :=
    Name.written_element_congr hagree (by simp [tree, listing])
  have hattributes : writeAttributes former attributes = writeAttributes own attributes :=
    writeAttributes_congr attributes (hagree.mono fun n hn => by simp [tree, listing, hn])
  have hcontent : writeContent mode former name children = writeContent mode own name children := by
    have hchildren := writeAll_congr mode (isVerbatim mode name) children
      (hagree.mono fun n hn => by simp [tree, listing, hn])
    rw [writeContent, writeContent, hchildren, ← hname]
  refine ⟨writeAttributes former attributes ++ writeContent mode former name children, ?_, ?_⟩
  · rw [write_element, String.append_assoc]
  · rw [placed, withDeclarations, write_element, ← hname]
    simp only [writeAttributes, List.map_append, String.join_append] at hattributes ⊢
    rw [hattributes, hcontent]
    simp only [String.append_assoc]
    rfl

end Tree
end MarkupGraft
