import Mathlib.Data.List.Basic
import Mathlib.Data.List.Nodup
import Mathlib.Data.List.TakeWhile
import MarkupGraft.Proofs.Markup.Printing
import MarkupGraft.Proofs.Store.Scope
import MarkupGraft.Store.Writing

/-!
Names written under a scope and read back. A name is bound when some prefix in scope leads to its
namespace; then the prefix chosen for writing leads there too.
-/

namespace MarkupGraft
open Markup (IsWord)

/-- A word without a colon, as a prefix and the local part of a name are. -/
def IsNamePart (name : String) : Prop := IsWord name ∧ ':' ∉ name.toList

/-- Names as prefixes are checked to be can be read back. -/
theorem isNamePart_of_isColonFree {name : String} (h : Name.isColonFree name) :
    IsNamePart name := by
  have hmarks : ∀ c ∈ ':' :: Markup.tagMarks, ¬(Text.isAlphabetic c || c = '_') ∧
      ¬(Text.isAlphanumeric c || c = '_' || c = '-' || c = '.') := by
    rw [← List.forall_iff_forall_mem]
    decide
  unfold Name.isColonFree at h
  split at h
  · cases h
  · rename_i first rest hlist
    rw [Bool.and_eq_true, List.all_eq_true] at h
    have hno : ∀ c ∈ name.toList, c ∉ ':' :: Markup.tagMarks := by
      intro c hc hm
      rw [hlist, List.mem_cons] at hc
      rcases hc with rfl | hc
      · exact (hmarks _ hm).1 h.1
      · exact (hmarks _ hm).2 (h.2 c hc)
    refine ⟨⟨?_, fun c hc hm => hno c hc (List.mem_cons_of_mem _ hm)⟩,
      fun hc => hno _ hc List.mem_cons_self⟩
    rintro rfl
    cases hlist

theorem isWord_append {a b : String} (ha : IsWord a) (hb : b = "" ∨ IsWord b) :
    IsWord (a ++ ":" ++ b) := by
  refine ⟨fun he => ?_, fun c hc => ?_⟩
  · have := congrArg String.toList he
    simp at this
  · simp only [String.toList_append, List.mem_append] at hc
    rcases hc with (hc | hc) | hc
    · exact ha.2 c hc
    · obtain rfl : c = ':' := by simpa using hc
      decide
    · rcases hb with rfl | hb
      · cases hc
      · exact hb.2 c hc

/-- Whether an attribute may bind a prefix to a namespace. -/
structure Declarable (mark space : String) : Prop where
  isNamePart : mark = "" ∨ IsNamePart mark
  mark_ne : mark ≠ "xmlns"
  space_ne : space ≠ "xmlns"

namespace Scope

/-- All that is bound may be declared. -/
def Sound (s : Scope) : Prop := ∀ mark space, s.get? mark = some space → Declarable mark space

theorem Sound.insert {s : Scope} (h : s.Sound) {mark space : String} (hd : Declarable mark space) :
    (s.insert mark space).Sound := by
  intro m v hm
  rw [get?_insert] at hm
  split at hm
  · rename_i he
    cases hm
    exact he ▸ hd
  · exact h m v hm

end Scope

namespace Name

/-- Whether a name can be written where a scope holds, and read back. -/
def Bound (s : Scope) : NameRole → Name → Prop
  | .element, n => IsNamePart n.base ∧
      if n.space = "" then (s.get? "").getD "" = "" else ∃ mark, s.get? mark = some n.space
  | .attribute, n => IsNamePart n.base ∧
      (n.space = "" ∨ ∃ mark, mark ≠ "" ∧ s.get? mark = some n.space)

/-- Whether a name can be written where a scope holds. A namespace that no fitting prefix leads to is
written as a prefix itself, which must not lead elsewhere. -/
def Settled (s : Scope) (role : NameRole) (n : Name) : Prop :=
  IsNamePart n.base ∧ (n.space = "" ∨
    (∃ mark, (role = .attribute → mark ≠ "") ∧ s.get? mark = some n.space) ∨
      isColonFree n.space ∧ s.get? n.space = none)

/-- What is read of a name where it has been written. -/
def reread (s : Scope) (role : NameRole) (n : Name) : Name := resolve s role (n.written s role)

theorem Bound.settled {s : Scope} {role : NameRole} {n : Name} (h : n.Bound s role) :
    n.Settled s role := by
  by_cases hspace : n.space = ""
  · cases role <;> exact ⟨h.1, .inl hspace⟩
  · cases role with
    | element =>
      obtain ⟨hbase, hbound⟩ := h
      rw [if_neg hspace] at hbound
      obtain ⟨mark, hget⟩ := hbound
      exact ⟨hbase, .inr (.inl ⟨mark, by simp, hget⟩)⟩
    | «attribute» =>
      obtain ⟨mark, hne, hget⟩ := h.2.resolve_left hspace
      exact ⟨h.1, .inr (.inl ⟨mark, fun _ => hne, hget⟩)⟩

/-! Colons -/

private theorem ne_colon {text : String} (h : ':' ∉ text.toList) :
    ∀ c ∈ text.toList, decide (c ≠ ':') = true := by
  intro c hc
  have hne : c ≠ ':' := fun he => h (he ▸ hc)
  simpa using hne

private theorem splitColon?_none {text : String} (h : ':' ∉ text.toList) :
    splitColon? text = none := by
  have htake : text.toList.takeWhile (· ≠ ':') = text.toList :=
    List.takeWhile_eq_self_iff.mpr (ne_colon h)
  simp only [splitColon?, htake, List.drop_length]

private theorem splitColon?_append {mark : String} (h : ':' ∉ mark.toList) (base : String) :
    splitColon? (mark ++ ":" ++ base) = some (mark, base) := by
  have hlist : (mark ++ ":" ++ base).toList = mark.toList ++ ':' :: base.toList := by simp
  have htake : (mark ++ ":" ++ base).toList.takeWhile (· ≠ ':') = mark.toList := by
    rw [hlist, List.takeWhile_append_of_pos (ne_colon h), List.takeWhile_cons_of_neg (by simp),
      List.append_nil]
  have hdrop : (mark ++ ":" ++ base).toList.drop mark.toList.length = ':' :: base.toList := by
    rw [hlist, List.drop_left]
  simp only [splitColon?, htake, hdrop]
  simp

/-- The key of a declaration has the reserved prefix. -/
private theorem splitColon?_of_declaredPrefix? {key mark : String} (hk : key ≠ "xmlns")
    (h : declaredPrefix? key = some mark) : splitColon? key = some ("xmlns", mark) := by
  rw [declaredPrefix?, if_neg hk] at h
  obtain ⟨rest, hrest, rfl⟩ := Option.map_eq_some_iff.mp h
  have hkey : key = "xmlns" ++ ":" ++ String.ofList rest := by
    rw [← String.toList_inj, ← List.isPrefixOf?_eq_some_iff_append_eq.mp hrest]
    simp
  rw [hkey]
  exact splitColon?_append (by decide) _

private theorem declaredPrefix?_none {key : String} (h : ':' ∉ key.toList) (hk : key ≠ "xmlns") :
    declaredPrefix? key = none := by
  cases hd : declaredPrefix? key with
  | none => rfl
  | some mark =>
    have := splitColon?_of_declaredPrefix? hk hd
    rw [splitColon?_none h] at this
    cases this

private theorem colon_mem (mark base : String) : ':' ∈ (mark ++ ":" ++ base).toList := by simp

private theorem append_ne_xmlns (mark base : String) : mark ++ ":" ++ base ≠ "xmlns" := fun h =>
  absurd (h ▸ colon_mem mark base) (by decide)

private theorem declaredPrefix?_append {mark : String} (h : ':' ∉ mark.toList)
    (hm : mark ≠ "xmlns") (base : String) : declaredPrefix? (mark ++ ":" ++ base) = none := by
  cases hd : declaredPrefix? (mark ++ ":" ++ base) with
  | none => rfl
  | some other =>
    have := splitColon?_of_declaredPrefix? (append_ne_xmlns mark base) hd
    rw [splitColon?_append h] at this
    cases this
    exact absurd rfl hm

private theorem declaredPrefix?_xmlns (base : String) :
    declaredPrefix? ("xmlns" ++ ":" ++ base) = some base := by
  have hprefix : "xmlns:".toList.isPrefixOf? ("xmlns" ++ ":" ++ base).toList = some base.toList := by
    rw [List.isPrefixOf?_eq_some_iff_append_eq]
    simp
  rw [declaredPrefix?, if_neg (append_ne_xmlns _ _), hprefix]
  simp

/-! Prefixes -/

/-- A prefix is found for the namespace of a bound name. -/
theorem prefixFor?_eq {s : Scope} {role : NameRole} {space : String} (hs : space ≠ "")
    (h : ∃ mark, (role = .attribute → mark ≠ "") ∧ s.get? mark = some space) :
    (s.get? "" = some space ∧ role = .element ∧ prefixFor? s role space = none) ∨
      ∃ mark, mark ≠ "" ∧ s.get? mark = some space ∧ prefixFor? s role space = some mark := by
  obtain ⟨mark, hmark, hget⟩ := h
  rw [prefixFor?, if_neg hs]
  cases hf : s.bindings.find? fun b => b.2 = space && !(role = .attribute && b.1 = "") with
  | none =>
    have := List.find?_eq_none.mp hf _ (Scope.mem_bindings_iff.mpr hget)
    simp only [decide_true, Bool.true_and, Bool.not_eq_true', Bool.not_eq_false,
      Bool.and_eq_true, decide_eq_true_eq] at this
    exact absurd this.2 (hmark this.1)
  | some b =>
    obtain ⟨key, bound⟩ := b
    have hfound := List.find?_some hf
    have hget' := Scope.mem_bindings_iff.mp (List.mem_of_find?_eq_some hf)
    simp only [Bool.and_eq_true, decide_eq_true_eq, Bool.not_eq_true', Bool.and_eq_false_iff,
      decide_eq_false_iff_not] at hfound
    obtain ⟨rfl, hrole⟩ := hfound
    by_cases hk : key = ""
    · subst hk
      have hrole : role = .element := by
        cases role with
        | element => rfl
        | «attribute» => simp at hrole
      exact .inl ⟨hget', hrole, by simp⟩
    · exact .inr ⟨key, hk, hget', by simp [hk]⟩

/-- A namespace that no fitting prefix leads to is a prefix itself where it can be one. -/
theorem prefixFor?_of_unbound {s : Scope} {role : NameRole} {space : String} (hs : space ≠ "")
    (h : ¬∃ mark, (role = .attribute → mark ≠ "") ∧ s.get? mark = some space) :
    prefixFor? s role space = if isColonFree space then some space else none := by
  have hnone : (s.bindings.find? fun b =>
      b.2 = space && !(role = .attribute && b.1 = "")) = none := by
    rw [List.find?_eq_none]
    intro b hb hfound
    simp only [Bool.and_eq_true, decide_eq_true_eq, Bool.not_eq_true', Bool.and_eq_false_iff,
      decide_eq_false_iff_not] at hfound
    refine h ⟨b.1, fun hr => hfound.2.resolve_left (· hr), ?_⟩
    rw [← hfound.1]
    exact Scope.mem_bindings_iff.mp hb
  rw [prefixFor?, if_neg hs, hnone]

theorem resolve_base {s : Scope} {role : NameRole} {base : String}
    (h : ':' ∉ base.toList) : resolve s role base =
      ⟨if role = .element then (s.get? "").getD "" else "", base⟩ := by
  unfold resolve
  rw [splitColon?_none h]
  cases role <;> rfl

theorem resolve_append {s : Scope} {role : NameRole} {mark : String}
    (h : ':' ∉ mark.toList) (hx : role = .attribute → mark ≠ "xmlns") (base : String) :
    resolve s role (mark ++ ":" ++ base) = ⟨(s.get? mark).getD mark, base⟩ := by
  unfold resolve
  rw [splitColon?_append h]
  split
  · rename_i he
    cases he
    exact absurd rfl (hx rfl)
  · rename_i he _
    cases he
    rfl
  all_goals contradiction

/-- The prefix that marks declarations is in its own namespace. -/
theorem resolve_xmlns (s : Scope) (base : String) :
    resolve s .attribute ("xmlns" ++ ":" ++ base) = ⟨"xmlns", base⟩ := by
  unfold resolve
  rw [splitColon?_append (by decide)]
  rfl

/-- The empty prefix comes first, so a default namespace is written without a prefix. -/
private theorem prefixFor?_default {s : Scope} {space : String} (h : s.get? "" = some space) :
    prefixFor? s .element space = none := by
  have hmem := Scope.mem_bindings_iff.mpr h
  have hsorted := s.increasing
  rw [prefixFor?]
  split
  · rfl
  · rename_i hspace
    cases hb : s.bindings with
    | nil =>
      rw [hb] at hmem
      cases hmem
    | cons b others =>
      rw [hb] at hmem hsorted
      rcases List.mem_cons.mp hmem with rfl | hm
      · simp
      · have hlt := String.lt_iff.mp ((List.pairwise_cons.mp hsorted).1 _ hm)
        exact absurd hlt (List.not_lt_nil _)

section
variable {s : Scope} (hs : s.Sound) {n : Name}
include hs

/-- A settled name is written without a prefix, or with one that leads to its namespace. -/
private theorem written_eq {role : NameRole} (h : n.Settled s role) :
    (n.written s role = n.base ∧
        (n.space = "" ∨ role = .element ∧ s.get? "" = some n.space)) ∨
      ∃ mark, IsNamePart mark ∧ (s.get? mark).getD mark = n.space ∧
        (mark = "xmlns" → n.space = "xmlns") ∧ n.written s role = mark ++ ":" ++ n.base := by
  have bound {mark : String} (hne : mark ≠ "") (hget : s.get? mark = some n.space)
      (hw : n.written s role = mark ++ ":" ++ n.base) : ∃ mark, IsNamePart mark ∧
        (s.get? mark).getD mark = n.space ∧ (mark = "xmlns" → n.space = "xmlns") ∧
          n.written s role = mark ++ ":" ++ n.base :=
    ⟨mark, (hs _ _ hget).isNamePart.resolve_left hne, by rw [hget]; rfl,
      fun he => absurd he (hs _ _ hget).mark_ne, hw⟩
  by_cases hspace : n.space = ""
  · exact .inl ⟨by rw [written, prefixFor?, if_pos hspace], .inl hspace⟩
  · by_cases hmark : ∃ mark, (role = .attribute → mark ≠ "") ∧ s.get? mark = some n.space
    · rcases prefixFor?_eq hspace hmark with ⟨hget, hrole, hp⟩ | ⟨mark, hne, hget, hp⟩
      · exact .inl ⟨by rw [written, hp], .inr ⟨hrole, hget⟩⟩
      · exact .inr (bound hne hget (by rw [written, hp]))
    · obtain ⟨hfree, hget⟩ := (h.2.resolve_left hspace).resolve_left hmark
      refine .inr ⟨n.space, isNamePart_of_isColonFree hfree, by rw [hget]; rfl, id, ?_⟩
      rw [written, prefixFor?_of_unbound hspace hmark, if_pos hfree]

/-- A settled name is read back, but for an element in no namespace, which takes the default one. -/
theorem reread_eq {role : NameRole} (h : n.Settled s role)
    (hd : role = .attribute → n.declares? = none) :
    n.reread s role = n ∨ role = .element ∧ n.space = "" ∧ n.written s role = n.base ∧
      n.reread s role = ⟨(s.get? "").getD "", n.base⟩ := by
  rcases written_eq hs h with ⟨hw, hspace⟩ | ⟨mark, hmark, hget, hxmlns, hw⟩
  · have hread := @resolve_base s role _ h.1.2
    rw [reread, hw, hread]
    rcases hspace with hspace | ⟨rfl, hget⟩
    · cases role with
      | element => exact .inr ⟨rfl, hspace, rfl, rfl⟩
      | «attribute» => exact .inl (by rw [if_neg (by simp), ← hspace])
    · exact .inl (by rw [if_pos rfl, hget]; rfl)
  · refine .inl ?_
    rw [reread, hw, resolve_append hmark.2 (fun hr he => ?_), hget]
    have := hd hr
    simp [declares?, hxmlns he] at this

/-- An attribute that declares nothing is read back. -/
theorem reread_attribute (h : n.Settled s .attribute) (hd : n.declares? = none) :
    n.reread s .attribute = n := by
  rcases reread_eq hs h fun _ => hd with h | ⟨h, -⟩
  · exact h
  · cases h

/-- What is read of a name is written as the name. -/
theorem written_reread (h : n.Settled s .element) :
    (n.reread s .element).written s .element = n.written s .element := by
  rcases reread_eq hs h (by simp) with he | ⟨-, -, hw, he⟩
  · rw [he]
  · rw [he, hw, written]
    have hmark : prefixFor? s .element ((s.get? "").getD "") = none := by
      cases hget : s.get? "" with
      | none => rfl
      | some space => exact prefixFor?_default hget
    simp only [hmark]

/-- A bound name is read back. -/
theorem reread_of_bound (h : n.Bound s .element) : n.reread s .element = n := by
  rcases reread_eq hs h.settled (by simp) with he | ⟨-, hspace, -, he⟩
  · exact he
  · obtain ⟨-, hdefault⟩ := h
    rw [if_pos hspace] at hdefault
    rw [he, hdefault, ← hspace]

/-- A settled name is written as a word. -/
theorem isWord_written {role : NameRole} (h : n.Settled s role) : IsWord (n.written s role) := by
  rcases written_eq hs h with ⟨hw, -⟩ | ⟨mark, hmark, -, -, hw⟩
  · rw [hw]
    exact h.1.1
  · rw [hw]
    exact isWord_append hmark.1 (.inr h.1.1)

/-- An attribute that declares nothing is not written as a declaration. -/
theorem declaredPrefix?_written (h : n.Settled s .attribute) (hd : n.declares? = none) :
    declaredPrefix? (n.written s .attribute) = none := by
  rcases written_eq hs h with ⟨hw, hspace⟩ | ⟨mark, hmark, -, hxmlns, hw⟩
  · rw [hw]
    refine declaredPrefix?_none h.1.2 fun he => ?_
    have hspace : n.space = "" := hspace.resolve_right (by simp)
    simp [declares?, hspace, he] at hd
  · rw [hw]
    refine declaredPrefix?_append hmark.2 (fun he => ?_) _
    simp [declares?, hxmlns he] at hd

/-- The reserved prefix is written for the namespace of declarations. -/
private theorem prefixFor?_xmlns : prefixFor? s .attribute "xmlns" = some "xmlns" := by
  have hunbound : ¬∃ mark, (NameRole.attribute = .attribute → mark ≠ "") ∧
      s.get? mark = some "xmlns" := by
    rintro ⟨mark, -, hget⟩
    exact (hs mark _ hget).space_ne rfl
  rw [prefixFor?_of_unbound (by decide) hunbound, if_pos (by decide)]

/-- A declaration is written as one, and read back. -/
theorem written_declaration {mark : String} (hd : n.declares? = some mark)
    (hm : mark = "" ∨ IsNamePart mark) :
    declaredPrefix? (n.written s .attribute) = some mark ∧
      n.reread s .attribute = n ∧ IsWord (n.written s .attribute) := by
  rw [reread]
  have hxmlns : IsWord "xmlns" := (isNamePart_of_isColonFree (by decide)).1
  obtain ⟨space, base⟩ := n
  unfold declares? at hd
  split at hd
  · rename_i h
    obtain ⟨rfl, rfl⟩ : space = "" ∧ base = "xmlns" := h
    cases hd
    have hcolon : ':' ∉ "xmlns".toList := by decide
    exact ⟨rfl, resolve_base hcolon, hxmlns⟩
  · split at hd
    · rename_i h
      obtain rfl : space = "xmlns" := h
      cases hd
      have hw : written s .attribute ⟨"xmlns", base⟩ = "xmlns" ++ ":" ++ base := by
        rw [written, prefixFor?_xmlns hs]
      rw [hw]
      exact ⟨declaredPrefix?_xmlns base, resolve_xmlns s base,
        isWord_append hxmlns (hm.imp_right And.left)⟩
    · cases hd

end

end Name

namespace Tree
open Markup (Attribute)

/-- The declarations and the other names of the attributes of an element can be read back where they
themselves hold. -/
structure AttributesBound (s : Scope) (attributes : List (Name × String)) : Prop where
  declared : ∀ a ∈ attributes, ∀ mark, a.1.declares? = some mark → Declarable mark a.2
  bound : ∀ a ∈ attributes, a.1.declares? = none → a.1.Bound s .attribute
  nodup : (attributes.map (·.1)).Nodup

/-- The declarations and the other names of the attributes of an element are read back where they
themselves hold. XML admits no name twice. -/
structure AttributesSettled (mode : Markup.Mode) (s : Scope) (attributes : List (Name × String)) :
    Prop where
  declared : ∀ a ∈ attributes, ∀ mark, a.1.declares? = some mark → Declarable mark a.2
  settled : ∀ a ∈ attributes, a.1.declares? = none → a.1.Settled s .attribute
  nodup : mode = .xml → (attributes.map (·.1)).Nodup

theorem AttributesBound.settled {s : Scope} {attributes : List (Name × String)}
    (h : AttributesBound s attributes) (mode : Markup.Mode) :
    AttributesSettled mode s attributes :=
  ⟨h.declared, fun a ha hd => (h.bound a ha hd).settled, fun _ => h.nodup⟩

/-- The attributes of an element as they are written. -/
def writtenAttributes (s : Scope) (attributes : List (Name × String)) : List Attribute :=
  attributes.map fun a => ⟨a.1.written s .attribute, a.2⟩

theorem sound_declare {s : Scope} (hs : s.Sound) {attributes : List (Name × String)}
    (hd : ∀ a ∈ attributes, ∀ mark, a.1.declares? = some mark → Declarable mark a.2) :
    (declare s attributes).Sound := by
  induction attributes generalizing s with
  | nil => exact hs
  | cons a attributes ih =>
    obtain ⟨ha, hd⟩ := List.forall_mem_cons.mp hd
    rw [declare, List.foldl_cons]
    refine ih ?_ hd
    split
    · rename_i mark hm
      exact hs.insert (ha mark hm)
    · exact hs

section
variable {mode : Markup.Mode} {s : Scope} (hs : s.Sound) {attributes : List (Name × String)}
  (h : AttributesSettled mode s attributes)
include hs h

private theorem written_attribute {a : Name × String} (ha : a ∈ attributes) :
    declaredPrefix? (a.1.written s .attribute) = a.1.declares? ∧
      a.1.reread s .attribute = a.1 ∧ IsWord (a.1.written s .attribute) := by
  cases hd : a.1.declares? with
  | none =>
    have hb := h.settled a ha hd
    exact ⟨Name.declaredPrefix?_written hs hb hd, Name.reread_attribute hs hb hd,
      Name.isWord_written hs hb⟩
  | some mark => exact Name.written_declaration hs hd (h.declared a ha mark hd).isNamePart

theorem isWord_writtenAttributes : ∀ a ∈ writtenAttributes s attributes, IsWord a.key := by
  intro a ha
  obtain ⟨b, hb, rfl⟩ := List.mem_map.mp ha
  exact (written_attribute hs h hb).2.2

/-- Different names are written differently. -/
theorem nodup_writtenAttributes (hm : mode = .xml) :
    ((writtenAttributes s attributes).map (·.key)).Nodup := by
  have hkeys : (writtenAttributes s attributes).map (·.key) =
      (attributes.map (·.1)).map fun n => n.written s .attribute := by
    simp [writtenAttributes, Function.comp_def]
  rw [hkeys]
  refine List.Nodup.map_on ?_ (h.nodup hm)
  intro m hm n hn he
  obtain ⟨a, ha, rfl⟩ := List.mem_map.mp hm
  obtain ⟨b, hb, rfl⟩ := List.mem_map.mp hn
  rw [← (written_attribute hs h ha).2.1, ← (written_attribute hs h hb).2.1, Name.reread,
    Name.reread, he]

/-- Written attributes are read back. -/
theorem resolve_writtenAttributes :
    (writtenAttributes s attributes).map (fun a => (Name.resolve s .attribute a.key, a.value)) =
      attributes := by
  rw [writtenAttributes, List.map_map]
  conv_rhs => rw [← List.map_id attributes]
  refine List.map_congr_left fun a ha => ?_
  exact Prod.ext (written_attribute hs h ha).2.1 rfl

/-- Written attributes declare what the attributes declare. -/
theorem declare_writtenAttributes (outer : Scope) :
    outer.declare ((writtenAttributes s attributes).map fun a => (a.key, a.value)) =
      declare outer attributes := by
  have hsame : ∀ a ∈ attributes,
      declaredPrefix? (a.1.written s .attribute) = a.1.declares? := fun a ha =>
    (written_attribute hs h ha).1
  rw [writtenAttributes, List.map_map, Scope.declare, declare, List.foldl_map]
  refine List.foldl_ext _ _ _ fun t a ha => ?_
  cases hd : a.1.declares? with
  | none => simp only [Function.comp_apply, hsame a ha, hd]
  | some mark => simp only [Function.comp_apply, hsame a ha, hd]

end

mutual

/-- Whether the names of a tree can be written where `s` is in scope and read back. -/
def Bound (s : Scope) : Tree → Prop
  | .element name attributes children =>
    name.Bound (declare s attributes) .element ∧
      AttributesBound (declare s attributes) attributes ∧
        BoundAll (declare s attributes) children
  | _ => True

def BoundAll (s : Scope) : List Tree → Prop
  | [] => True
  | tree :: trees => Bound s tree ∧ BoundAll s trees

end

end Tree
end MarkupGraft
