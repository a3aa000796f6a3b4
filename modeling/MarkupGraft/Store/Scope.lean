/-!
Namespace bindings in scope: prefixes in increasing order, each bound to the name of a namespace.
The empty prefix stands for the default namespace.
-/

namespace MarkupGraft

/-- The namespace of names that begin with the reserved prefix. -/
def xmlNamespace : String := "http://www.w3.org/XML/1998/namespace"

structure Scope where
  bindings : List (String × String)
  increasing : bindings.Pairwise (·.1 < ·.1)

namespace Scope

def empty : Scope := ⟨[], .nil⟩

instance : Inhabited Scope := ⟨empty⟩

instance : EmptyCollection Scope := ⟨empty⟩

instance : BEq Scope := ⟨fun s t => s.bindings == t.bindings⟩

def isEmpty (s : Scope) : Bool := s.bindings.isEmpty

def get? (s : Scope) (name : String) : Option String := s.bindings.lookup name

def contains (s : Scope) (name : String) : Bool := (s.get? name).isSome

def insertBinding (name value : String) : List (String × String) → List (String × String)
  | [] => [(name, value)]
  | b :: bindings =>
    if name < b.1 then (name, value) :: b :: bindings
    else if name = b.1 then (name, value) :: bindings
    else b :: insertBinding name value bindings

private theorem mem_insertBinding {name value : String} {bindings : List (String × String)}
    {b : String × String} (h : b ∈ insertBinding name value bindings) :
    b = (name, value) ∨ b ∈ bindings := by
  induction bindings with
  | nil => simpa [insertBinding] using h
  | cons a bindings ih => grind [insertBinding]

private theorem increasing_insertBinding {bindings : List (String × String)} (name value : String)
    (h : bindings.Pairwise (·.1 < ·.1)) :
    (insertBinding name value bindings).Pairwise (·.1 < ·.1) := by
  induction bindings with
  | nil => simp [insertBinding]
  | cons a bindings ih =>
    obtain ⟨ha, h⟩ := List.pairwise_cons.mp h
    simp only [insertBinding]
    split
    · rename_i hlt
      refine List.pairwise_cons.mpr ⟨?_, List.pairwise_cons.mpr ⟨ha, h⟩⟩
      intro b hb
      rcases List.mem_cons.mp hb with rfl | hb
      · exact hlt
      · exact String.lt_trans hlt (ha b hb)
    · split
      · rename_i he
        exact List.pairwise_cons.mpr ⟨fun b hb => he ▸ ha b hb, h⟩
      · rename_i hlt hne
        refine List.pairwise_cons.mpr ⟨?_, ih h⟩
        intro b hb
        rcases mem_insertBinding hb with rfl | hb
        · exact Decidable.byContradiction fun hle =>
            hne (String.le_antisymm (String.not_lt.mp hle) (String.not_lt.mp hlt))
        · exact ha b hb

/-- Binds a prefix, in place of an earlier binding. -/
def insert (s : Scope) (name value : String) : Scope :=
  ⟨insertBinding name value s.bindings, increasing_insertBinding name value s.increasing⟩

/-- Keeps the bindings of `s` and adds those of `t` for other prefixes. -/
def orElse (s t : Scope) : Scope :=
  t.bindings.foldl (fun s b => if s.contains b.1 then s else s.insert b.1 b.2) s

/-- The bindings of `s` with those of `t` in their place where both bind a prefix. -/
def override (s t : Scope) : Scope :=
  t.bindings.foldl (fun s b => s.insert b.1 b.2) s

/-- What is bound before any declaration: names without a prefix are in no namespace. -/
def base : Scope := (empty.insert "" "").insert "xml" xmlNamespace

/-- The bindings that are not those of `t`. -/
def without (s t : Scope) : Scope :=
  ⟨s.bindings.filter fun b => t.get? b.1 != some b.2, s.increasing.sublist List.filter_sublist⟩

end Scope
end MarkupGraft
