import MarkupGraft.Store.Scope

/-! What is bound in a scope after bindings have come in. -/

namespace MarkupGraft.Scope
variable {s t : Scope}

private theorem lookup_cons (key space mark : String) (bindings : List (String × String)) :
    ((key, space) :: bindings).lookup mark =
      if mark = key then some space else bindings.lookup mark := by
  by_cases h : mark = key
  · simp [h]
  · have hne : (mark == key) = false := by simpa using h
    rw [List.lookup_cons, hne, if_neg h]

private theorem lookup_insertBinding (name value mark : String)
    (bindings : List (String × String)) : (insertBinding name value bindings).lookup mark =
      if mark = name then some value else bindings.lookup mark := by
  induction bindings with
  | nil => rw [insertBinding, lookup_cons]
  | cons b bindings ih =>
    obtain ⟨key, bound⟩ := b
    rw [insertBinding]
    split
    · rw [lookup_cons]
    · split
      · rename_i hkey
        obtain rfl : name = key := hkey
        rw [lookup_cons, lookup_cons]
        split <;> rfl
      · rename_i hkey
        have hne : ¬name = key := hkey
        rw [lookup_cons, lookup_cons, ih]
        split
        · rename_i he
          rw [if_neg fun hn => hne (hn.symm.trans he)]
        · rfl

@[simp] theorem get?_insert (s : Scope) (name value mark : String) :
    (s.insert name value).get? mark = if mark = name then some value else s.get? mark :=
  lookup_insertBinding name value mark s.bindings

private theorem mem_iff_lookup {bindings : List (String × String)} {mark space : String}
    (h : bindings.Pairwise (·.1 < ·.1)) :
    (mark, space) ∈ bindings ↔ bindings.lookup mark = some space := by
  induction bindings with
  | nil => simp
  | cons b bindings ih =>
    obtain ⟨hb, hrest⟩ := List.pairwise_cons.mp h
    obtain ⟨key, bound⟩ := b
    rw [List.mem_cons, lookup_cons]
    by_cases hm : mark = key
    · subst hm
      have hno : (mark, space) ∉ bindings := fun hin => String.lt_irrefl mark (hb _ hin)
      simp [hno, eq_comm]
    · simp [hm, ih hrest]

/-- The bindings of a scope are what it binds. -/
theorem mem_bindings_iff {mark space : String} :
    (mark, space) ∈ s.bindings ↔ s.get? mark = some space :=
  mem_iff_lookup s.increasing

private theorem get?_foldl {bindings : List (String × String)}
    (h : bindings.Pairwise (·.1 < ·.1)) (s : Scope) (mark : String) :
    (bindings.foldl (fun s b => s.insert b.1 b.2) s).get? mark =
      (bindings.lookup mark).or (s.get? mark) := by
  induction bindings generalizing s with
  | nil => rfl
  | cons b bindings ih =>
    obtain ⟨hb, hrest⟩ := List.pairwise_cons.mp h
    obtain ⟨key, space⟩ := b
    rw [List.foldl_cons, ih hrest, lookup_cons, get?_insert]
    split
    · rename_i hm
      obtain rfl : mark = key := hm
      have hno : bindings.lookup mark = none := by
        cases hl : bindings.lookup mark with
        | none => rfl
        | some bound =>
          exact absurd (hb _ ((mem_iff_lookup hrest).mpr hl)) (String.lt_irrefl mark)
      rw [hno]
      rfl
    · rfl

theorem get?_override (s t : Scope) (mark : String) :
    (s.override t).get? mark = (t.get? mark).or (s.get? mark) :=
  get?_foldl t.increasing s mark

private theorem get?_foldl_orElse (bindings : List (String × String)) (s : Scope) (mark : String) :
    (bindings.foldl (fun s b => if s.contains b.1 then s else s.insert b.1 b.2) s).get? mark =
      (s.get? mark).or (bindings.lookup mark) := by
  induction bindings generalizing s with
  | nil => exact Option.or_none.symm
  | cons b bindings ih =>
    obtain ⟨key, space⟩ := b
    rw [List.foldl_cons, ih, lookup_cons]
    by_cases hm : mark = key
    · subst hm
      rw [if_pos rfl]
      cases hs : s.get? mark with
      | none => simp [contains, hs]
      | some bound => simp [contains, hs]
    · rw [if_neg hm]
      split
      · rfl
      · rw [get?_insert, if_neg hm]

/-- Of two bindings of a prefix the first is kept. -/
theorem get?_orElse (s t : Scope) (mark : String) :
    (s.orElse t).get? mark = (s.get? mark).or (t.get? mark) :=
  get?_foldl_orElse t.bindings s mark

theorem get?_base (mark : String) :
    base.get? mark = if mark = "xml" then some xmlNamespace
      else if mark = "" then some "" else none := by
  rw [base, get?_insert, get?_insert]
  rfl

theorem get?_without {mark space : String} : (s.without t).get? mark = some space ↔
    s.get? mark = some space ∧ t.get? mark ≠ some space := by
  rw [← mem_bindings_iff, ← mem_bindings_iff]
  simp [without]

end MarkupGraft.Scope
