import MarkupGraft.Text.Utf8

/-! Templates by name. A later definition takes the place of an earlier one. -/

namespace MarkupGraft

structure Registry where
  /-- The latest definition first, and each name once. -/
  definitions : List (String × Bytes) := []

namespace Registry

def register (r : Registry) (name : String) (body : Bytes) : Registry :=
  ⟨(name, body) :: r.definitions.filter fun d => d.1 ≠ name⟩

def get? (r : Registry) (name : String) : Option Bytes := r.definitions.lookup name

def size (r : Registry) : Nat := r.definitions.length

def isEmpty (r : Registry) : Bool := r.definitions.isEmpty

theorem get?_register (r : Registry) (name other : String) (body : Bytes) :
    (r.register name body).get? other = if other = name then some body else r.get? other := by
  by_cases h : other = name
  · simp [register, get?, h]
  · simp only [register, get?, List.lookup_cons, beq_false_of_ne h, h, ↓reduceIte]
    induction r.definitions with
    | nil => rfl
    | cons d l ih =>
      obtain ⟨key, value⟩ := d
      by_cases hd : key = name
      · simpa [hd, List.lookup_cons, beq_false_of_ne h] using ih
      · simpa [hd, List.lookup_cons] using by rw [← ih]; simp

end Registry
end MarkupGraft
