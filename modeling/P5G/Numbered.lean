import Mathlib.Data.Nat.Cast.Basic

/-!
# Numbered lists

A list whose elements carry consecutive numbers from a first one on, as the rows of
a log that leaves out nothing and repeats nothing.
-/

namespace P5G

variable {α M : Type*} [AddMonoidWithOne M] {f : α → M} {first : M} {l : List α}

/-- The element at `i` has the number `first + i`. -/
def Numbered (f : α → M) (first : M) (l : List α) : Prop :=
  ∀ (i : Nat) x, l[i]? = some x → f x = first + i

namespace Numbered

theorem nil : Numbered f first [] := by
  intro i x hi
  rw [List.getElem?_nil] at hi
  cases hi

theorem concat {x : α} (h : Numbered f first l) (hx : f x = first + l.length) :
    Numbered f first (l ++ [x]) := by
  intro i y hi
  rcases Nat.lt_trichotomy i l.length with hlt | heq | hgt
  · rw [List.getElem?_append_left hlt] at hi
    exact h i y hi
  · rw [heq, List.getElem?_concat_length] at hi
    cases hi
    rw [heq]
    exact hx
  · rw [List.getElem?_eq_none (by rw [List.length_append]; exact hgt)] at hi
    cases hi

/-- The counter that the new element's number comes from. -/
theorem next {x : α} {n : M} (h : Numbered f first l) (hn : n = first + l.length) (hx : f x = n) :
    Numbered f first (l ++ [x]) ∧ n + 1 = first + ((l ++ [x]).length : Nat) := by
  refine ⟨h.concat (hx.trans hn), ?_⟩
  rw [hn, List.length_append, List.length_singleton, Nat.cast_add, Nat.cast_one, add_assoc]

theorem exists_mem (h : Numbered f first l) {i : Nat} (hi : i < l.length) :
    ∃ x ∈ l, f x = first + i :=
  ⟨_, List.getElem_mem hi, h i _ (List.getElem?_eq_getElem hi)⟩

theorem exists_lt (h : Numbered f first l) {x : α} (hx : x ∈ l) :
    ∃ i, i < l.length ∧ f x = first + i := by
  obtain ⟨i, hi⟩ := List.mem_iff_getElem?.mp hx
  exact ⟨i, (List.getElem?_eq_some_iff.mp hi).1, h i x hi⟩

end Numbered
end P5G
