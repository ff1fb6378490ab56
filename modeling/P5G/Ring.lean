import Mathlib.Data.List.OfFn
import Mathlib.Data.Fin.Basic
import Mathlib.Data.Nat.ModEq
import Mathlib.Logic.Function.Basic

/-!
# The last elements of a list, in cells

Elements written one after the other into `n` cells, each over the one `n` writes
before.  The cells hold the last `n` elements, and a search through the cells in
their order finds the one whose number is the least modulo `n`.
-/

namespace P5G
namespace Ring

variable {α : Type*} {n : Nat} [NeZero n]

def cell (n : Nat) [NeZero n] (i : Nat) : Fin n := Fin.ofNat n i

theorem cell_ne {i j : Nat} (hlt : i < j) (hnear : j < i + n) : cell n i ≠ cell n j := by
  intro heq
  have hmod : i % n = j % n := congrArg Fin.val heq
  have hdvd : n ∣ j - i := (Nat.modEq_iff_dvd' (Nat.le_of_lt hlt)).mp hmod
  have hle := Nat.le_of_dvd (Nat.sub_pos_of_lt hlt) hdvd
  omega

/-- The elements of `l` have been written in turn over cells that held `init`. -/
structure Holds (cells : Fin n → α) (init : α) (l : List α) : Prop where
  recent : ∀ i x, l[i]? = some x → l.length ≤ i + n → cells (cell n i) = x
  fresh : ∀ c : Fin n, l.length ≤ c.val → cells c = init

variable {cells : Fin n → α} {init x : α} {l : List α}

theorem Holds.nil : Holds (fun _ : Fin n => init) init [] where
  recent i x h := by
    rw [List.getElem?_nil] at h
    cases h
  fresh _ _ := rfl

theorem Holds.concat (h : Holds cells init l) (x : α) :
    Holds (Function.update cells (cell n l.length) x) init (l ++ [x]) where
  recent i y hi hnear := by
    rw [List.length_append, List.length_singleton] at hnear
    have hlt : i < l.length + 1 := by
      have hlen := (List.getElem?_eq_some_iff.mp hi).1
      rwa [List.length_append, List.length_singleton] at hlen
    rcases Nat.lt_succ_iff_lt_or_eq.mp hlt with hold | hnew
    · rw [Function.update_of_ne (cell_ne hold (by omega))]
      rw [List.getElem?_append_left hold] at hi
      exact h.recent i y hi (by omega)
    · subst hnew
      rw [List.getElem?_concat_length] at hi
      cases hi
      exact Function.update_self ..
  fresh c hc := by
    rw [List.length_append, List.length_singleton] at hc
    have hne : c ≠ cell n l.length := by
      intro heq
      have hval : c.val = l.length % n := congrArg Fin.val heq
      have hle := Nat.mod_le l.length n
      omega
    rw [Function.update_of_ne hne]
    exact h.fresh c (by omega)

/-- What a cell holds was written to it and has not been written over, unless nothing has
been written to it. -/
theorem Holds.source (h : Holds cells init l) (c : Fin n) :
    (∃ i, l[i]? = some (cells c) ∧ l.length ≤ i + n ∧ i % n = c.val) ∨ cells c = init := by
  rcases Nat.lt_or_ge c.val l.length with hlt | hge
  · left
    -- the last number below the length that belongs to the cell
    let i := c.val + (l.length - 1 - c.val) / n * n
    have hpos : 0 < n := Nat.pos_of_neZero n
    have hdiv := Nat.div_add_mod (l.length - 1 - c.val) n
    have hmod := Nat.mod_lt (l.length - 1 - c.val) hpos
    rw [Nat.mul_comm] at hdiv
    have hi : i < l.length := by
      show c.val + (l.length - 1 - c.val) / n * n < l.length
      omega
    have hnear : l.length ≤ i + n := by
      show l.length ≤ c.val + (l.length - 1 - c.val) / n * n + n
      omega
    have hcell : i % n = c.val := by
      show (c.val + (l.length - 1 - c.val) / n * n) % n = c.val
      rw [Nat.add_mul_mod_self_right, Nat.mod_eq_of_lt c.isLt]
    have hsome := List.getElem?_eq_getElem hi
    have heq : cells c = l[i] := by
      rw [← h.recent i _ hsome hnear]
      exact congrArg cells (Fin.ext hcell.symm)
    exact ⟨i, heq ▸ hsome, hnear, hcell⟩
  · right
    exact h.fresh c hge

variable {p : α → Bool}

def Found (n : Nat) (l : List α) (p : α → Bool) (i : Nat) (x : α) : Prop :=
  l[i]? = some x ∧ l.length ≤ i + n ∧ p x = true

theorem Holds.find?_eq_none (h : Holds cells init l) (hinit : p init = false) :
    (List.ofFn cells).find? p = none ↔ ∀ i x, ¬ Found n l p i x := by
  rw [List.find?_eq_none]
  constructor
  · intro hnone i x hx
    have hmem : cells (cell n i) ∈ List.ofFn cells := List.mem_ofFn.mpr ⟨_, rfl⟩
    rw [h.recent i x hx.1 hx.2.1] at hmem
    exact hnone x hmem hx.2.2
  · intro hno y hy hpy
    obtain ⟨c, rfl⟩ := List.mem_ofFn.mp hy
    rcases h.source c with ⟨i, hi, hnear, -⟩ | heq
    · exact hno i _ ⟨hi, hnear, hpy⟩
    · rw [heq, hinit] at hpy
      cases hpy

theorem Holds.find?_eq_some (h : Holds cells init l) (hinit : p init = false)
    (hx : (List.ofFn cells).find? p = some x) :
    ∃ i, Found n l p i x ∧ ∀ j y, Found n l p j y → i % n ≤ j % n := by
  obtain ⟨hpx, c, hc, hcx, hbefore⟩ := List.find?_eq_some_iff_getElem.mp hx
  rw [List.length_ofFn] at hc
  rw [List.getElem_ofFn] at hcx
  subst hcx
  rcases h.source ⟨c, hc⟩ with ⟨i, hi, hnear, hcell⟩ | heq
  · refine ⟨i, ⟨hi, hnear, hpx⟩, ?_⟩
    intro j y hj
    rw [hcell]
    by_contra hlt
    have hskip := hbefore (j % n) (Nat.lt_of_not_le hlt)
    rw [List.getElem_ofFn] at hskip
    have hy : cells ⟨j % n, _⟩ = y := h.recent j y hj.1 hj.2.1
    rw [hy, hj.2.2] at hskip
    cases hskip
  · rw [heq, hinit] at hpx
    cases hpx

end Ring
end P5G
