import Mathlib.Logic.Basic
import P5G.Machine

/-!
# Two machines side by side

A step of the pair is a step of one of them.  What the guard of a pair says of a step may
speak about both states, so messages from one to the other are part of the guard; a run of
the pair is still a run of each.
-/

namespace P5G
namespace Machine

variable {σ τ α β : Type*} {m : Machine σ α} {n : Machine τ β}

def prod (m : Machine σ α) (n : Machine τ β) : Machine (σ × τ) (α ⊕ β) where
  init := (m.init, n.init)
  step x := fun
    | .inl a => (m.step x.1 a).map fun s => (s, x.2)
    | .inr b => (n.step x.2 b).map fun t => (x.1, t)

theorem prod_inl {x y : σ × τ} {a : α} :
    (m.prod n).step x (.inl a) = some y ↔ m.step x.1 a = some y.1 ∧ y.2 = x.2 := by
  show (m.step x.1 a).map _ = some y ↔ _
  rw [Option.map_eq_some_iff]
  constructor
  · intro h
    obtain ⟨s, hs, rfl⟩ := h
    exact ⟨hs, rfl⟩
  · intro h
    exact ⟨y.1, h.1, Prod.ext rfl h.2.symm⟩

theorem prod_inr {x y : σ × τ} {b : β} :
    (m.prod n).step x (.inr b) = some y ↔ n.step x.2 b = some y.2 ∧ y.1 = x.1 := by
  show (n.step x.2 b).map _ = some y ↔ _
  rw [Option.map_eq_some_iff]
  constructor
  · intro h
    obtain ⟨t, ht, rfl⟩ := h
    exact ⟨ht, rfl⟩
  · intro h
    exact ⟨y.2, h.1, Prod.ext h.2.symm rfl⟩

variable {G : σ × τ → α ⊕ β → Prop} {G₁ : σ → α → Prop} {G₂ : τ → β → Prop}

theorem ReachableBy.left (hG : ∀ x a, G x (.inl a) → G₁ x.1 a) {x : σ × τ}
    (h : (m.prod n).ReachableBy G x) : m.ReachableBy G₁ x.1 := by
  refine h.invariant (I := fun x => m.ReachableBy G₁ x.1) ⟨[], .start⟩ fun y a z hy ha hstep => ?_
  obtain ⟨past, hrun⟩ := hy
  cases a with
  | inl a =>
    obtain ⟨hs, -⟩ := prod_inl.mp hstep
    exact ⟨_, .next hrun (hG y a ha) hs⟩
  | inr b =>
    obtain ⟨-, heq⟩ := prod_inr.mp hstep
    exact ⟨past, heq ▸ hrun⟩

theorem ReachableBy.right (hG : ∀ x b, G x (.inr b) → G₂ x.2 b) {x : σ × τ}
    (h : (m.prod n).ReachableBy G x) : n.ReachableBy G₂ x.2 := by
  refine h.invariant (I := fun x => n.ReachableBy G₂ x.2) ⟨[], .start⟩ fun y a z hy ha hstep => ?_
  obtain ⟨past, hrun⟩ := hy
  cases a with
  | inl a =>
    obtain ⟨-, heq⟩ := prod_inl.mp hstep
    exact ⟨past, heq ▸ hrun⟩
  | inr b =>
    obtain ⟨ht, -⟩ := prod_inr.mp hstep
    exact ⟨_, .next hrun (hG y b ha) ht⟩

end Machine
end P5G
