import Mathlib.Logic.Basic

/-!
# Machines driven by a scheduler

A machine has one initial state and a partial step function.  The action given
to a step carries every choice the environment makes: which thread moves, which
message arrives, whether a weak compare-and-swap fails.  A run is one order of
such choices, so a statement about every run is a statement about every
interleaving.

`Run m G s past` says that `s` is reached after the states `past`, newest
first, by steps that all satisfy `G`.  Keeping the past lets a statement speak
about what was true at some moment before.
-/

namespace P5G

structure Machine (σ α : Type*) where
  init : σ
  step : σ → α → Option σ

namespace Machine

variable {σ α : Type*} {m : Machine σ α} {G G' : σ → α → Prop}

inductive Run (m : Machine σ α) (G : σ → α → Prop) : σ → List σ → Prop
  | start : Run m G m.init []
  | next {s s' : σ} {past : List σ} {a : α} :
      Run m G s past → G s a → m.step s a = some s' → Run m G s' (s :: past)

/-- Reachable by steps that all satisfy `G`. -/
def ReachableBy (m : Machine σ α) (G : σ → α → Prop) (s : σ) : Prop :=
  ∃ past, m.Run G s past

def Reachable (m : Machine σ α) (s : σ) : Prop :=
  m.ReachableBy (fun _ _ => True) s

theorem Run.mono (hok : ∀ s a, G s a → G' s a) {s : σ} {past : List σ}
    (h : m.Run G s past) : m.Run G' s past := by
  induction h with
  | start => exact .start
  | next _ ha hs ih => exact .next ih (hok _ _ ha) hs

theorem ReachableBy.reachable {s : σ} (h : m.ReachableBy G s) : m.Reachable s := by
  obtain ⟨past, h⟩ := h
  exact ⟨past, h.mono (fun _ _ _ => trivial)⟩

theorem Run.reachableBy {s : σ} {past : List σ} (h : m.Run G s past) :
    m.ReachableBy G s :=
  ⟨past, h⟩

/-- What holds at the start and is kept by every step holds in every state a
run ends in. -/
theorem Run.invariant {I : σ → Prop} (start : I m.init)
    (next : ∀ s a s', I s → G s a → m.step s a = some s' → I s')
    {s : σ} {past : List σ} (h : m.Run G s past) : I s := by
  induction h with
  | start => exact start
  | next _ ha hs ih => exact next _ _ _ ih ha hs

theorem ReachableBy.invariant {I : σ → Prop} (start : I m.init)
    (next : ∀ s a s', I s → G s a → m.step s a = some s' → I s')
    {s : σ} (h : m.ReachableBy G s) : I s := by
  obtain ⟨past, h⟩ := h
  exact h.invariant start next

theorem Reachable.invariant {I : σ → Prop} (start : I m.init)
    (next : ∀ s a s', I s → m.step s a = some s' → I s')
    {s : σ} (h : m.Reachable s) : I s :=
  ReachableBy.invariant start (fun s a s' hi _ hs => next s a s' hi hs) h

/-- Every state a run has passed through is itself the end of a run. -/
theorem Run.past_run {s : σ} {past : List σ} (h : m.Run G s past) :
    ∀ x ∈ past, m.ReachableBy G x := by
  induction h with
  | start => intro x hx; cases hx
  | next hrun _ _ ih =>
    intro x hx
    rcases List.mem_cons.mp hx with rfl | hx
    · exact ⟨_, hrun⟩
    · exact ih x hx

/-- Every state a run has passed through took an allowed step. -/
theorem Run.past_ok {s : σ} {past : List σ} (h : m.Run G s past) :
    ∀ x ∈ past, ∃ a, G x a := by
  induction h with
  | start => intro x hx; cases hx
  | next _ ha _ ih =>
    intro x hx
    rcases List.mem_cons.mp hx with rfl | hx
    · exact ⟨_, ha⟩
    · exact ih x hx

/-- If `P` can only become true at a state satisfying `Q`, then whenever `P`
holds there was a moment at which `Q` held, and `P` has held ever since. -/
theorem Run.since {P Q : σ → Prop} (start : ¬ P m.init)
    (next : ∀ s a s', m.ReachableBy G s → G s a → m.step s a = some s' →
      P s' → P s ∨ Q s)
    {s : σ} {past : List σ} (h : m.Run G s past) (hP : P s) :
    ∃ during moment before, past = during ++ moment :: before ∧ Q moment ∧
      ∀ x ∈ during, P x := by
  induction h with
  | start => exact absurd hP start
  | @next s s' past a hrun ha hs ih =>
    rcases next s a s' ⟨past, hrun⟩ ha hs hP with hPs | hQ
    · obtain ⟨during, moment, before, rfl, hQ, hduring⟩ := ih hPs
      refine ⟨s :: during, moment, before, rfl, hQ, ?_⟩
      intro x hx
      rcases List.mem_cons.mp hx with rfl | hx
      · exact hPs
      · exact hduring x hx
    · exact ⟨[], s, past, rfl, hQ, fun x hx => by cases hx⟩

def exec (m : Machine σ α) : σ → List α → Option σ
  | s, [] => some s
  | s, a :: rest => (m.step s a).bind (fun s' => m.exec s' rest)

/-- A schedule together with the test that every step of it is allowed. -/
def execBy (m : Machine σ α) (G : σ → α → Prop) [∀ s a, Decidable (G s a)] :
    σ → List α → Option σ
  | s, [] => some s
  | s, a :: rest =>
    if G s a then (m.step s a).bind (fun s' => m.execBy G s' rest) else none

theorem Run.execBy_append [∀ s a, Decidable (G s a)] {as : List α} {s s' : σ}
    {past : List σ} (h : m.Run G s past) (he : m.execBy G s as = some s') :
    ∃ during, m.Run G s' (during ++ past) := by
  induction as generalizing s past with
  | nil =>
    cases he
    exact ⟨[], h⟩
  | cons a rest ih =>
    rw [execBy] at he
    split at he
    · next hok =>
      obtain ⟨t, ht, hrest⟩ := Option.bind_eq_some_iff.mp he
      obtain ⟨during, hd⟩ := ih (.next h hok ht) hrest
      exact ⟨during ++ [s], by simpa using hd⟩
    · cases he

/-- A schedule whose end satisfies `P` reaches a state that satisfies `P`. -/
theorem exists_of_execBy [∀ s a, Decidable (G s a)] (as : List α) {P : σ → Prop}
    [DecidablePred P] (h : (m.execBy G m.init as).any (fun s => decide (P s)) = true) :
    ∃ s, m.ReachableBy G s ∧ P s := by
  obtain ⟨s, hs, hP⟩ := (Option.any_eq_true _ _).mp h
  obtain ⟨during, hd⟩ := Run.execBy_append .start hs
  exact ⟨s, ⟨_, hd⟩, of_decide_eq_true hP⟩

/-- A machine that also keeps the actions it has taken, oldest first. -/
def logged (m : Machine σ α) : Machine (σ × List α) α where
  init := (m.init, [])
  step := fun x a => (m.step x.1 a).map fun s => (s, x.2 ++ [a])

theorem logged_step {x x' : σ × List α} {a : α} :
    m.logged.step x a = some x' ↔ m.step x.1 a = some x'.1 ∧ x'.2 = x.2 ++ [a] := by
  obtain ⟨s', log⟩ := x'
  constructor
  · intro h
    obtain ⟨s, hs, heq⟩ := Option.map_eq_some_iff.mp h
    cases heq
    exact ⟨hs, rfl⟩
  · rintro ⟨hs, rfl⟩
    exact Option.map_eq_some_iff.mpr ⟨s', hs, rfl⟩

/-! ## Refinement

A machine refines another through `abs` when each of its steps is a step of the
other or leaves the abstract state where it was. -/

def Refines {τ β : Type*} (m : Machine σ α) (n : Machine τ β) (abs : σ → τ) : Prop :=
  abs m.init = n.init ∧
    ∀ s a s', m.Reachable s → m.step s a = some s' →
      abs s' = abs s ∨ ∃ b, n.step (abs s) b = some (abs s')

theorem Refines.reachable {τ β : Type*} {n : Machine τ β} {abs : σ → τ}
    (h : m.Refines n abs) {s : σ} (hs : m.Reachable s) : n.Reachable (abs s) := by
  obtain ⟨past, hrun⟩ := hs
  induction hrun with
  | start => exact ⟨[], h.1 ▸ .start⟩
  | @next s s' past a hrun _ hstep ih =>
    rcases h.2 s a s' ⟨past, hrun⟩ hstep with heq | ⟨b, hb⟩
    · rw [heq]; exact ih
    · obtain ⟨p, hp⟩ := ih
      exact ⟨_, .next hp trivial hb⟩

end Machine
end P5G
