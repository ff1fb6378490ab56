import P5G.Trace.Invariant

/-!
# The queue a ring implements

What the ring is for, in its own terms: a first-in first-out queue with room
for `n` rows.  `items` is everything ever put, `taken` how much of it has left.
The ring refines it, with the compare-and-swap as the put and the formatting of
a row as the take.
-/

namespace P5G
namespace SlotRing

structure Queue (Row : Type*) where
  items : List Row
  taken : Nat

inductive QueueAct (Row : Type*) where
  | put (r : Row)
  | take

namespace Queue

variable {Row : Type*} {n : Nat}

def step (n : Nat) (q : Queue Row) : QueueAct Row → Option (Queue Row)
  | .put r =>
    if q.items.length < q.taken + n then some { q with items := q.items ++ [r] } else none
  | .take => if q.taken < q.items.length then some { q with taken := q.taken + 1 } else none

def machine (Row : Type*) (n : Nat) : Machine (Queue Row) (QueueAct Row) where
  init := ⟨[], 0⟩
  step := step n

/-- The queue never holds more than `n` rows and never gives out a row that was
not put. -/
theorem bounded {q : Queue Row} (h : (machine Row n).Reachable q) :
    q.taken ≤ q.items.length ∧ q.items.length ≤ q.taken + n := by
  refine h.invariant (I := fun q => q.taken ≤ q.items.length ∧ q.items.length ≤ q.taken + n)
    ⟨Nat.le_refl 0, Nat.zero_le _⟩ ?_
  intro q a q' hq hstep
  cases a with
  | put r =>
    simp only [machine, step] at hstep
    split at hstep
    · cases hstep
      simp only [List.length_append, List.length_singleton]
      omega
    · cases hstep
  | take =>
    simp only [machine, step] at hstep
    split at hstep
    · cases hstep
      simp only
      omega
    · cases hstep

end Queue

namespace Core

variable {T Row : Type*} [DecidableEq T] {cap : Capacity} {s s' : Core T Row}

def toQueue (s : Core T Row) : Queue Row := ⟨s.accepted.map Prod.snd, s.emitted.length⟩

omit [DecidableEq T] in
theorem Inv.emitted_length (h : Inv cap s) : s.emitted.length = formatted s := by
  have hlen := h.accepted_length
  have hform := h.formatted_le
  rw [h.emitted, List.length_take, List.length_map]
  omega

omit [DecidableEq T] in
theorem Inv.output (h : Inv cap s) : s.emitted = s.toQueue.items.take s.toQueue.taken := by
  show s.emitted = (s.accepted.map Prod.snd).take s.emitted.length
  rw [h.emitted_length]
  exact h.emitted

theorem Inv.queue_step (h : Inv cap s) (hmove : Moves cap s s') :
    s'.toQueue = s.toQueue ∨ ∃ a, Queue.step cap.val s.toQueue a = some s'.toQueue := by
  have hlen := h.accepted_length
  have hemit := h.emitted_length
  cases hmove with
  | claim t r hpc =>
    have hroom := (h.room t r s.claimed hpc).2 rfl
    have hcw := h.consumed_le
    have hform : s.written ≤ formatted s := by
      unfold formatted
      split <;> omega
    refine .inr ⟨.put r, ?_⟩
    have hput : s.toQueue.items.length < s.toQueue.taken + cap.val := by
      simp only [toQueue, List.length_map]
      omega
    rw [Queue.step, if_pos hput]
    simp only [toQueue, List.map_append, List.map_cons, List.map_nil]
    rfl
  | format m e hpc =>
    have hpass := h.pass
    rw [hpc] at hpass
    obtain ⟨hm, hme, hec, -⟩ := hpass
    have hform : formatted s = m := by simp only [formatted, hpc, hm]
    refine .inr ⟨.take, ?_⟩
    have htake : s.toQueue.taken < s.toQueue.items.length := by
      simp only [toQueue, List.length_map]
      omega
    rw [Queue.step, if_pos htake]
    simp [toQueue]
  | _ => exact .inl rfl

/-- The ring implements the queue. -/
theorem refines_queue (memory : Nat → Row) :
    (coreMachine (T := T) cap memory).Refines (Queue.machine Row cap.val) toQueue :=
  ⟨rfl, fun _ _ _ hs hstep => (reachable_inv hs).queue_step (moves_of_step hstep)⟩

end Core
end SlotRing
end P5G
