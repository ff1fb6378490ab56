import P5G.Machine
import Mathlib.Logic.Function.Basic
import Mathlib.Data.Nat.ModEq

/-!
# A claim/publish ring

Many writers and one drainer share a ring of slots.  A writer claims a sequence
number by compare-and-swap, copies its row into the slot the number selects and
then raises the slot's ready flag.  The drainer hands out the contiguous run of
ready slots, lowers their flags, and only then advances `consumed`.

Every atomic operation and every slot copy is one step.  The two counters are
natural numbers; a machine word holds them modulo `2 ^ 64`, and the one place
where that matters, the subtraction in the fullness test, is `wrapSub`.

`accepted` and `emitted` are history: no step reads them.
-/

namespace P5G
namespace SlotRing

/-- A ring size: a power of two that a 64-bit word holds. -/
structure Capacity where
  val : Nat
  log : Nat
  log_lt : log < 64
  val_eq : val = 2 ^ log

namespace Capacity

variable (cap : Capacity)

theorem pos : 0 < cap.val := by
  rw [cap.val_eq]
  exact Nat.two_pow_pos _

theorem lt_word : cap.val < 2 ^ 64 := by
  rw [cap.val_eq]
  exact Nat.pow_lt_pow_right (by decide) cap.log_lt

/-- The slot a sequence number selects: the mask of a power of two. -/
def index (i : Nat) : Nat := i &&& (cap.val - 1)

theorem index_eq_mod (i : Nat) : cap.index i = i % cap.val := by
  rw [index, cap.val_eq, Nat.and_two_pow_sub_one_eq_mod]

/-- Two sequence numbers less than a ring apart never share a slot. -/
theorem index_inj {b i j : Nat} (hi : b ≤ i) (hj : b ≤ j)
    (hi' : i < b + cap.val) (hj' : j < b + cap.val)
    (h : cap.index i = cap.index j) : i = j := by
  rw [index_eq_mod, index_eq_mod] at h
  exact Nat.ModEq.eq_of_abs_lt (m := cap.val) h (by rw [abs_lt]; omega)

end Capacity

/-- The loop of `RoundUpPow2`, doubling `c` at most `fuel` times. -/
def roundUpLoop (n : Nat) : Nat → Nat → Nat
  | 0, c => c
  | fuel + 1, c => if c < n then roundUpLoop n fuel (c <<< 1) else c

/-- `RoundUpPow2`, which both rings have.  A capacity above `2 ^ 63` makes the source's loop run
forever, so a ring that was built asked for at most that. -/
def roundUpPow2 (n : Nat) : Nat := roundUpLoop n 63 1

theorem roundUpLoop_eq (n : Nat) : ∀ fuel j, n ≤ 2 ^ (j + fuel) →
    ∃ k, k ≤ j + fuel ∧ roundUpLoop n fuel (2 ^ j) = 2 ^ k ∧ n ≤ 2 ^ k := by
  intro fuel
  induction fuel with
  | zero => exact fun j h => ⟨j, Nat.le_refl j, rfl, h⟩
  | succ fuel ih =>
    intro j h
    by_cases hlt : 2 ^ j < n
    · have hj : j + 1 + fuel = j + (fuel + 1) := by omega
      obtain ⟨k, hk, hloop, hn⟩ := ih (j + 1) (by rw [hj]; exact h)
      refine ⟨k, by omega, ?_, hn⟩
      rw [roundUpLoop, if_pos hlt, Nat.shiftLeft_eq, Nat.pow_one, ← Nat.pow_succ]
      exact hloop
    · exact ⟨j, Nat.le_add_right j _, by rw [roundUpLoop, if_neg hlt], Nat.le_of_not_lt hlt⟩

theorem roundUpPow2_eq {n : Nat} (h : n ≤ 2 ^ 63) :
    ∃ k, k < 64 ∧ roundUpPow2 n = 2 ^ k ∧ n ≤ 2 ^ k := by
  obtain ⟨k, hk, hloop, hn⟩ := roundUpLoop_eq n 63 0 (by simpa using h)
  exact ⟨k, by omega, hloop, hn⟩

structure Config where
  capacity : Nat
  capacity_le : capacity ≤ 2 ^ 63

def Config.cap (cfg : Config) : Capacity where
  val := roundUpPow2 cfg.capacity
  log := (roundUpPow2 cfg.capacity).log2
  log_lt := by
    obtain ⟨k, hk, he, -⟩ := roundUpPow2_eq cfg.capacity_le
    rw [he, Nat.log2_two_pow]
    exact hk
  val_eq := by
    obtain ⟨k, hk, he, -⟩ := roundUpPow2_eq cfg.capacity_le
    rw [he, Nat.log2_two_pow]

def wrapSub (i c : Nat) : Nat := (((i : Int) - c) % 2 ^ 64).toNat

theorem wrapSub_of_le {i c : Nat} (h : c ≤ i) (hlt : i - c < 2 ^ 64) : wrapSub i c = i - c := by
  have e : ((i : Int) - c) = ((i - c : Nat) : Int) := by omega
  rw [wrapSub, e]
  omega

/-- A small wrapped difference is a true difference. -/
theorem lt_of_wrapSub_lt {i c n : Nat} (hlt : i - c < 2 ^ 64) (h : wrapSub i c < n)
    (hc : c ≤ i) : i < c + n := by
  rw [wrapSub_of_le hc hlt] at h
  omega

structure Slot (Row : Type*) where
  row : Row
  ready : Bool

/-- Where a writer stands between claiming and publishing.  `refused` is the
writer that found the ring full and has not yet said so. -/
inductive WriterPc (Row : Type*) where
  | out
  | loadClaimed (r : Row)
  | loadConsumed (r : Row) (i : Nat)
  | refused (r : Row)
  | cas (r : Row) (i : Nat)
  | copy (r : Row) (i : Nat)
  | publish (r : Row) (i : Nat)
  deriving DecidableEq

/-- Where the drainer stands in a pass from `m` towards the `claimed` it read,
`e`. -/
inductive DrainPc where
  | out
  | loadConsumed
  | loadClaimed (m : Nat)
  | test (m e : Nat)
  | format (m e : Nat)
  | clear (m e : Nat)
  | store (m e : Nat)
  | ended (m e : Nat)
  deriving DecidableEq

structure Core (T Row : Type*) where
  claimed : Nat
  consumed : Nat
  written : Nat
  slots : Nat → Slot Row
  writers : T → WriterPc Row
  drain : DrainPc
  accepted : List (T × Row)
  emitted : List Row

/-- What the scheduler moves: a writer entering with a row, a writer's next
step (`spurious` makes its weak compare-and-swap fail), the start of a pass, the
pass's next step, the end of a pass. -/
inductive CoreAct (T Row : Type*) where
  | enter (t : T) (r : Row)
  | writer (t : T) (spurious : Bool)
  | beginPass
  | pass (final : Bool)
  | endPass

namespace Core

variable {T Row : Type*} [DecidableEq T] (cap : Capacity)

def empty (memory : Nat → Row) : Core T Row where
  claimed := 0
  consumed := 0
  written := 0
  slots := fun j => ⟨memory j, false⟩
  writers := fun _ => .out
  drain := .out
  accepted := []
  emitted := []

def setWriter (s : Core T Row) (t : T) (pc : WriterPc Row) : Core T Row :=
  { s with writers := Function.update s.writers t pc }

def setRow (s : Core T Row) (j : Nat) (r : Row) : Core T Row :=
  { s with slots := Function.update s.slots j { s.slots j with row := r } }

def setReady (s : Core T Row) (j : Nat) (b : Bool) : Core T Row :=
  { s with slots := Function.update s.slots j { s.slots j with ready := b } }

def writerStep (s : Core T Row) (t : T) (spurious : Bool) : Option (Core T Row) :=
  match s.writers t with
  | .out => none
  | .loadClaimed r => some (s.setWriter t (.loadConsumed r s.claimed))
  | .loadConsumed r i =>
    if cap.val ≤ wrapSub i s.consumed then some (s.setWriter t (.refused r))
    else some (s.setWriter t (.cas r i))
  | .refused _ => some (s.setWriter t .out)
  | .cas r i =>
    if s.claimed = i ∧ spurious = false then
      some { s.setWriter t (.copy r i) with
        claimed := i + 1
        accepted := s.accepted ++ [(t, r)] }
    else some (s.setWriter t (.loadConsumed r s.claimed))
  | .copy r i => some ((s.setRow (cap.index i) r).setWriter t (.publish r i))
  | .publish _ i => some ((s.setReady (cap.index i) true).setWriter t .out)

def passStep (s : Core T Row) (final : Bool) : Option (Core T Row) :=
  match s.drain with
  | .out => none
  | .loadConsumed => some { s with drain := .loadClaimed s.consumed }
  | .loadClaimed m =>
    if m = s.claimed ∧ final = false then some { s with drain := .out }
    else some { s with drain := .test m s.claimed }
  | .test m e =>
    if m ≠ e ∧ (s.slots (cap.index m)).ready = true then some { s with drain := .format m e }
    else some { s with drain := .store m e }
  | .format m e =>
    some { s with
      drain := .clear m e
      emitted := s.emitted ++ [(s.slots (cap.index m)).row] }
  | .clear m e =>
    some { s.setReady (cap.index m) false with
      drain := .test (m + 1) e
      written := s.written + 1 }
  | .store m e => some { s with drain := .ended m e, consumed := m }
  | .ended _ _ => none

def step (s : Core T Row) : CoreAct T Row → Option (Core T Row)
  | .enter t r =>
    match s.writers t with
    | .out => some (s.setWriter t (.loadClaimed r))
    | _ => none
  | .writer t spurious => s.writerStep cap t spurious
  | .beginPass => if s.drain = .out then some { s with drain := .loadConsumed } else none
  | .pass final => s.passStep cap final
  | .endPass =>
    match s.drain with
    | .ended _ _ => some { s with drain := .out }
    | _ => none

end Core

def coreMachine {T Row : Type*} [DecidableEq T] (cap : Capacity) (memory : Nat → Row) :
    Machine (Core T Row) (CoreAct T Row) where
  init := Core.empty memory
  step := Core.step cap

end SlotRing
end P5G
