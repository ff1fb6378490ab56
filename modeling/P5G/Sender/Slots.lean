import P5G.Numbered
import P5G.Sender.Grid

/-!
# Slot accounting of the capture grid

The rows of tx-frames number the slots from the first one on without a gap, and a
slot is handed to the muxer only if a reading of the clock picked it inside its own
interval.
-/

namespace P5G
namespace Sender

variable {c : Camera} {s s' : State} {a : Act}

structure Counted (s : State) : Prop where
  first : 0 ≤ s.first
  slot : s.slot = s.first + s.frames.length
  idx : s.idx = s.frames.length
  slots : Numbered CaptureFrameRow.gridSlot s.first s.frames
  rows : Numbered CaptureFrameRow.frameIdx 0 s.frames

def State.InSlot (c : Camera) (s : State) (slot nowUs : Int) : Prop :=
  s.at c slot ≤ nowUs ∧ nowUs < s.at c (slot + 1)

def Timed (c : Camera) (s : State) : Prop :=
  match s.pc with
  | .epoch | .choose => s.frames = [] ∧ s.handed = []
  | .test | .clock => s.targetUs = s.at c s.slot
  | .woken => s.targetUs = s.at c s.slot ∧ s.targetUs ≤ (s.clock / 1000 : Nat)
  | .catchUp => s.slot ≤ s.resume ∧ s.InSlot c s.resume s.nowUs
  | .check => s.targetUs = s.at c s.slot ∧ (s.running = true → s.InSlot c s.slot s.nowUs)
  | .want | .switch | .mux => s.targetUs = s.at c s.slot ∧ s.InSlot c s.slot s.nowUs
  | .done => s.nowUs < s.at c (s.slot + 1)
  | .loop | .last | .drain => True

/-- A row for the current slot, and the next slot. -/
theorem Counted.next {r : CaptureFrameRow} (h : Counted s) (hframes : s'.frames = s.frames ++ [r])
    (hslot : s'.slot = s.slot + 1) (hidx : s'.idx = s.idx + 1) (hfirst : s'.first = s.first)
    (hgrid : r.gridSlot = s.slot) (hframe : r.frameIdx = s.idx) : Counted s' := by
  obtain ⟨hslots, hnext⟩ := h.slots.next h.slot hgrid
  obtain ⟨hrows, hcount⟩ := h.rows.next (h.idx.trans (Int.zero_add _).symm) hframe
  rw [Int.zero_add] at hcount
  rw [← hframes] at hslots hnext hrows hcount
  rw [← hfirst] at hslots hnext
  exact ⟨hfirst ▸ h.first, hslot.trans hnext, hidx.trans hcount, hslots, hrows⟩

theorem Moves.counted (h : Moves c s a s') (htimed : Timed c s) (hi : Counted s) : Counted s' := by
  cases h with
  | choose _ hpc hslot _ =>
    rw [Timed, hpc] at htimed
    refine ⟨hslot, ?_, ?_, ?_, ?_⟩ <;> simp [State.start, State.rate, htimed.1, Numbered.nil]
  | skip | drain | mux => exact hi.next rfl rfl rfl rfl rfl rfl
  | _ => exact ⟨hi.first, hi.slot, hi.idx, hi.slots, hi.rows⟩

theorem at_succ (s : State) (slot : Int) : s.at c (slot + 1) = s.at c slot + c.intervalUs := by
  rw [State.at, State.at, Int.add_mul, Int.one_mul, Int.add_assoc]

theorem at_mono (s : State) {slot slot' : Int} (h : slot ≤ slot') : s.at c slot ≤ s.at c slot' :=
  Int.add_le_add_left (Int.mul_le_mul_of_nonneg_right h Camera.intervalUs_nonneg) _

/-- The slot a late reading lies in. -/
theorem inSlot_resume {nowUs : Int} (hslot : 0 ≤ s.slot) (hlate : s.at c (s.slot + 1) ≤ nowUs)
    (hne : c.intervalUs ≠ 0) :
    s.slot ≤ (nowUs - s.startUs).tdiv c.intervalUs ∧
      s.InSlot c ((nowUs - s.startUs).tdiv c.intervalUs) nowUs := by
  have hpos : 0 < c.intervalUs := by
    have := Camera.intervalUs_nonneg (c := c)
    omega
  have hprod : 0 ≤ (s.slot + 1) * c.intervalUs := Int.mul_nonneg (by omega) (Int.le_of_lt hpos)
  rw [State.at] at hlate
  have hnonneg : 0 ≤ nowUs - s.startUs := by omega
  rw [Int.tdiv_eq_ediv_of_nonneg hnonneg]
  have hle : s.slot + 1 ≤ (nowUs - s.startUs) / c.intervalUs :=
    Int.le_ediv_of_mul_le hpos (by omega)
  have hlow := Int.ediv_mul_le (nowUs - s.startUs) hne
  have hhigh := Int.lt_ediv_add_one_mul_self (nowUs - s.startUs) hpos
  refine ⟨by omega, ?_, ?_⟩
  · rw [State.at]
    omega
  · rw [State.at]
    omega

theorem Moves.timed (h : Moves c s a s') (hcount : Counted s) (hi : Timed c s) : Timed c s' := by
  have hslot : 0 ≤ s.slot := by
    have hfirst := hcount.first
    have hlen := hcount.slot
    omega
  cases h with
  | stop =>
    cases hpc : s.pc with
    | check =>
      simp only [Timed, hpc] at hi ⊢
      exact ⟨hi.1, fun hrun => nomatch hrun⟩
    | loop | last | drain => simp only [Timed]
    | _ =>
      rw [Timed, hpc] at hi
      simp only [Timed]
      exact hi
  | profile => exact hi
  | ignored => exact hi
  | epoch _ hpc =>
    rw [Timed, hpc] at hi
    exact hi
  | choose => trivial
  | loop => rfl
  | leave => trivial
  | test _ hpc =>
    rw [Timed, hpc] at hi
    exact hi
  | asleep _ hpc _ =>
    rw [Timed, hpc] at hi
    exact hi
  | awake _ hpc hnow =>
    rw [Timed, hpc] at hi
    exact ⟨hi, hnow⟩
  | @inTime now hclock hpc hnow =>
    rw [Timed, hpc] at hi
    have hreached : s.targetUs ≤ now.us := Int.le_trans hi.2 (by rw [Reading.us]; omega)
    exact ⟨hi.1, fun _ => ⟨hi.1 ▸ hreached, hnow⟩⟩
  | behind _ hpc hnow hne => exact inSlot_resume hslot hnow hne
  | skip _ hpc hlt _ =>
    rw [Timed, hpc] at hi
    simp only [Timed, State.emitMissed, hpc]
    exact ⟨hlt, hi.2⟩
  | caughtUp _ hpc hreached =>
    rw [Timed, hpc] at hi
    refine ⟨rfl, fun hrun => ?_⟩
    have hend : s.resume = s.slot := Int.le_antisymm (hreached hrun) hi.1
    exact hend ▸ hi.2
  | check _ hpc hrun =>
    rw [Timed, hpc] at hi
    exact ⟨hi.1, hi.2 hrun⟩
  | want _ hpc =>
    rw [Timed, hpc] at hi
    exact hi
  | switch _ hpc _ =>
    rw [Timed, hpc] at hi
    exact hi
  | keep _ hpc =>
    rw [Timed, hpc] at hi
    exact hi
  | mux => trivial
  | last => trivial
  | drain _ hpc _ =>
    simp only [Timed, State.emitMissed, hpc]
  | finish _ _ hnow => exact hnow

/-- A slot handed to the muxer was picked at a reading inside it, and a row that
says so is that of such a slot. -/
structure Handed (c : Camera) (s : State) : Prop where
  inSlot : ∀ p ∈ s.handed, s.InSlot c p.slot p.nowUs
  sent : ∀ r ∈ s.frames, r.toEncoder = true → ∃ p ∈ s.handed, p.slot = r.gridSlot

theorem Moves.handed (h : Moves c s a s') (htimed : Timed c s) (hi : Handed c s) :
    Handed c s' := by
  cases h with
  | epoch _ hpc =>
    rw [Timed, hpc] at htimed
    refine ⟨?_, ?_⟩
    · simp [htimed.2]
    · simp [htimed.1]
  | skip | drain =>
    refine ⟨hi.inSlot, fun r hr hsent => ?_⟩
    rcases List.mem_append.mp hr with hr | hr
    · exact hi.sent r hr hsent
    · rw [List.mem_singleton.mp hr] at hsent
      cases hsent
  | mux hpc hau =>
    rw [Timed, hpc] at htimed
    refine ⟨fun p hp => ?_, fun r hr hsent => ?_⟩
    · rcases List.mem_append.mp hp with hp | hp
      · exact hi.inSlot p hp
      · rw [List.mem_singleton.mp hp]
        exact htimed.2
    · rcases List.mem_append.mp hr with hr | hr
      · obtain ⟨p, hp, heq⟩ := hi.sent r hr hsent
        exact ⟨p, List.mem_append_left _ hp, heq⟩
      · rw [List.mem_singleton.mp hr]
        exact ⟨_, List.mem_append_right _ (List.mem_singleton_self _), rfl⟩
  | _ => exact ⟨hi.inSlot, hi.sent⟩

/-- The account of a run: consecutive rows from the first slot on, a row for every
slot whose interval was over at the last reading, and no stale send. -/
structure Accounted (c : Camera) (s : State) : Prop extends Handed c s where
  slots : Numbered CaptureFrameRow.gridSlot s.first s.frames
  rows : Numbered CaptureFrameRow.frameIdx 0 s.frames
  elapsed : s.pc = .done → ∀ slot, s.first ≤ slot → s.at c (slot + 1) ≤ s.nowUs →
    ∃ r ∈ s.frames, r.gridSlot = slot

theorem counted_init : Counted (init c) :=
  ⟨Int.le_refl 0, rfl, rfl, .nil, .nil⟩

theorem timed_init : Timed c (init c) := ⟨rfl, rfl⟩

/-- The invariants hold in every state. -/
theorem reachable_invariant (h : (machine c).Reachable s) :
    Counted s ∧ Timed c s ∧ Handed c s := by
  apply h.invariant
  · exact ⟨counted_init, timed_init, ⟨fun p hp => (nomatch hp), fun r hr => (nomatch hr)⟩⟩
  · intro s a s' ⟨hcount, htimed, hhanded⟩ hstep
    have hmoves := step_moves hstep
    exact ⟨hmoves.counted htimed hcount, hmoves.timed hcount htimed,
      hmoves.handed htimed hhanded⟩

/-- Every run of the grid accounts for its slots. -/
theorem gridLoop_accounted (h : (machine c).Reachable s) : Accounted c s := by
  obtain ⟨hcount, htimed, hhanded⟩ := reachable_invariant h
  refine ⟨hhanded, hcount.slots, hcount.rows, fun hdone slot hfirst hend => ?_⟩
  rw [Timed, hdone] at htimed
  have hlt : slot < s.slot := by
    apply Int.lt_of_not_ge
    intro hge
    have hmono := at_mono (c := c) s (Int.add_le_add_right hge 1)
    omega
  have hslot := hcount.slot
  obtain ⟨r, hr, hgrid⟩ := hcount.slots.exists_mem (i := (slot - s.first).toNat) (by omega)
  refine ⟨r, hr, ?_⟩
  rw [hgrid]
  omega

/-- The first turn of the loop: `late` is what its clock reads behind the sleep. -/
def firstTurn (late : Nat) : List Act :=
  [.grid ⟨0, 0⟩, .grid ⟨0, 0⟩, .grid ⟨0, 0⟩, .grid ⟨0, 0⟩, .grid ⟨100000000, 0⟩, .grid ⟨late, 0⟩]

/-- A run with a slot missed, one sent and the last found over after the stop. -/
def lateRun : List Act :=
  firstTurn 140000000 ++ [.grid ⟨140000000, 0⟩, .grid ⟨140000000, 0⟩, .grid ⟨140000000, 0⟩,
    .grid ⟨140000000, 0⟩, .grid ⟨140000000, 0⟩, .mux ⟨[], 0⟩, .stop, .grid ⟨140000000, 0⟩,
    .grid ⟨200000000, 0⟩, .grid ⟨200000000, 0⟩, .grid ⟨200000000, 0⟩]

theorem gridLoop_accounted_lateRun :
    ∃ s, (machine twoFrames).Reachable s ∧ Accounted twoFrames s ∧ s.pc = .done ∧
      s.frames.map (fun r => (r.gridSlot, r.toEncoder)) = [(0, false), (1, true), (2, false)] := by
  obtain ⟨s, hreach, hend⟩ := (machine twoFrames).exists_of_execBy (G := fun _ _ => True) lateRun
    (P := fun s => s.pc = .done ∧
      s.frames.map (fun r => (r.gridSlot, r.toEncoder)) = [(0, false), (1, true), (2, false)])
    (by decide +kernel)
  exact ⟨s, hreach, gridLoop_accounted hreach, hend⟩

end Sender
end P5G
