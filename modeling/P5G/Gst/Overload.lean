import P5G.Gst.GridVideoSource

/-!
# Slot accounting of the gstreamer sender

Every slot has its row, whatever is late.  A slot that was over before its push is
recorded as missed as long as no stop request cuts a catch-up: the loop goes on from a
cut one to push the slot it has come to.
-/

namespace P5G
namespace Gst

variable {v : VideoSource} {s s' : State} {a : Act}

structure Counted (s : State) : Prop where
  slot : s.slot = s.first + s.frames.length
  idx : s.idx = s.frames.length
  slots : Numbered CaptureFrameRow.gridSlot s.first s.frames
  rows : Numbered CaptureFrameRow.frameIdx 0 s.frames

def VideoSource.InSlot (v : VideoSource) (slot us : Nat) : Prop :=
  slot * v.intervalUs ≤ us ∧ us < (slot + 1) * v.intervalUs

def Timed (v : VideoSource) (s : State) : Prop :=
  match s.pc with
  | .begin => s.frames = [] ∧ s.pushes = []
  | .sleep => s.targetUs = s.slot * v.intervalUs
  | .catchUp => s.slot ≤ s.resume ∧ v.InSlot s.resume s.nowUs ∧ s.nowUs ∈ s.readings
  | .capture | .push => s.cut = false → ∃ us ∈ s.readings, v.InSlot s.slot us
  | .done => s.nowUs < (s.slot + 1) * v.intervalUs
  | .loop | .last | .drain => True

/-- A row for the current slot, and the next slot. -/
theorem Counted.next {r : CaptureFrameRow} (h : Counted s) (hframes : s'.frames = s.frames ++ [r])
    (hslot : s'.slot = s.slot + 1) (hidx : s'.idx = s.idx + 1) (hfirst : s'.first = s.first)
    (hgrid : r.gridSlot = s.slot) (hframe : r.frameIdx = s.idx) : Counted s' := by
  obtain ⟨hslots, hnext⟩ := h.slots.next h.slot hgrid
  obtain ⟨hrows, hcount⟩ := h.rows.next (h.idx.trans (Nat.zero_add _).symm) hframe
  rw [Nat.zero_add] at hcount
  rw [← hframes] at hslots hnext hrows hcount
  rw [← hfirst] at hslots hnext
  exact ⟨hslot.trans hnext, hidx.trans hcount, hslots, hrows⟩

theorem Moves.counted (h : Moves v s a s') (htimed : Timed v s) (hi : Counted s) : Counted s' := by
  cases h with
  | begin hpc =>
    rw [Timed, hpc] at htimed
    refine ⟨?_, ?_, ?_, ?_⟩ <;> simp [htimed.1, Numbered.nil]
  | skip | drain | push => exact hi.next rfl rfl rfl rfl rfl rfl
  | _ => exact ⟨hi.slot, hi.idx, hi.slots, hi.rows⟩

/-- The slot a late reading lies in. -/
theorem inSlot_resume {slot us : Nat} (hlate : (slot + 1) * v.intervalUs ≤ us)
    (hne : v.intervalUs ≠ 0) :
    slot ≤ us / v.intervalUs ∧ v.InSlot (us / v.intervalUs) us := by
  have hpos : 0 < v.intervalUs := Nat.pos_of_ne_zero hne
  have hle : slot + 1 ≤ us / v.intervalUs := (Nat.le_div_iff_mul_le hpos).mpr hlate
  exact ⟨by omega, Nat.div_mul_le_self _ _, Nat.lt_mul_of_div_lt (Nat.lt_succ_self _) hpos⟩

theorem Moves.timed (h : Moves v s a s') (hi : Timed v s) : Timed v s' := by
  cases h with
  | requestStop => exact hi
  | begin => trivial
  | loop => rfl
  | leave => trivial
  | @inTime now hpc htarget hnow =>
    rw [Timed, hpc] at hi
    intro _
    exact ⟨_, List.mem_singleton_self _, hi ▸ htarget, hnow⟩
  | behind hpc _ hlate hne =>
    obtain ⟨hle, hin⟩ := inSlot_resume hlate hne
    exact ⟨hle, hin, List.mem_singleton_self _⟩
  | skip hpc hlt =>
    rw [Timed, hpc] at hi
    simp only [Timed, State.emitMissedSlot, hpc]
    exact ⟨hlt, hi.2.1, List.mem_append_left _ hi.2.2⟩
  | caughtUp hpc hreached =>
    rw [Timed, hpc] at hi
    intro huncut
    have hend : s.slot = s.resume := by
      have := of_decide_eq_false huncut
      omega
    exact ⟨s.nowUs, hi.2.2, hend ▸ hi.2.1⟩
  | capture hpc =>
    rw [Timed, hpc] at hi
    intro huncut
    obtain ⟨us, hmem, hin⟩ := hi huncut
    exact ⟨us, List.mem_append_left _ hmem, hin⟩
  | push => trivial
  | last => trivial
  | drain hpc => simp only [Timed, State.emitMissedSlot, hpc]
  | finish _ hend => exact hend

/-- appsrc takes no buffer behind a catch-up that a stop request has cut. -/
def Uncut (s : State) : Act → Prop
  | .push ok => ok = true → s.cut = false
  | _ => True

instance : Decidable (Uncut s a) :=
  match a with
  | .push _ => inferInstanceAs (Decidable (_ → _))
  | .requestStop | .grid _ => .isTrue trivial

/-- A buffer was pushed after a reading inside its slot, and a row that says so is that
of such a buffer. -/
structure Fresh (v : VideoSource) (s : State) : Prop where
  inSlot : ∀ p ∈ s.pushes, ∃ us ∈ p.readings, v.InSlot p.slot us
  sent : ∀ r ∈ s.frames, r.toEncoder = true → ∃ p ∈ s.pushes, p.slot = r.gridSlot

/-- A row that says of no buffer. -/
theorem Fresh.unsent {r : CaptureFrameRow} (hi : Fresh v s) (hpushes : s'.pushes = s.pushes)
    (hframes : s'.frames = s.frames ++ [r]) (hr : r.toEncoder = false) : Fresh v s' := by
  refine ⟨hpushes ▸ hi.inSlot, ?_⟩
  rw [hframes, hpushes]
  refine List.forall_mem_append.mpr ⟨hi.sent, List.forall_mem_singleton.mpr fun hsent => ?_⟩
  rw [hr] at hsent
  cases hsent

theorem Moves.fresh (h : Moves v s a s') (htimed : Timed v s) (huncut : Uncut s a)
    (hi : Fresh v s) : Fresh v s' := by
  cases h with
  | skip | drain => exact hi.unsent rfl rfl rfl
  | @push ok hpc =>
    rw [Timed, hpc] at htimed
    cases ok with
    | false => exact hi.unsent rfl rfl rfl
    | true =>
      refine ⟨fun p hp => ?_, fun r hr hsent => ?_⟩
      · rcases List.mem_append.mp hp with hp | hp
        · exact hi.inSlot p hp
        · rw [List.mem_singleton.mp hp]
          exact htimed (huncut rfl)
      · rcases List.mem_append.mp hr with hr | hr
        · obtain ⟨p, hp, heq⟩ := hi.sent r hr hsent
          exact ⟨p, List.mem_append_left _ hp, heq⟩
        · rw [List.mem_singleton.mp hr]
          exact ⟨_, List.mem_append_right _ (List.mem_singleton_self _), rfl⟩
  | _ => exact ⟨hi.inSlot, hi.sent⟩

theorem counted_init : Counted init := ⟨rfl, rfl, .nil, .nil⟩

theorem timed_init : Timed v init := ⟨rfl, rfl⟩

/-- The rows of a run: one for each slot from the first on, up to every slot that was
over at the last reading. -/
structure Recorded (v : VideoSource) (s : State) : Prop where
  slots : Numbered CaptureFrameRow.gridSlot s.first s.frames
  rows : Numbered CaptureFrameRow.frameIdx 0 s.frames
  elapsed : s.pc = .done → ∀ slot, s.first ≤ slot → (slot + 1) * v.intervalUs ≤ s.nowUs →
    ∃ r ∈ s.frames, r.gridSlot = slot

/-- Every run records its slots, cut catch-ups or not. -/
theorem loop_recorded (h : (machine v).Reachable s) : Recorded v s := by
  have hinv : Counted s ∧ Timed v s := by
    apply h.invariant
    · exact ⟨counted_init, timed_init⟩
    · intro s a s' ⟨hcount, htimed⟩ hstep
      have hmoves := step_moves hstep
      exact ⟨hmoves.counted htimed hcount, hmoves.timed htimed⟩
  obtain ⟨hcount, htimed⟩ := hinv
  refine ⟨hcount.slots, hcount.rows, fun hdone slot hfirst hend => ?_⟩
  rw [Timed, hdone] at htimed
  have hlt : slot < s.slot := by
    apply Nat.lt_of_not_le
    intro hge
    have hmono := Nat.mul_le_mul_right v.intervalUs (Nat.succ_le_succ hge)
    exact absurd (Nat.lt_of_le_of_lt (Nat.le_trans hmono hend) htimed) (Nat.lt_irrefl _)
  have hslot := hcount.slot
  obtain ⟨r, hr, hgrid⟩ := hcount.slots.exists_mem (i := slot - s.first) (by omega)
  refine ⟨r, hr, hgrid.trans ?_⟩
  exact Nat.add_sub_cancel' hfirst

/-- In every run in which no buffer is taken behind a cut catch-up, each slot is recorded
and none is pushed that was over. -/
theorem loop_accounted (h : (machine v).ReachableBy Uncut s) : Recorded v s ∧ Fresh v s := by
  have hinv : Timed v s ∧ Fresh v s := by
    apply h.invariant
    · exact ⟨timed_init, fun p hp => (nomatch hp), fun r hr => (nomatch hr)⟩
    · intro s a s' ⟨htimed, hfresh⟩ huncut hstep
      have hmoves := step_moves hstep
      exact ⟨hmoves.timed htimed, hmoves.fresh htimed huncut hfresh⟩
  exact ⟨loop_recorded h.reachable, hinv.2⟩

def thirtyFps : VideoSource := ⟨frameIntervalUs 30, 0, 64, by decide, 1280, 720⟩

def lateTurn (late missed : Nat) : List Act :=
  List.replicate (missed + 3) (.grid ⟨late, 0⟩) ++ [.push true]

/-- Two slots missed, the third pushed, and a stop. -/
def overloadRun : List Act :=
  [.grid ⟨0, 0⟩, .grid ⟨0, 0⟩] ++ lateTurn 110000000 2 ++ [.requestStop] ++
    List.replicate 3 (.grid ⟨120000000, 0⟩)

theorem loop_accounted_overloadRun :
    ∃ s, (machine thirtyFps).ReachableBy Uncut s ∧ (Recorded thirtyFps s ∧ Fresh thirtyFps s) ∧
      s.pc = .done ∧ s.frames.map (fun r => (r.gridSlot, r.toEncoder)) =
        [(1, false), (2, false), (3, true)] := by
  obtain ⟨s, hreach, hend⟩ := (machine thirtyFps).exists_of_execBy (G := Uncut) overloadRun
    (P := fun s => s.pc = .done ∧ s.frames.map (fun r => (r.gridSlot, r.toEncoder)) =
      [(1, false), (2, false), (3, true)]) (by decide +kernel)
  exact ⟨s, hreach, loop_accounted hreach, hend⟩

def cutRun : List Act :=
  [.grid ⟨0, 0⟩, .grid ⟨0, 0⟩, .grid ⟨110000000, 0⟩, .requestStop, .grid ⟨110000000, 0⟩,
    .grid ⟨110000000, 0⟩, .push true]

/-- A stop request within a catch-up has a slot pushed that was over. -/
theorem not_forall_fresh :
    ¬ ∀ v s, (machine v).Reachable s → ∀ p ∈ s.pushes, ∃ us ∈ p.readings, v.InSlot p.slot us := by
  intro hall
  obtain ⟨s, hreach, hend⟩ := (machine thirtyFps).exists_of_execBy (G := fun _ _ => True) cutRun
    (P := fun s => s.pushes.map (fun p => (p.slot, p.readings)) = [(1, [110000, 110000])])
    (by decide +kernel)
  obtain ⟨p, hp, heq⟩ := List.map_eq_singleton_iff.mp hend
  obtain ⟨hslot, hreadings⟩ := Prod.mk.inj heq
  obtain ⟨us, hus, hin⟩ := hall thirtyFps s hreach p (hp ▸ List.mem_singleton_self _)
  rw [hreadings] at hus
  have hlate : us = 110000 := by simpa using hus
  rw [hslot, hlate] at hin
  exact absurd hin.2 (by decide)

end Gst
end P5G
