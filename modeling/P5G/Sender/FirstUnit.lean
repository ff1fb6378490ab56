import P5G.Sender.Slots

/-!
# The first access unit

The first slot is an IDR slot, but the first turn of the loop can record it as missed
and go on with a later one.  The first access unit handed to the muxer is an IDR in
every run whose first turn sends in the chosen slot or in another IDR slot.
-/

namespace P5G
namespace Sender

variable {c : Camera} {s s' : State} {a : Act}

/-- What an access unit is in every rung. -/
theorem Camera.isIdr_of_au {rung : Nat} {slot : Int} {au : AnnexB.AccessUnit}
    (h : c.au rung (c.fileIdx slot) = some au) : au.isIdr = c.isIdr slot := by
  have hrung : rung < c.rungs.length := by
    obtain ⟨r, hr, -⟩ := Option.bind_eq_some_iff.mp h
    exact (List.getElem?_eq_some_iff.mp hr).1
  obtain ⟨au', hau, hidr⟩ := exists_au hrung slot
  rw [h] at hau
  cases hau
  exact hidr

def State.slotOf (c : Camera) (s : State) (nowUs : Int) : Int :=
  (nowUs - s.startUs).tdiv c.intervalUs

theorem State.InSlot.slotOf {slot nowUs : Int} (h : s.InSlot c slot nowUs) (hslot : 0 ≤ slot) :
    s.slotOf c nowUs = slot := by
  obtain ⟨hlow, hhigh⟩ := h
  rw [at_succ] at hhigh
  have hpos : 0 < c.intervalUs := by omega
  have hprod : 0 ≤ slot * c.intervalUs := Int.mul_nonneg hslot (Int.le_of_lt hpos)
  rw [State.at] at hlow hhigh
  rw [State.slotOf, Int.tdiv_eq_ediv_of_nonneg (by omega)]
  apply Int.le_antisymm
  · apply Int.lt_add_one_iff.mp
    apply Int.ediv_lt_of_lt_mul hpos
    rw [Int.add_mul, Int.one_mul]
    omega
  · exact Int.le_ediv_of_mul_le hpos (by omega)

/-- When the first turn comes to send, its reading is not a whole slot behind the
chosen slot, or it lies in an IDR slot. -/
def Prompt (c : Camera) (s : State) : Act → Prop
  | .grid _ => s.pc = .check → s.running = true → s.handed = [] →
    s.nowUs < s.at c (s.first + 1) ∨ c.isIdr (s.slotOf c s.nowUs) = true
  | _ => True

instance : Decidable (Prompt c s a) :=
  match a with
  | .grid _ => inferInstanceAs (Decidable (_ → _ → _ → _))
  | .stop | .profile _ | .mux _ => .isTrue trivial

/-- The chosen slot is an IDR slot, and so is one about to be sent first. -/
def Opens (c : Camera) (s : State) : Prop :=
  match s.pc with
  | .epoch | .choose => True
  | .want | .switch | .mux =>
    c.isIdr s.first = true ∧ (s.handed = [] → c.isIdr s.slot = true)
  | _ => c.isIdr s.first = true

theorem Opens.first (h : Opens c s) (hbegun : s.pc ≠ .epoch ∧ s.pc ≠ .choose) :
    c.isIdr s.first = true := by
  rw [Opens] at h
  cases hpc : s.pc with
  | epoch => exact absurd hpc hbegun.1
  | choose => exact absurd hpc hbegun.2
  | want | switch | mux =>
    rw [hpc] at h
    exact h.1
  | _ =>
    rw [hpc] at h
    exact h

/-- A first send in the chosen slot, or in the slot of its reading. -/
theorem isIdr_of_prompt (hcount : Counted s) (hin : s.InSlot c s.slot s.nowUs)
    (hfirst : c.isIdr s.first = true)
    (hprompt : s.nowUs < s.at c (s.first + 1) ∨ c.isIdr (s.slotOf c s.nowUs) = true) :
    c.isIdr s.slot = true := by
  have hslot := hcount.slot
  have hzero := hcount.first
  rcases hprompt with hnow | hidr
  · have hle : s.slot ≤ s.first := by
      apply Int.le_of_not_gt
      intro hgt
      have hmono := at_mono (c := c) s (Int.add_one_le_of_lt hgt)
      have hlow := hin.1
      omega
    have heq : s.slot = s.first := by omega
    rw [heq]
    exact hfirst
  · rw [hin.slotOf (by omega)] at hidr
    exact hidr

theorem Moves.opens (h : Moves c s a s') (hcount : Counted s) (htimed : Timed c s)
    (hprompt : Prompt c s a) (hi : Opens c s) : Opens c s' := by
  cases h with
  | stop | profile | ignored => exact hi
  | epoch => trivial
  | choose _ _ _ hidr => exact hidr
  | check _ hpc hrun =>
    rw [Timed, hpc] at htimed
    have hfirst := hi.first (by simp [hpc])
    refine ⟨hfirst, fun hnil => ?_⟩
    have hreading := hprompt hpc hrun hnil
    exact isIdr_of_prompt (s := s) hcount (htimed.2 hrun) hfirst hreading
  | want _ hpc | switch _ hpc _ | keep _ hpc =>
    rw [Opens, hpc] at hi
    exact hi
  | skip _ hpc _ _ | drain _ hpc _ =>
    have hfirst := hi.first (by simp [hpc])
    simp only [Opens, State.emitMissed, hpc]
    exact hfirst
  | leave _ hpc _ =>
    exact hi.first (by rcases hpc with hpc | hpc | hpc <;> simp [hpc])
  | loop _ hpc _ | test _ hpc | asleep _ hpc _ | awake _ hpc _ | inTime _ hpc _
  | behind _ hpc _ _ | caughtUp _ hpc _ | mux hpc _ | last _ hpc | finish _ hpc _ =>
    exact hi.first (by simp [hpc])

def FirstIdr (s : State) : Prop := ∀ p ∈ s.handed.head?, p.au.isIdr = true

theorem Moves.firstIdr (h : Moves c s a s') (hopens : Opens c s)
    (hi : FirstIdr s) : FirstIdr s' := by
  cases h with
  | @mux m au hpc hau =>
    rw [Opens, hpc] at hopens
    intro p hp
    cases hnil : s.handed with
    | nil =>
      have hlast : p.au = au := by
        simp only [State.write, State.log, hnil] at hp
        cases hp
        rfl
      rw [hlast, Camera.isIdr_of_au hau]
      exact hopens.2 hnil
    | cons q rest =>
      simp only [State.write, State.log, hnil] at hp
      exact hi p (by rw [hnil]; exact hp)
  | _ => exact hi

/-- In every run with a prompt first turn the first access unit handed to the muxer
is an IDR. -/
theorem firstUnit_isIdr (h : (machine c).ReachableBy (Prompt c) s) : FirstIdr s := by
  have hinv : Counted s ∧ Timed c s ∧ Opens c s ∧ FirstIdr s := by
    apply h.invariant
    · exact ⟨counted_init, timed_init, trivial, fun p hp => by cases hp⟩
    · intro s a s' ⟨hcount, htimed, hopens, hfirst⟩ hprompt hstep
      have hmoves := step_moves hstep
      exact ⟨hmoves.counted htimed hcount, hmoves.timed hcount htimed,
        hmoves.opens hcount htimed hprompt hopens, hmoves.firstIdr hopens hfirst⟩
  exact hinv.2.2.2

/-- Up to the first access unit handed over, `missed` slots after the chosen one. -/
def firstUnitRun (late missed : Nat) : List Act :=
  firstTurn late ++ List.replicate (missed + 4) (.grid ⟨late, 0⟩) ++ [.mux ⟨[], 0⟩]

theorem firstUnit_isIdr_firstUnitRun :
    ∃ s, (machine twoFrames).ReachableBy (Prompt twoFrames) s ∧ FirstIdr s ∧
      s.handed.map Packet.slot = [2] := by
  obtain ⟨s, hreach, hend⟩ := (machine twoFrames).exists_of_execBy (G := Prompt twoFrames)
    (firstUnitRun 170000000 2) (P := fun s => s.handed.map Packet.slot = [2]) (by decide +kernel)
  exact ⟨s, hreach, firstUnit_isIdr hreach, hend⟩

/-- A first turn that is a slot late sends the frame behind the IDR. -/
theorem not_forall_firstIdr : ¬ ∀ c s, (machine c).Reachable s → FirstIdr s := by
  intro hall
  obtain ⟨s, hreach, hend⟩ := (machine twoFrames).exists_of_execBy (G := fun _ _ => True)
    (firstUnitRun 140000000 1)
    (P := fun s => s.handed.head?.any (fun p => !p.au.isIdr) = true) (by decide +kernel)
  obtain ⟨p, hp, hidr⟩ := (Option.any_eq_true _ _).mp hend
  rw [hall twoFrames s hreach p hp] at hidr
  cases hidr

end Sender
end P5G
