import P5G.Sender.FirstUnit

/-!
# Rung switches

A profile can change the wanted rung at any moment; the rung in use changes only on
the way to an access unit that is an IDR in every rung.
-/

namespace P5G
namespace Sender

open AnnexB

variable {c : Camera} {s s' : State} {a : Act}

structure Valid (c : Camera) (s : State) : Prop where
  wantRung : s.wantRung < c.rungs.length
  curRung : s.curRung < c.rungs.length
  want : s.pc = .switch → s.want < c.rungs.length

theorem Moves.valid (h : Moves c s a s') (hi : Valid c s) : Valid c s' := by
  cases h with
  | profile hidx => exact ⟨hidx, hi.curRung, hi.want⟩
  | want => exact ⟨hi.wantRung, hi.curRung, fun _ => hi.wantRung⟩
  | switch _ hpc _ => exact ⟨hi.wantRung, hi.want hpc, fun hswitch => nomatch hswitch⟩
  | skip _ hpc _ _ | drain _ hpc _ =>
    exact ⟨hi.wantRung, hi.curRung, fun hswitch => nomatch hpc.symm.trans hswitch⟩
  | stop | ignored => exact ⟨hi.wantRung, hi.curRung, hi.want⟩
  | _ => exact ⟨hi.wantRung, hi.curRung, fun hswitch => nomatch hswitch⟩

structure Switched (c : Camera) (s : State) : Prop where
  position : ∀ p ∈ s.handed, p.pos = c.fileIdx p.slot ∧ c.au p.rung p.pos = some p.au
  chain : s.handed.IsChain fun p q => q.au.isIdr = false → q.rung = p.rung
  last : ∀ p ∈ s.handed.getLast?, s.curRung = p.rung ∨ (s.pc = .mux ∧ c.isIdr s.slot = true)

theorem Switched.of_ne (hi : Switched c s) (hpc : s.pc ≠ .mux) (hhanded : s'.handed = s.handed)
    (hrung : s'.curRung = s.curRung) : Switched c s' := by
  refine ⟨hhanded ▸ hi.position, hhanded ▸ hi.chain, fun p hp => .inl ?_⟩
  rw [hhanded] at hp
  rw [hrung]
  rcases hi.last p hp with heq | ⟨hmux, -⟩
  · exact heq
  · exact absurd hmux hpc

theorem Moves.switched (h : Moves c s a s') (hi : Switched c s) : Switched c s' := by
  cases h with
  | stop | profile | ignored => exact ⟨hi.position, hi.chain, hi.last⟩
  | switch _ _ hidr => exact ⟨hi.position, hi.chain, fun _ _ => .inr ⟨rfl, hidr⟩⟩
  | @mux m au hpc hau =>
    have hidr := Camera.isIdr_of_au hau
    refine ⟨fun p hp => ?_, ?_, fun p hp => .inl ?_⟩
    · rcases List.mem_append.mp hp with hp | hp
      · exact hi.position p hp
      · rw [List.mem_singleton.mp hp]
        exact ⟨rfl, hau⟩
    · apply List.isChain_append.mpr
      refine ⟨hi.chain, .singleton _, fun p hp q hq hnot => ?_⟩
      cases hq
      rcases hi.last p hp with hrung | ⟨-, hslot⟩
      · exact hrung
      · rw [hidr, hslot] at hnot
        cases hnot
    · simp only [State.log, State.write, List.getLast?_concat] at hp
      cases hp
      rfl
  | leave _ hpc _ =>
    exact hi.of_ne (by rcases hpc with hpc | hpc | hpc <;> simp [hpc]) rfl rfl
  | epoch _ hpc | choose _ hpc _ _ | loop _ hpc _ | test _ hpc | asleep _ hpc _ | awake _ hpc _
  | inTime _ hpc _ | behind _ hpc _ _ | skip _ hpc _ _ | caughtUp _ hpc _ | check _ hpc _
  | want _ hpc | keep _ hpc | last _ hpc | drain _ hpc _ | finish _ hpc _ =>
    exact hi.of_ne (by simp [hpc]) rfl rfl

/-- In every run the rungs are valid, the packets are the ones their slots ask for, and
one that is no IDR comes from the rung of the packet before it. -/
theorem reachable_switched (h : (machine c).Reachable s) : Valid c s ∧ Switched c s := by
  apply h.invariant
  · refine ⟨⟨c.start_lt, c.start_lt, fun hswitch => nomatch hswitch⟩, ⟨?_, ?_, ?_⟩⟩
    · intro p hp
      cases hp
    · exact .nil
    · intro p hp
      cases hp
  · intro s a s' ⟨hvalid, hswitched⟩ hstep
    have hmoves := step_moves hstep
    exact ⟨hmoves.valid hvalid, hmoves.switched hswitched⟩

/-- Rung switches happen at IDRs only, and each slot's packet is the access unit at its
place in the file. -/
theorem rungs_switch_at_idr (h : (machine c).Reachable s) :
    (s.handed.IsChain fun p q => q.au.isIdr = false → q.rung = p.rung) ∧
      ∀ p ∈ s.handed, p.pos = c.fileIdx p.slot ∧
        ∃ r, c.rungs[p.rung]? = some r ∧ r.aus[p.pos.toNat]? = some p.au := by
  obtain ⟨-, hswitched⟩ := reachable_switched h
  refine ⟨hswitched.chain, fun p hp => ?_⟩
  obtain ⟨hpos, hau⟩ := hswitched.position p hp
  exact ⟨hpos, Option.bind_eq_some_iff.mp hau⟩

def turn (mono : Nat) : List Act := List.replicate 7 (.grid ⟨mono, 0⟩) ++ [.mux ⟨[], 0⟩]

/-- A profile between two access units, and the switch at the next IDR. -/
def switchRun : List Act :=
  [.grid ⟨0, 0⟩, .grid ⟨0, 0⟩] ++ turn 100000000 ++ [.profile 1000] ++ turn 140000000 ++
    turn 170000000

theorem rungs_switch_at_idr_switchRun :
    ∃ s, (machine twoFrames).Reachable s ∧
      (s.handed.IsChain fun p q => q.au.isIdr = false → q.rung = p.rung) ∧
      s.handed.map (fun p => (p.slot, p.rung)) = [(0, 0), (1, 0), (2, 1)] := by
  obtain ⟨s, hreach, hend⟩ := (machine twoFrames).exists_of_execBy (G := fun _ _ => True) switchRun
    (P := fun s => s.handed.map (fun p => (p.slot, p.rung)) = [(0, 0), (1, 0), (2, 1)])
    (by decide +kernel)
  exact ⟨s, hreach, (rungs_switch_at_idr hreach).1, hend⟩

end Sender
end P5G
