import P5G.Trace.Producers

/-!
# The consumers of the trace ring

The flusher and `Close` take turns at draining the ring.  `Closes` lists what
one step of `Close` can do.  `ConsumersInv` says where the two stand, who is in
a pass, and that until the footer the file is the header and the rows handed
out.
-/

namespace P5G
namespace TraceRing

open SlotRing

variable {T Row : Type*} [DecidableEq T] {cap : Capacity} {s s' : State T Row}
  {bootId header : String}

/-- What the producers leave to the consumers. -/
theorem producers_frame {a : Act T Row} (h : s.step cap bootId a = some s')
    (ha : (∃ t r, a = .write t r) ∨ ∃ t spurious, a = .producer t spurious) :
    s'.core.drain = s.core.drain ∧ s'.core.emitted = s.core.emitted ∧
      s'.closed = s.closed ∧ s'.flusher = s.flusher ∧ s'.closer = s.closer ∧
      s'.file = s.file ∧ s'.sidecar = s.sidecar := by
  obtain ⟨t, r, rfl⟩ | ⟨t, spurious, rfl⟩ := ha
  · simp only [State.step] at h
    split at h <;> cases h
    exact ⟨rfl, rfl, rfl, rfl, rfl, rfl, rfl⟩
  · simp only [State.step, State.producerStep] at h
    split at h
    · cases h
    · split at h
      · cases h
        exact ⟨rfl, rfl, rfl, rfl, rfl, rfl, rfl⟩
      · obtain ⟨c, hc, rfl⟩ := Option.map_eq_some_iff.mp h
        obtain ⟨-, rfl⟩ := Core.enter_eq hc
        exact ⟨rfl, rfl, rfl, rfl, rfl, rfl, rfl⟩
    · cases h
      exact ⟨rfl, rfl, rfl, rfl, rfl, rfl, rfl⟩
    · obtain ⟨c, hc, rfl⟩ := Option.map_eq_some_iff.mp h
      obtain ⟨hdrain, hemitted, -⟩ := Core.writer_frame hc
      split <;> exact ⟨hdrain, hemitted, rfl, rfl, rfl, rfl, rfl⟩

/-- The part of the state that only the producers move. -/
structure SameCalls (s s' : State T Row) : Prop where
  writers : s'.core.writers = s.core.writers
  accepted : s'.core.accepted = s.core.accepted
  claimed : s'.core.claimed = s.core.claimed
  calls : s'.calls = s.calls
  overflow : s'.overflow = s.overflow
  late : s'.late = s.late
  begun : s'.begun = s.begun
  dropped : s'.dropped = s.dropped
  lateRows : s'.lateRows = s.lateRows

omit [DecidableEq T] in
theorem SameCalls.refl (s : State T Row) : SameCalls s s :=
  ⟨rfl, rfl, rfl, rfl, rfl, rfl, rfl, rfl, rfl⟩

theorem sameCalls_passStep {final : Bool} (h : s.passStep cap final = some s') :
    SameCalls s s' := by
  obtain ⟨hc, he⟩ := passStep_eq h
  obtain ⟨hw, ha, hcl⟩ := Core.pass_frame hc
  rw [he]
  exact ⟨hw, ha, hcl, rfl, rfl, rfl, rfl, rfl, rfl⟩

theorem sameCalls_flusherStep (h : s.flusherStep cap = some s') : SameCalls s s' := by
  simp only [State.flusherStep] at h
  split at h
  · cases h
    exact ⟨rfl, rfl, rfl, rfl, rfl, rfl, rfl, rfl, rfl⟩
  · obtain ⟨c, hc, rfl⟩ := Option.map_eq_some_iff.mp h
    obtain ⟨-, rfl⟩ := Core.beginPass_eq hc
    exact ⟨rfl, rfl, rfl, rfl, rfl, rfl, rfl, rfl, rfl⟩
  · split at h
    · cases h
      exact ⟨rfl, rfl, rfl, rfl, rfl, rfl, rfl, rfl, rfl⟩
    · obtain ⟨c, hc, rfl⟩ := Option.map_eq_some_iff.mp h
      obtain ⟨-, rfl⟩ := Core.endPass_eq hc
      exact ⟨rfl, rfl, rfl, rfl, rfl, rfl, rfl, rfl, rfl⟩
    · exact sameCalls_passStep h
  · cases h

/-! ## What one step of `Close` can do -/

inductive Closes (cap : Capacity) (bootId : String) (s : State T Row) : State T Row → Prop
  | again (h : s.closer = .exchange) (hclosed : s.closed = true) :
      Closes cap bootId s { s with closer := .returned }
  | shut (h : s.closer = .exchange) (hopen : s.closed = false) :
      Closes cap bootId s { s with closed := true, closer := .stopRunning }
  | stop (h : s.closer = .stopRunning) :
      Closes cap bootId s { s with running := false, closer := .join }
  | join (h : s.closer = .join) (hexited : s.flusher = .exited) :
      Closes cap bootId s { s with closer := .loopLoad 0 }
  | load (i : Nat) (h : s.closer = .loopLoad i) :
      Closes cap bootId s { s with closer := .loopCompare i s.core.consumed }
  | giveUp (i : Nat) (h : s.closer = .loopLoad i) (hdrain : s.core.drain = .out) :
      Closes cap bootId s
        { s with core := { s.core with drain := .loadConsumed }, closer := .finalFlush }
  | retry (i c : Nat) (h : s.closer = .loopCompare i c) (hdrain : s.core.drain = .out) :
      Closes cap bootId s
        { s with core := { s.core with drain := .loadConsumed }, closer := .loopFlush i }
  | last (i c : Nat) (h : s.closer = .loopCompare i c) (hdrain : s.core.drain = .out) :
      Closes cap bootId s
        { s with core := { s.core with drain := .loadConsumed }, closer := .finalFlush }
  | loopEmpty (i : Nat) (h : s.closer = .loopFlush i) (hdrain : s.core.drain = .out) :
      Closes cap bootId s { s with closer := .loopLoad (i + 1) }
  | loopEnd (i m e : Nat) (h : s.closer = .loopFlush i) (hdrain : s.core.drain = .ended m e) :
      Closes cap bootId s
        { s with core := { s.core with drain := .out }, closer := .loopLoad (i + 1) }
  | loopPass (i : Nat) (s' : State T Row) (h : s.closer = .loopFlush i)
      (hpass : s.passStep cap false = some s') : Closes cap bootId s s'
  | finalEnd (m e : Nat) (h : s.closer = .finalFlush) (hdrain : s.core.drain = .ended m e) :
      Closes cap bootId s
        { s with core := { s.core with drain := .out }, closer := .loadOverflow m e }
  | finalPass (s' : State T Row) (h : s.closer = .finalFlush)
      (hpass : s.passStep cap true = some s') : Closes cap bootId s s'
  | loadOverflow (m e : Nat) (h : s.closer = .loadOverflow m e) :
      Closes cap bootId s { s with closer := .loadLate m e s.overflow }
  | loadLate (m e ov : Nat) (h : s.closer = .loadLate m e ov) :
      Closes cap bootId s { s with closer := .writeFooter m e ov s.late }
  | writeFooter (m e ov lt : Nat) (h : s.closer = .writeFooter m e ov lt) :
      Closes cap bootId s
        { s with
          closer := .returned
          file := s.file ++ State.footer bootId s.core.written ov lt (e - m)
          sidecar :=
            if ov ≠ 0 ∨ lt ≠ 0 ∨ e - m ≠ 0 then
              some [("overflow", ov), ("late", lt), ("unpublished", e - m)]
            else s.sidecar }

theorem closes_of_closerStep (h : s.closerStep cap bootId = some s') :
    Closes cap bootId s s' := by
  simp only [State.closerStep] at h
  split at h
  case h_1 => cases h
  case h_2 hpc =>
    split at h
    · next hclosed =>
      cases h
      exact .again hpc hclosed
    · next hopen =>
      cases h
      exact .shut hpc (by simpa using hopen)
  case h_3 hpc =>
    cases h
    exact .stop hpc
  case h_4 hpc =>
    split at h
    · next hexited =>
      cases h
      exact .join hpc hexited
    · cases h
  case h_5 i hpc =>
    split at h
    · cases h
      exact .load i hpc
    · obtain ⟨c, hc, rfl⟩ := Option.map_eq_some_iff.mp h
      obtain ⟨hdrain, rfl⟩ := Core.beginPass_eq hc
      exact .giveUp i hpc hdrain
  case h_6 i c hpc =>
    obtain ⟨k, hk, rfl⟩ := Option.map_eq_some_iff.mp h
    obtain ⟨hdrain, rfl⟩ := Core.beginPass_eq hk
    split
    · exact .retry i c hpc hdrain
    · exact .last i c hpc hdrain
  case h_7 i hpc =>
    split at h
    · next hdrain =>
      cases h
      exact .loopEmpty i hpc hdrain
    · next m e hdrain =>
      obtain ⟨c, hc, rfl⟩ := Option.map_eq_some_iff.mp h
      obtain ⟨-, rfl⟩ := Core.endPass_eq hc
      exact .loopEnd i m e hpc hdrain
    · exact .loopPass i s' hpc h
  case h_8 hpc =>
    split at h
    · next m e hdrain =>
      obtain ⟨c, hc, rfl⟩ := Option.map_eq_some_iff.mp h
      obtain ⟨-, rfl⟩ := Core.endPass_eq hc
      exact .finalEnd m e hpc hdrain
    · exact .finalPass s' hpc h
  case h_9 m e hpc =>
    cases h
    exact .loadOverflow m e hpc
  case h_10 m e ov hpc =>
    cases h
    exact .loadLate m e ov hpc
  case h_11 m e ov lt hpc =>
    cases h
    exact .writeFooter m e ov lt hpc
  case h_12 => cases h

theorem sameCalls_closes (h : Closes cap bootId s s') : SameCalls s s' := by
  cases h with
  | loopPass i s' h hpass => exact sameCalls_passStep hpass
  | finalPass s' h hpass => exact sameCalls_passStep hpass
  | _ => exact ⟨rfl, rfl, rfl, rfl, rfl, rfl, rfl, rfl, rfl⟩

theorem ProducersInv.same [DecidableEq Row] (h : ProducersInv s)
    (hsame : SameCalls s s') : ProducersInv s' := by
  have hpending : pending s' = pending s := by
    funext t
    rw [pending, pending, hsame.calls, hsame.writers]
  refine ⟨fun t => ?_, ?_, ?_, fun x => ?_⟩
  · rw [hsame.calls, hsame.writers]
    exact h.claiming t
  · rw [hsame.overflow, hsame.dropped]
    exact h.overflow_eq
  · rw [hsame.late, hsame.lateRows]
    exact h.late_eq
  · rw [hsame.begun, hpending, outcomes, hsame.accepted, hsame.dropped, hsame.lateRows]
    exact h.balance x

/-- Every step keeps the balance of the calls. -/
theorem ProducersInv.step [DecidableEq Row] (h : ProducersInv s) {a : Act T Row}
    (hstep : s.step cap bootId a = some s') : ProducersInv s' := by
  cases a with
  | write t r =>
    simp only [State.step] at hstep
    split at hstep
    · next hpc =>
      cases hstep
      exact h.write hpc
    · cases hstep
  | producer t spurious => exact h.producerStep hstep
  | flusher => exact h.same (sameCalls_flusherStep hstep)
  | closer => exact h.same (sameCalls_closes (closes_of_closerStep hstep))
  | close =>
    simp only [State.step] at hstep
    split at hstep <;> cases hstep
    exact h.same ⟨rfl, rfl, rfl, rfl, rfl, rfl, rfl, rfl, rfl⟩

/-! ## Where the consumers stand -/

def CloserPc.Joined : CloserPc → Prop
  | .notCalled | .exchange | .stopRunning | .join => False
  | _ => True

theorem CloserPc.Joined.called {pc : CloserPc} (h : pc.Joined) :
    pc ≠ .notCalled ∧ pc ≠ .exchange := by
  constructor
  · rintro rfl
    exact h
  · rintro rfl
    exact h

/-- `Close` is past its last pass, or was called again after that. -/
def Drained (s : State T Row) : Prop :=
  match s.closer with
  | .loadOverflow _ _ | .loadLate _ _ _ | .writeFooter _ _ _ _ | .returned => True
  | .exchange => s.closed = true
  | _ => False

def Finished (s : State T Row) : Prop :=
  s.closer = .returned ∨ s.closer = .exchange ∧ s.closed = true

omit [DecidableEq T] in
theorem Finished.drained (h : Finished s) : Drained s := by
  rcases h with h | ⟨h, hclosed⟩
  · simp only [Drained, h]
  · simp only [Drained, h, hclosed]

structure ConsumersInv (header : String) (s : State T Row) : Prop where
  opened : s.closed = false → s.closer = .notCalled ∨ s.closer = .exchange
  shut : s.closed = true → s.closer ≠ .notCalled
  joined : s.closer.Joined ∨ Drained s → s.flusher = .exited
  owner : s.core.drain ≠ .out →
    s.flusher = .flushing ∨ (∃ i, s.closer = .loopFlush i) ∨ s.closer = .finalFlush
  logged : ¬ Finished s → s.file = .header header :: s.core.emitted.map .row ∧ s.sidecar = none

omit [DecidableEq T] in
theorem consumersInv_init (memory : Nat → Row) :
    ConsumersInv header (init header memory : State T Row) := by
  refine ⟨fun _ => .inl rfl, nofun, fun h => ?_, fun h => absurd rfl h, fun _ => ⟨rfl, rfl⟩⟩
  rcases h with h | h <;> exact h.elim

omit [DecidableEq T] in
/-- Only the flusher drains before the join, and only `Close` after it. -/
theorem ConsumersInv.drain_out (h : ConsumersInv header s) (hj : s.closer.Joined ∨ Drained s)
    (hloop : ∀ i, s.closer ≠ .loopFlush i) (hfinal : s.closer ≠ .finalFlush) :
    s.core.drain = .out := by
  by_contra hne
  rcases h.owner hne with hf | ⟨i, hi⟩ | hf
  · rw [h.joined hj] at hf
    cases hf
  · exact hloop i hi
  · exact hfinal hf

/-- A pass logs what it hands out. -/
theorem passStep_logged {final : Bool} (h : s.passStep cap final = some s')
    (hlog : s.file = .header header :: s.core.emitted.map .row) :
    s'.file = .header header :: s'.core.emitted.map .row := by
  simp only [State.passStep] at h
  obtain ⟨c, hc, rfl⟩ := Option.map_eq_some_iff.mp h
  simp only [Core.step, Core.passStep] at hc
  split at hc
  case h_1 => cases hc
  case h_2 hpc => cases hc; simpa only [hpc] using hlog
  case h_3 hpc => split at hc <;> cases hc <;> simpa only [hpc] using hlog
  case h_4 hpc => split at hc <;> cases hc <;> simpa only [hpc] using hlog
  case h_5 m e hpc =>
    cases hc
    simp [hpc, hlog]
  case h_6 hpc => cases hc; simpa only [hpc, Core.setReady_emitted] using hlog
  case h_7 hpc => cases hc; simpa only [hpc] using hlog
  case h_8 => cases hc

namespace ConsumersInv

theorem producers (h : ConsumersInv header s) {a : Act T Row}
    (hstep : s.step cap bootId a = some s')
    (ha : (∃ t r, a = .write t r) ∨ ∃ t spurious, a = .producer t spurious) :
    ConsumersInv header s' := by
  obtain ⟨hdrain, hemitted, hclosed, hflusher, hcloser, hfile, hsidecar⟩ :=
    producers_frame hstep ha
  have hdrained : Drained s' = Drained s := by simp only [Drained, hcloser, hclosed]
  have hfinished : Finished s' = Finished s := by simp only [Finished, hcloser, hclosed]
  constructor
  · rw [hclosed, hcloser]; exact h.opened
  · rw [hclosed, hcloser]; exact h.shut
  · rw [hcloser, hflusher, hdrained]; exact h.joined
  · rw [hdrain, hflusher, hcloser]; exact h.owner
  · rw [hfinished, hfile, hsidecar, hemitted]; exact h.logged

/-- A pass run by whoever owns the drain. -/
theorem passStep (h : ConsumersInv header s) {final : Bool}
    (hstep : s.passStep cap final = some s')
    (howner : s.flusher = .flushing ∨ (∃ i, s.closer = .loopFlush i) ∨ s.closer = .finalFlush)
    (hnot : ¬ Finished s) : ConsumersInv header s' := by
  obtain ⟨hlog, hside⟩ := h.logged hnot
  have hlogged := passStep_logged hstep hlog
  obtain ⟨-, he⟩ := passStep_eq hstep
  rw [he]
  exact ⟨h.opened, h.shut, h.joined, fun _ => howner, fun _ => ⟨hlogged, hside⟩⟩

theorem flusherStep (h : ConsumersInv header s) (hstep : s.flusherStep cap = some s') :
    ConsumersInv header s' := by
  simp only [State.flusherStep] at hstep
  split at hstep
  · next hpc =>
    have hout : s.core.drain ≠ .out →
        (∃ i, s.closer = .loopFlush i) ∨ s.closer = .finalFlush := by
      intro hne
      rcases h.owner hne with hf | hf
      · rw [hpc] at hf
        cases hf
      · exact hf
    cases hstep
    refine ⟨h.opened, h.shut, fun hj => ?_, fun hne => .inr (hout hne), h.logged⟩
    have := h.joined hj
    rw [hpc] at this
    cases this
  · next hpc =>
    obtain ⟨c, hc, rfl⟩ := Option.map_eq_some_iff.mp hstep
    obtain ⟨-, rfl⟩ := Core.beginPass_eq hc
    refine ⟨h.opened, h.shut, fun hj => ?_, fun _ => .inl rfl, h.logged⟩
    have := h.joined hj
    rw [hpc] at this
    cases this
  · next hpc =>
    have hnotJoined : ¬ (s.closer.Joined ∨ Drained s) := by
      intro hj
      have := h.joined hj
      rw [hpc] at this
      cases this
    split at hstep
    · next hdrain =>
      cases hstep
      exact ⟨h.opened, h.shut, fun hj => absurd hj hnotJoined, fun hne => absurd hdrain hne,
        h.logged⟩
    · obtain ⟨c, hc, rfl⟩ := Option.map_eq_some_iff.mp hstep
      obtain ⟨-, rfl⟩ := Core.endPass_eq hc
      exact ⟨h.opened, h.shut, fun hj => absurd hj hnotJoined, fun hne => absurd rfl hne,
        h.logged⟩
    · exact h.passStep hstep (.inl hpc) (fun hf => hnotJoined (.inr hf.drained))
  · cases hstep

omit [DecidableEq T] in
/-- A move of `Close` after the join. -/
theorem advance (h : ConsumersInv header s) (hpc : s.closer ≠ .notCalled ∧ s.closer ≠ .exchange)
    (hexited : s.flusher = .exited) (hclosed : s'.closed = s.closed)
    (hflusher : s'.flusher = s.flusher) (hcalled : s'.closer ≠ .notCalled)
    (howner : s'.core.drain ≠ .out → (∃ i, s'.closer = .loopFlush i) ∨ s'.closer = .finalFlush)
    (hlogged : ¬ Finished s' →
      s'.file = .header header :: s'.core.emitted.map .row ∧ s'.sidecar = none) :
    ConsumersInv header s' := by
  refine ⟨fun ho => ?_, fun _ => hcalled, fun _ => hflusher.trans hexited,
    fun hne => .inr (howner hne), hlogged⟩
  rw [hclosed] at ho
  rcases h.opened ho with hp | hp
  · exact absurd hp hpc.1
  · exact absurd hp hpc.2

omit [DecidableEq T] in
/-- A move of `Close` between the join and the footer. -/
theorem advanceJoined (h : ConsumersInv header s) (hj : s.closer.Joined)
    (hr : s.closer ≠ .returned) (hclosed : s'.closed = s.closed)
    (hflusher : s'.flusher = s.flusher) (hcalled : s'.closer ≠ .notCalled)
    (hlog : s'.file = s.file ∧ s'.sidecar = s.sidecar ∧ s'.core.emitted = s.core.emitted)
    (howner : s'.core.drain ≠ .out → (∃ i, s'.closer = .loopFlush i) ∨ s'.closer = .finalFlush) :
    ConsumersInv header s' := by
  have hnot : ¬ Finished s := by
    rintro (hf | ⟨hf, -⟩)
    · exact hr hf
    · exact hj.called.2 hf
  refine h.advance hj.called (h.joined (.inl hj)) hclosed hflusher hcalled howner fun _ => ?_
  rw [hlog.1, hlog.2.1, hlog.2.2]
  exact h.logged hnot

theorem closes (h : ConsumersInv header s) (hmove : Closes cap bootId s s') :
    ConsumersInv header s' := by
  -- the flusher may still own the drain as long as `Close` has not joined it
  have flusherOwns (hloop : ∀ i, s.closer ≠ .loopFlush i) (hfinal : s.closer ≠ .finalFlush)
      (hne : s.core.drain ≠ .out) : s.flusher = .flushing := by
    rcases h.owner hne with hf | ⟨i, hi⟩ | hf
    · exact hf
    · exact absurd hi (hloop i)
    · exact absurd hf hfinal
  have drainOut (hj : s.closer.Joined) (hloop : ∀ i, s.closer ≠ .loopFlush i)
      (hfinal : s.closer ≠ .finalFlush) : s.core.drain = .out :=
    h.drain_out (.inl hj) hloop hfinal
  have unfinished (hr : s.closer ≠ .returned) (he : s.closer ≠ .exchange) : ¬ Finished s := by
    rintro (hf | ⟨hf, -⟩)
    · exact hr hf
    · exact he hf
  cases hmove with
  | again hpc hclosed =>
    have hdrained : Drained s := by simp only [Drained, hpc, hclosed]
    have hout := h.drain_out (.inr hdrained) (by simp [hpc]) (by simp [hpc])
    exact ⟨fun ho => absurd (hclosed.symm.trans ho) (by decide), fun _ => nofun,
      fun _ => h.joined (.inr hdrained), fun hne => absurd hout hne,
      fun hf => absurd (.inl rfl) hf⟩
  | shut hpc hopen =>
    have hnot : ¬ Finished s := by
      rintro (hf | ⟨-, hf⟩)
      · rw [hpc] at hf; cases hf
      · rw [hopen] at hf; cases hf
    refine ⟨nofun, fun _ => nofun, fun hj => ?_,
      fun hne => .inl (flusherOwns (by simp [hpc]) (by simp [hpc]) hne), fun _ => h.logged hnot⟩
    rcases hj with hj | hj <;> exact hj.elim
  | stop hpc =>
    have hnot := unfinished (by simp [hpc]) (by simp [hpc])
    refine ⟨fun ho => ?_, fun _ => nofun, fun hj => ?_,
      fun hne => .inl (flusherOwns (by simp [hpc]) (by simp [hpc]) hne), fun _ => h.logged hnot⟩
    · rcases h.opened ho with hp | hp <;> (rw [hpc] at hp; cases hp)
    · rcases hj with hj | hj <;> exact hj.elim
  | join hpc hexited =>
    have hnot := unfinished (by simp [hpc]) (by simp [hpc])
    refine h.advance (by simp [hpc]) hexited rfl rfl nofun (fun hne => ?_) (fun _ => h.logged hnot)
    have hf := flusherOwns (by simp [hpc]) (by simp [hpc]) hne
    rw [hexited] at hf
    cases hf
  | load i hpc =>
    have hj : s.closer.Joined := by rw [hpc]; trivial
    have hout := drainOut hj (by simp [hpc]) (by simp [hpc])
    exact h.advanceJoined hj (by simp [hpc]) rfl rfl nofun ⟨rfl, rfl, rfl⟩
      fun hne => absurd hout hne
  | giveUp i hpc hdrain =>
    have hj : s.closer.Joined := by rw [hpc]; trivial
    exact h.advanceJoined hj (by simp [hpc]) rfl rfl nofun ⟨rfl, rfl, rfl⟩ fun _ => .inr rfl
  | retry i c hpc hdrain =>
    have hj : s.closer.Joined := by rw [hpc]; trivial
    exact h.advanceJoined hj (by simp [hpc]) rfl rfl nofun ⟨rfl, rfl, rfl⟩ fun _ => .inl ⟨i, rfl⟩
  | last i c hpc hdrain =>
    have hj : s.closer.Joined := by rw [hpc]; trivial
    exact h.advanceJoined hj (by simp [hpc]) rfl rfl nofun ⟨rfl, rfl, rfl⟩ fun _ => .inr rfl
  | loopEmpty i hpc hdrain =>
    have hj : s.closer.Joined := by rw [hpc]; trivial
    exact h.advanceJoined hj (by simp [hpc]) rfl rfl nofun ⟨rfl, rfl, rfl⟩
      fun hne => absurd hdrain hne
  | loopEnd i m e hpc hdrain =>
    have hj : s.closer.Joined := by rw [hpc]; trivial
    exact h.advanceJoined hj (by simp [hpc]) rfl rfl nofun ⟨rfl, rfl, rfl⟩
      fun hne => absurd rfl hne
  | loopPass i s' hpc hpass =>
    exact h.passStep hpass (.inr (.inl ⟨i, hpc⟩)) (unfinished (by simp [hpc]) (by simp [hpc]))
  | finalEnd m e hpc hdrain =>
    have hj : s.closer.Joined := by rw [hpc]; trivial
    exact h.advanceJoined hj (by simp [hpc]) rfl rfl nofun ⟨rfl, rfl, rfl⟩
      fun hne => absurd rfl hne
  | finalPass s' hpc hpass =>
    exact h.passStep hpass (.inr (.inr hpc)) (unfinished (by simp [hpc]) (by simp [hpc]))
  | loadOverflow m e hpc =>
    have hj : s.closer.Joined := by rw [hpc]; trivial
    have hout := drainOut hj (by simp [hpc]) (by simp [hpc])
    exact h.advanceJoined hj (by simp [hpc]) rfl rfl nofun ⟨rfl, rfl, rfl⟩
      fun hne => absurd hout hne
  | loadLate m e ov hpc =>
    have hj : s.closer.Joined := by rw [hpc]; trivial
    have hout := drainOut hj (by simp [hpc]) (by simp [hpc])
    exact h.advanceJoined hj (by simp [hpc]) rfl rfl nofun ⟨rfl, rfl, rfl⟩
      fun hne => absurd hout hne
  | writeFooter m e ov lt hpc =>
    have hj : s.closer.Joined := by rw [hpc]; trivial
    have hout := drainOut hj (by simp [hpc]) (by simp [hpc])
    exact h.advance hj.called (h.joined (.inl hj)) rfl rfl nofun
      (fun hne => absurd hout hne) (fun hnot => absurd (.inl rfl) hnot)

theorem step (h : ConsumersInv header s) {a : Act T Row}
    (hstep : s.step cap bootId a = some s') : ConsumersInv header s' := by
  cases a with
  | write t r => exact h.producers hstep (.inl ⟨t, r, rfl⟩)
  | producer t spurious => exact h.producers hstep (.inr ⟨t, spurious, rfl⟩)
  | flusher => exact h.flusherStep hstep
  | closer => exact h.closes (closes_of_closerStep hstep)
  | close =>
    simp only [State.step] at hstep
    split at hstep
    · next hpc =>
      cases hstep
      refine ⟨fun _ => .inr rfl, fun _ => by simp, ?_, ?_, ?_⟩
      · rintro (hj | hj)
        · exact hj.elim
        · rcases hpc with hpc | hpc
          · exact absurd hpc (h.shut hj)
          · exact h.joined (.inl (by rw [hpc]; trivial))
      · intro hne
        rcases h.owner hne with hf | ⟨i, hi⟩ | hf
        · exact .inl hf
        · rcases hpc with hpc | hpc <;> (rw [hpc] at hi; cases hi)
        · rcases hpc with hpc | hpc <;> (rw [hpc] at hf; cases hf)
      · intro hnot
        refine h.logged (fun hf => hnot (.inr ⟨rfl, ?_⟩))
        rcases hf with hf | ⟨-, hf⟩
        · by_contra hc
          rcases h.opened (by simpa using hc) with hp | hp <;> (rw [hp] at hf; cases hf)
        · exact hf
    · cases hstep

end ConsumersInv
end TraceRing
end P5G
