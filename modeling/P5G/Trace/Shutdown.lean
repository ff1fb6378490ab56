import P5G.Trace.GnbTracer
import Mathlib.Data.List.Basic

/-!
# What shutting the gNB tracer down leaves in a file

The producers are not joined, so the final flush may stop at a slot that is
claimed and not yet published.  The rows from there on are in no line and in no
count of the footer.  `Lossy` marks the states in which that has happened, and
`lossy_step` says that it happens at the final flush's test of an unpublished
slot and nowhere else.
-/

namespace P5G
namespace GnbTracer

open SlotRing

variable {T Row : Type*} [DecidableEq T] {cap : Capacity} {s s' : State T Row}
  {bootId header : String}

inductive Shuts (cap : Capacity) (bootId : String) (s : State T Row) : State T Row → Prop
  | again (h : s.shutdown = .exchangeActive) (hactive : s.active = false) :
      Shuts cap bootId s { s with shutdown := .returned }
  | start (h : s.shutdown = .exchangeActive) (hactive : s.active = true) :
      Shuts cap bootId s { s with active := false, shutdown := .stopRunning }
  | stop (h : s.shutdown = .stopRunning) :
      Shuts cap bootId s { s with running := false, shutdown := .join }
  | join (h : s.shutdown = .join) (hexited : s.flusher = .exited) :
      Shuts cap bootId s { s with shutdown := .exchangeClosed }
  | closedAlready (h : s.shutdown = .exchangeClosed) (hclosed : s.closed = true) :
      Shuts cap bootId s { s with shutdown := .returned }
  | close (h : s.shutdown = .exchangeClosed) (hopen : s.closed = false)
      (hdrain : s.core.drain = .out) :
      Shuts cap bootId s
        { s with
          core := { s.core with drain := .loadConsumed }
          closed := true
          shutdown := .finalFlush }
  | finalRead (m : Nat) (h : s.shutdown = .finalFlush) (hdrain : s.core.drain = .loadClaimed m) :
      Shuts cap bootId s
        { s with
          core := { s.core with drain := .test m s.core.claimed }
          finalEnd := some s.core.claimed }
  | finalPass (s' : State T Row) (h : s.shutdown = .finalFlush)
      (hdrain : (∀ m, s.core.drain ≠ .loadClaimed m) ∧ ∀ m e, s.core.drain ≠ .ended m e)
      (hpass : s.flushStep cap true = some s') : Shuts cap bootId s s'
  | finalEnd (m e : Nat) (h : s.shutdown = .finalFlush) (hdrain : s.core.drain = .ended m e) :
      Shuts cap bootId s
        { s with core := { s.core with drain := .out }, shutdown := .loadOverflow m e }
  | loadOverflow (m e : Nat) (h : s.shutdown = .loadOverflow m e) :
      Shuts cap bootId s
        { s with shutdown := .writeFooter m e s.overflow, finalOverflow := some s.overflow }
  | writeFooter (m e ov : Nat) (h : s.shutdown = .writeFooter m e ov) :
      Shuts cap bootId s
        { s with
          shutdown := .returned
          file := s.file ++ [.footer [("rows", s.core.written), ("overflow", ov)] (some bootId)]
          sidecar := if ov ≠ 0 then some [("overflow", ov)] else s.sidecar }

theorem shuts_of_shutdownStep (h : s.shutdownStep cap bootId = some s') :
    Shuts cap bootId s s' := by
  simp only [State.shutdownStep] at h
  split at h
  case h_1 => cases h
  case h_2 hpc =>
    split at h
    · next hactive =>
      cases h
      exact .start hpc hactive
    · next hactive =>
      cases h
      exact .again hpc (by simpa using hactive)
  case h_3 hpc =>
    cases h
    exact .stop hpc
  case h_4 hpc =>
    split at h
    · next hexited =>
      cases h
      exact .join hpc hexited
    · cases h
  case h_5 hpc =>
    split at h
    · next hclosed =>
      cases h
      exact .closedAlready hpc hclosed
    · next hopen =>
      obtain ⟨c, hc, rfl⟩ := Option.map_eq_some_iff.mp h
      obtain ⟨hdrain, rfl⟩ := Core.beginPass_eq hc
      exact .close hpc (by simpa using hopen) hdrain
  case h_6 hpc =>
    split at h
    · next m e hdrain =>
      obtain ⟨c, hc, rfl⟩ := Option.map_eq_some_iff.mp h
      obtain ⟨-, rfl⟩ := Core.endPass_eq hc
      exact .finalEnd m e hpc hdrain
    · next m hdrain =>
      simp only [State.flushStep, Core.step, Core.passStep, hdrain, Bool.true_eq_false, and_false,
        if_false, Option.map_some, Option.some.injEq] at h
      subst h
      exact .finalRead m hpc hdrain
    · next hended hloaded => exact .finalPass s' hpc ⟨hloaded, hended⟩ h
  case h_7 m e hpc =>
    cases h
    exact .loadOverflow m e hpc
  case h_8 m e ov hpc =>
    cases h
    exact .writeFooter m e ov hpc
  case h_9 => cases h

/-- The part of the state that only `shutdown` moves. -/
structure SameShutdown (s s' : State T Row) : Prop where
  active : s'.active = s.active
  closed : s'.closed = s.closed
  shutdown : s'.shutdown = s.shutdown
  sidecar : s'.sidecar = s.sidecar
  finalEnd : s'.finalEnd = s.finalEnd
  finalOverflow : s'.finalOverflow = s.finalOverflow

theorem sameShutdown_of_flushStep {final : Bool} (h : s.flushStep cap final = some s') :
    SameShutdown s s' ∧ s'.flusher = s.flusher := by
  obtain ⟨-, he⟩ := flushStep_eq h
  rw [he]
  exact ⟨⟨rfl, rfl, rfl, rfl, rfl, rfl⟩, rfl⟩

/-- A producer's move leaves the drain and the file as well. -/
theorem producers_frame {a : Act T Row} (h : s.step cap bootId a = some s')
    (ha : (∃ t r, a = .emit t r) ∨ ∃ t spurious, a = .producer t spurious) :
    SameShutdown s s' ∧ s'.flusher = s.flusher ∧ s'.file = s.file ∧
      s'.core.drain = s.core.drain ∧ s'.core.emitted = s.core.emitted ∧
      s'.core.written = s.core.written := by
  obtain ⟨t, r, rfl⟩ | ⟨t, spurious, rfl⟩ := ha
  · simp only [State.step] at h
    split at h <;> cases h
    exact ⟨⟨rfl, rfl, rfl, rfl, rfl, rfl⟩, rfl, rfl, rfl, rfl, rfl⟩
  · simp only [State.step, State.writeStep] at h
    split at h
    · cases h
    · cases h
      exact ⟨⟨rfl, rfl, rfl, rfl, rfl, rfl⟩, rfl, rfl, rfl, rfl, rfl⟩
    · split at h
      · cases h
        exact ⟨⟨rfl, rfl, rfl, rfl, rfl, rfl⟩, rfl, rfl, rfl, rfl, rfl⟩
      · obtain ⟨c, hc, rfl⟩ := Option.map_eq_some_iff.mp h
        obtain ⟨-, rfl⟩ := Core.enter_eq hc
        exact ⟨⟨rfl, rfl, rfl, rfl, rfl, rfl⟩, rfl, rfl, rfl, rfl, rfl⟩
    · obtain ⟨c, hc, rfl⟩ := Option.map_eq_some_iff.mp h
      obtain ⟨hdrain, hemitted, -, hwritten, -⟩ := Core.writer_frame hc
      split <;> exact ⟨⟨rfl, rfl, rfl, rfl, rfl, rfl⟩, rfl, rfl, hdrain, hemitted, hwritten⟩

/-- What one step of `flush_loop` can do. -/
theorem flushLoop_moves (h : s.flushLoopStep cap = some s') :
    s.flusher ≠ .exited ∧ SameShutdown s s' ∧
      ((s'.core = s.core ∧ s'.file = s.file ∧ (s.flusher = .flushing → s.core.drain = .out)) ∨
        (s'.core = { s.core with drain := .loadConsumed } ∧ s'.file = s.file ∧
          s'.flusher = .flushing) ∨
        (s'.core = { s.core with drain := .out } ∧ s'.file = s.file) ∨
        (s.flusher = .flushing ∧ s.flushStep cap false = some s')) := by
  simp only [State.flushLoopStep] at h
  split at h
  · next hpc =>
    cases h
    exact ⟨by simp [hpc], ⟨rfl, rfl, rfl, rfl, rfl, rfl⟩, .inl ⟨rfl, rfl, by simp [hpc]⟩⟩
  · next hpc =>
    obtain ⟨c, hc, rfl⟩ := Option.map_eq_some_iff.mp h
    obtain ⟨-, rfl⟩ := Core.beginPass_eq hc
    exact ⟨by simp [hpc], ⟨rfl, rfl, rfl, rfl, rfl, rfl⟩, .inr (.inl ⟨rfl, rfl, rfl⟩)⟩
  · next hpc =>
    split at h
    · next hdrain =>
      cases h
      exact ⟨by simp [hpc], ⟨rfl, rfl, rfl, rfl, rfl, rfl⟩, .inl ⟨rfl, rfl, fun _ => hdrain⟩⟩
    · obtain ⟨c, hc, rfl⟩ := Option.map_eq_some_iff.mp h
      obtain ⟨-, rfl⟩ := Core.endPass_eq hc
      exact ⟨by simp [hpc], ⟨rfl, rfl, rfl, rfl, rfl, rfl⟩, .inr (.inr (.inl ⟨rfl, rfl⟩))⟩
    · exact ⟨by simp [hpc], (sameShutdown_of_flushStep h).1, .inr (.inr (.inr ⟨hpc, h⟩))⟩
  · cases h

/-- A flush logs what it hands out. -/
theorem flushStep_logged {final : Bool} (h : s.flushStep cap final = some s')
    (hlog : s.file = .header header :: s.core.emitted.map .row) :
    s'.file = .header header :: s'.core.emitted.map .row := by
  simp only [State.flushStep] at h
  obtain ⟨c, hc, rfl⟩ := Option.map_eq_some_iff.mp h
  simp only [Core.step, Core.passStep] at hc
  split at hc
  case h_1 => cases hc
  case h_2 hpc => cases hc; simpa only [hpc] using hlog
  case h_3 hpc => split at hc <;> cases hc <;> simpa only [hpc] using hlog
  case h_4 hpc => split at hc <;> cases hc <;> simpa only [hpc] using hlog
  case h_5 m e hpc =>
    cases hc
    simp [hpc, hlog]
  case h_6 hpc => cases hc; simpa only [hpc, Core.setReady_emitted] using hlog
  case h_7 hpc => cases hc; simpa only [hpc] using hlog
  case h_8 => cases hc

/-! ## Where the flusher and `shutdown` stand -/

def Finished (s : State T Row) : Prop :=
  s.shutdown = .returned ∨ s.shutdown = .exchangeActive ∧ s.active = false

def Joined (s : State T Row) : Prop :=
  match s.shutdown with
  | .notCalled | .stopRunning | .join => False
  | .exchangeActive => s.active = false
  | _ => True

/-- What the final flush has read and handed out so far. -/
def FinalAt (s : State T Row) : Prop :=
  match s.shutdown with
  | .finalFlush => ∀ e, Core.target s.core.drain = some e → s.finalEnd = some e
  | .loadOverflow m e => s.finalEnd = some e ∧ s.core.written = m ∧ m ≤ e
  | .writeFooter m e ov =>
    s.finalEnd = some e ∧ s.core.written = m ∧ m ≤ e ∧ s.finalOverflow = some ov
  | _ => True

structure ShutdownInv (header bootId : String) (s : State T Row) : Prop where
  up : s.active = true → s.shutdown = .notCalled ∨ s.shutdown = .exchangeActive
  down : s.active = false → s.shutdown ≠ .notCalled
  unclosed : s.shutdown = .exchangeClosed → s.closed = false
  stillOpen : ¬ Joined s → s.closed = false
  joined : Joined s → s.flusher = .exited
  owner : s.core.drain ≠ .out → s.flusher = .flushing ∨ s.shutdown = .finalFlush
  logged : ¬ Finished s → s.file = .header header :: s.core.emitted.map .row ∧ s.sidecar = none
  final : FinalAt s
  finished : Finished s → ∃ e ov, s.finalEnd = some e ∧ s.finalOverflow = some ov ∧
    s.core.written ≤ e ∧
      s.file = .header header :: s.core.emitted.map .row ++
        [.footer [("rows", s.core.written), ("overflow", ov)] (some bootId)] ∧
      s.sidecar = if ov ≠ 0 then some [("overflow", ov)] else none

omit [DecidableEq T] in
theorem Finished.joined (h : Finished s) : Joined s := by
  rcases h with h | ⟨h, hactive⟩
  · simp only [Joined, h]
  · simp only [Joined, h, hactive]

omit [DecidableEq T] in
theorem not_finished (hr : s.shutdown ≠ .returned) (he : s.shutdown ≠ .exchangeActive) :
    ¬ Finished s := by
  rintro (hf | ⟨hf, -⟩)
  · exact hr hf
  · exact he hf

namespace ShutdownInv

omit [DecidableEq T] in
theorem init (memory : Nat → Row) :
    ShutdownInv header bootId (GnbTracer.init header memory : State T Row) := by
  refine ⟨fun _ => .inl rfl, nofun, nofun, fun _ => rfl, fun h => h.elim, fun h => absurd rfl h,
    fun _ => ⟨rfl, rfl⟩, trivial, ?_⟩
  rintro (h | ⟨h, -⟩) <;> cases h

omit [DecidableEq T] in
theorem drain_out (h : ShutdownInv header bootId s) (hj : Joined s)
    (hfinal : s.shutdown ≠ .finalFlush) : s.core.drain = .out := by
  by_contra hne
  rcases h.owner hne with hf | hf
  · rw [h.joined hj] at hf
    cases hf
  · exact hfinal hf

omit [DecidableEq T] in
/-- A move of the other threads. -/
theorem others (h : ShutdownInv header bootId s) (hsame : SameShutdown s s')
    (hjoined : Joined s → s'.flusher = s.flusher ∧ s'.file = s.file ∧
      s'.core.drain = s.core.drain ∧ s'.core.emitted = s.core.emitted ∧
      s'.core.written = s.core.written)
    (howner : s'.core.drain ≠ .out → s'.flusher = .flushing ∨ s'.shutdown = .finalFlush)
    (hlogged : ¬ Finished s → s'.file = .header header :: s'.core.emitted.map .row) :
    ShutdownInv header bootId s' := by
  obtain ⟨hactive, hclosed, hshutdown, hsidecar, hend, hoverflow⟩ := hsame
  have joinedEq : Joined s' = Joined s := by simp only [Joined, hshutdown, hactive]
  have finishedEq : Finished s' = Finished s := by simp only [Finished, hshutdown, hactive]
  refine ⟨?_, ?_, ?_, ?_, fun hj => ?_, howner, fun hn => ?_, ?_, fun hf => ?_⟩
  · rw [hactive, hshutdown]; exact h.up
  · rw [hactive, hshutdown]; exact h.down
  · rw [hclosed, hshutdown]; exact h.unclosed
  · rw [joinedEq, hclosed]; exact h.stillOpen
  · rw [joinedEq] at hj
    exact (hjoined hj).1.trans (h.joined hj)
  · rw [finishedEq] at hn
    exact ⟨hlogged hn, hsidecar.trans (h.logged hn).2⟩
  · have hfinal := h.final
    unfold FinalAt at hfinal ⊢
    rw [hshutdown]
    split at hfinal
    · next hpc =>
      obtain ⟨-, -, hdrain, -⟩ := hjoined (by simp only [Joined, hpc])
      simp only [hdrain, hend]
      exact hfinal
    · next m e hpc =>
      obtain ⟨-, -, -, -, hwritten⟩ := hjoined (by simp only [Joined, hpc])
      rw [hend, hwritten]
      exact hfinal
    · next m e ov hpc =>
      obtain ⟨-, -, -, -, hwritten⟩ := hjoined (by simp only [Joined, hpc])
      rw [hend, hwritten, hoverflow]
      exact hfinal
    · trivial
  · rw [finishedEq] at hf
    obtain ⟨-, hfile, -, hemitted, hwritten⟩ := hjoined hf.joined
    rw [hend, hoverflow, hfile, hsidecar, hemitted, hwritten]
    exact h.finished hf

theorem producers (h : ShutdownInv header bootId s) {a : Act T Row}
    (hstep : s.step cap bootId a = some s')
    (ha : (∃ t r, a = .emit t r) ∨ ∃ t spurious, a = .producer t spurious) :
    ShutdownInv header bootId s' := by
  obtain ⟨hsame, hflusher, hfile, hdrain, hemitted, hwritten⟩ := producers_frame hstep ha
  refine h.others hsame (fun _ => ⟨hflusher, hfile, hdrain, hemitted, hwritten⟩) ?_ (fun hn => ?_)
  · rw [hdrain, hflusher, hsame.shutdown]
    exact h.owner
  · rw [hfile, hemitted]
    exact (h.logged hn).1

theorem flushLoop (h : ShutdownInv header bootId s) (hstep : s.flushLoopStep cap = some s') :
    ShutdownInv header bootId s' := by
  obtain ⟨hrunning, hsame, hmove⟩ := flushLoop_moves hstep
  have notJoined : ¬ Joined s := fun hj => hrunning (h.joined hj)
  have notFinal : s.shutdown ≠ .finalFlush := by
    intro hpc
    exact notJoined (by simp only [Joined, hpc])
  refine h.others hsame (fun hj => absurd hj notJoined) (fun hne => ?_) (fun hn => ?_)
  · rcases hmove with ⟨hcore, -, hout⟩ | ⟨-, -, hflushing⟩ | ⟨hcore, -⟩ | ⟨hpc, hflush⟩
    · rw [hcore] at hne
      rcases h.owner hne with hf | hf
      · exact absurd (hout hf) hne
      · exact absurd hf notFinal
    · exact .inl hflushing
    · rw [hcore] at hne
      exact absurd rfl hne
    · exact .inl ((sameShutdown_of_flushStep hflush).2.trans hpc)
  · have hlog := (h.logged hn).1
    rcases hmove with ⟨hcore, hfile, -⟩ | ⟨hcore, hfile, -⟩ | ⟨hcore, hfile⟩ | ⟨-, hflush⟩
    · rw [hcore, hfile]; exact hlog
    · rw [hcore, hfile]; exact hlog
    · rw [hcore, hfile]; exact hlog
    · exact flushStep_logged hflush hlog

omit [DecidableEq T] in
/-- A move of `shutdown` between its first exchange and the footer. -/
theorem advance (h : ShutdownInv header bootId s) (hnot : ¬ Finished s)
    (hactive : s'.active = false)
    (hpc : s'.shutdown ≠ .notCalled ∧ s'.shutdown ≠ .returned ∧ s'.shutdown ≠ .exchangeActive)
    (hlog : s'.file = s.file ∧ s'.sidecar = s.sidecar ∧ s'.core.emitted = s.core.emitted)
    (hunclosed : s'.shutdown = .exchangeClosed → s'.closed = false)
    (hopen : ¬ Joined s' → s'.closed = false) (hjoined : Joined s' → s'.flusher = .exited)
    (howner : s'.core.drain ≠ .out → s'.flusher = .flushing ∨ s'.shutdown = .finalFlush)
    (hfinal : FinalAt s') : ShutdownInv header bootId s' := by
  refine ⟨fun ha => absurd (hactive.symm.trans ha) (by decide), fun _ => hpc.1, hunclosed, hopen,
    hjoined, howner, fun _ => ?_, hfinal, fun hf => absurd hf (not_finished hpc.2.1 hpc.2.2)⟩
  rw [hlog.1, hlog.2.1, hlog.2.2]
  exact h.logged hnot

theorem shuts (h : ShutdownInv header bootId s) (hcore : Core.Inv cap s.core)
    (hmove : Shuts cap bootId s s') : ShutdownInv header bootId s' := by
  have down (hpc : s.shutdown ≠ .notCalled ∧ s.shutdown ≠ .exchangeActive) : s.active = false := by
    by_contra hc
    rcases h.up (by simpa using hc) with hp | hp
    · exact hpc.1 hp
    · exact hpc.2 hp
  have owner (hpc : s.shutdown ≠ .finalFlush) (hne : s.core.drain ≠ .out) :
      s.flusher = .flushing := (h.owner hne).resolve_right hpc
  have hfinal := h.final
  have hpass := hcore.pass
  cases hmove with
  | again hpc hactive =>
    have hf : Finished s := .inr ⟨hpc, hactive⟩
    have hout := h.drain_out hf.joined (by simp [hpc])
    exact ⟨fun ha => absurd (hactive.symm.trans ha) (by decide), fun _ => nofun, nofun,
      fun hn => absurd trivial hn, fun _ => h.joined hf.joined, fun hne => absurd hout hne,
      fun hn => absurd (.inl rfl) hn, trivial, fun _ => h.finished hf⟩
  | start hpc hactive =>
    have hnot : ¬ Finished s := by
      rintro (hf | ⟨-, hf⟩)
      · rw [hpc] at hf; cases hf
      · rw [hactive] at hf; cases hf
    have hopen := h.stillOpen (by simp [Joined, hpc, hactive])
    exact h.advance hnot rfl ⟨nofun, nofun, nofun⟩ ⟨rfl, rfl, rfl⟩ nofun (fun _ => hopen)
      (fun hj => hj.elim) (fun hne => .inl (owner (by simp [hpc]) hne)) trivial
  | stop hpc =>
    have hnot := not_finished (s := s) (by simp [hpc]) (by simp [hpc])
    have hopen := h.stillOpen (by simp [Joined, hpc])
    exact h.advance hnot (down (by simp [hpc])) ⟨nofun, nofun, nofun⟩ ⟨rfl, rfl, rfl⟩ nofun
      (fun _ => hopen) (fun hj => hj.elim) (fun hne => .inl (owner (by simp [hpc]) hne)) trivial
  | join hpc hexited =>
    have hnot := not_finished (s := s) (by simp [hpc]) (by simp [hpc])
    have hopen := h.stillOpen (by simp [Joined, hpc])
    exact h.advance hnot (down (by simp [hpc])) ⟨nofun, nofun, nofun⟩ ⟨rfl, rfl, rfl⟩
      (fun _ => hopen) (fun _ => hopen) (fun _ => hexited)
      (fun hne => .inl (owner (by simp [hpc]) hne)) trivial
  | closedAlready hpc hclosed =>
    exact absurd (h.unclosed hpc) (by simp [hclosed])
  | close hpc hopen hdrain =>
    have hnot := not_finished (s := s) (by simp [hpc]) (by simp [hpc])
    exact h.advance hnot (down (by simp [hpc])) ⟨nofun, nofun, nofun⟩ ⟨rfl, rfl, rfl⟩ nofun
      (fun hn => absurd trivial hn) (fun _ => h.joined (by simp only [Joined, hpc]))
      (fun _ => .inr rfl) (fun _ => nofun)
  | finalRead m hpc hdrain =>
    have hnot := not_finished (s := s) (by simp [hpc]) (by simp [hpc])
    exact ⟨h.up, h.down, h.unclosed, h.stillOpen, h.joined, fun _ => .inr hpc,
      fun _ => h.logged hnot, by simp [FinalAt, hpc, Core.target], fun hf => absurd hf hnot⟩
  | finalPass s' hpc hdrain hflush =>
    have hnot := not_finished (s := s) (by simp [hpc]) (by simp [hpc])
    obtain ⟨hsame, hflusher⟩ := sameShutdown_of_flushStep hflush
    obtain ⟨hc, he⟩ := flushStep_eq hflush
    have hread : FinalAt s' := by
      simp only [FinalAt, hpc] at hfinal
      simp only [FinalAt, hsame.shutdown, hpc, hsame.finalEnd, Core.pass_target hc hdrain.1]
      exact hfinal
    have hlog := flushStep_logged hflush (h.logged hnot).1
    rw [he] at hread ⊢
    exact ⟨h.up, h.down, h.unclosed, h.stillOpen, h.joined, fun _ => .inr hpc,
      fun _ => ⟨hlog, (h.logged hnot).2⟩, hread, fun hf => absurd hf hnot⟩
  | finalEnd m e hpc hdrain =>
    have hnot := not_finished (s := s) (by simp [hpc]) (by simp [hpc])
    simp only [FinalAt, hpc, hdrain] at hfinal
    rw [hdrain] at hpass
    exact h.advance hnot (down (by simp [hpc])) ⟨nofun, nofun, nofun⟩ ⟨rfl, rfl, rfl⟩ nofun
      (fun hn => absurd trivial hn) (fun _ => h.joined (by simp only [Joined, hpc]))
      (fun hne => absurd rfl hne) ⟨hfinal e rfl, hpass.1, hpass.2.2.1⟩
  | loadOverflow m e hpc =>
    have hnot := not_finished (s := s) (by simp [hpc]) (by simp [hpc])
    have hj : Joined s := by simp only [Joined, hpc]
    have hout := h.drain_out hj (by simp [hpc])
    simp only [FinalAt, hpc] at hfinal
    exact h.advance hnot (down (by simp [hpc])) ⟨nofun, nofun, nofun⟩ ⟨rfl, rfl, rfl⟩ nofun
      (fun hn => absurd trivial hn) (fun _ => h.joined hj) (fun hne => absurd hout hne)
      ⟨hfinal.1, hfinal.2.1, hfinal.2.2, rfl⟩
  | writeFooter m e ov hpc =>
    have hactive := down (by simp [hpc])
    have hj : Joined s := by simp only [Joined, hpc]
    have hout := h.drain_out hj (by simp [hpc])
    obtain ⟨hfile, hside⟩ := h.logged (not_finished (by simp [hpc]) (by simp [hpc]))
    simp only [FinalAt, hpc] at hfinal
    obtain ⟨hend, hwritten, hme, hov⟩ := hfinal
    refine ⟨fun ha => absurd (hactive.symm.trans ha) (by decide), fun _ => nofun, nofun,
      fun hn => absurd trivial hn, fun _ => h.joined hj, fun hne => absurd hout hne,
      fun hn => absurd (.inl rfl) hn, trivial, fun _ => ⟨e, ov, hend, hov, ?_, ?_, ?_⟩⟩
    · exact hwritten.trans_le hme
    · rw [hfile]
    · rw [hside]

theorem step (h : ShutdownInv header bootId s) (hcore : Core.Inv cap s.core) {a : Act T Row}
    (hstep : s.step cap bootId a = some s') : ShutdownInv header bootId s' := by
  cases a with
  | emit t r => exact h.producers hstep (.inl ⟨t, r, rfl⟩)
  | producer t spurious => exact h.producers hstep (.inr ⟨t, spurious, rfl⟩)
  | flusher => exact h.flushLoop hstep
  | shutdown => exact h.shuts hcore (shuts_of_shutdownStep hstep)
  | callShutdown =>
    simp only [State.step] at hstep
    split at hstep
    · next hpc =>
      cases hstep
      have hback (ha : s.active = false) : s.shutdown = .returned :=
        hpc.resolve_left (h.down ha)
      have hfirst (ha : s.active ≠ false) : s.shutdown = .notCalled := by
        refine hpc.resolve_right (fun hr => ?_)
        rcases h.up (by simpa using ha) with hp | hp <;> (rw [hp] at hr; cases hr)
      refine ⟨fun _ => .inr rfl, fun _ => by simp, by simp, fun hn => ?_, fun hj => ?_, fun hne => ?_,
        fun hn => ?_, trivial, ?_⟩
      · exact h.stillOpen (by simp only [Joined, hfirst hn, not_false_eq_true])
      · exact h.joined (by simp only [Joined, hback hj])
      · rcases h.owner hne with hf | hf
        · exact .inl hf
        · rcases hpc with hpc | hpc <;> (rw [hpc] at hf; cases hf)
      · have hnone := hfirst (fun ha => hn (.inr ⟨rfl, ha⟩))
        exact h.logged (not_finished (by simp [hnone]) (by simp [hnone]))
      · rintro (hf | ⟨-, ha⟩)
        · cases hf
        · exact h.finished (.inl (hback ha))
    · cases hstep

end ShutdownInv

/-! ## Where rows are lost -/

/-- The final flush has stopped short of the `claimed` it read. -/
def Lossy (s : State T Row) : Prop :=
  match s.shutdown with
  | .finalFlush => Core.Short s.core.drain
  | .loadOverflow m e | .writeFooter m e _ => m ≠ e
  | .returned => s.finalEnd ≠ some s.core.written
  | .exchangeActive => s.active = false ∧ s.finalEnd ≠ some s.core.written
  | _ => False

/-- Every slot the final flush tests below the `claimed` it read has been
published. -/
def Published (cap : Capacity) (s : State T Row) : Act T Row → Prop
  | .shutdown => s.shutdown = .finalFlush → Core.TestsReady cap s.core
  | _ => True

instance (a : Act T Row) : Decidable (Published cap s a) :=
  match a with
  | .shutdown => inferInstanceAs (Decidable (_ → _))
  | .emit _ _ | .producer _ _ | .flusher | .callShutdown => isTrue trivial

omit [DecidableEq T] in
theorem Lossy.joined (h : Lossy s) : Joined s := by
  unfold Lossy at h
  unfold Joined
  split at h
  case h_5 hpc => simpa only [hpc] using h.1
  case h_6 => exact h.elim
  all_goals next hpc => simp only [hpc]

omit [DecidableEq T] in
theorem lossy_congr (hsame : SameShutdown s s') (hdrain : s'.core.drain = s.core.drain)
    (hwritten : s'.core.written = s.core.written) : Lossy s' ↔ Lossy s := by
  unfold Lossy
  rw [hsame.shutdown, hsame.active, hsame.finalEnd, hdrain, hwritten]

theorem lossy_shuts (h : ShutdownInv header bootId s) (hmove : Shuts cap bootId s s') :
    Lossy s' ↔ Lossy s ∨ ¬ Published cap s .shutdown := by
  have hfinal := h.final
  cases hmove with
  | again hpc hactive => simp [Lossy, Published, hpc, hactive]
  | start hpc hactive => simp [Lossy, Published, hpc, hactive]
  | stop hpc => simp [Lossy, Published, hpc]
  | join hpc => simp [Lossy, Published, hpc]
  | closedAlready hpc hclosed => exact absurd (h.unclosed hpc) (by simp [hclosed])
  | close hpc => simp [Lossy, Published, hpc, Core.Short]
  | finalRead m hpc hdrain => simp [Lossy, Published, hpc, hdrain, Core.Short, Core.TestsReady]
  | finalEnd m e hpc hdrain => simp [Lossy, Published, hpc, hdrain, Core.Short, Core.TestsReady]
  | loadOverflow m e hpc => simp [Lossy, Published, hpc]
  | writeFooter m e ov hpc =>
    simp only [FinalAt, hpc] at hfinal
    obtain ⟨hend, hwritten, -⟩ := hfinal
    simp only [Lossy, Published, hpc, hend, hwritten, ne_eq, Option.some.injEq, reduceCtorEq,
      false_implies, not_true, or_false]
    exact not_congr eq_comm
  | finalPass s' hpc hdrain hflush =>
    obtain ⟨hsame, -⟩ := sameShutdown_of_flushStep hflush
    obtain ⟨hc, -⟩ := flushStep_eq hflush
    simp only [Lossy, Published, hsame.shutdown, hpc, Core.pass_short hc, true_implies]

theorem lossy_step (h : ShutdownInv header bootId s) {a : Act T Row}
    (hstep : s.step cap bootId a = some s') : Lossy s' ↔ Lossy s ∨ ¬ Published cap s a := by
  cases a with
  | emit t r =>
    obtain ⟨hsame, -, -, hdrain, -, hwritten⟩ := producers_frame hstep (.inl ⟨t, r, rfl⟩)
    simp [lossy_congr hsame hdrain hwritten, Published]
  | producer t spurious =>
    obtain ⟨hsame, -, -, hdrain, -, hwritten⟩ :=
      producers_frame hstep (.inr ⟨t, spurious, rfl⟩)
    simp [lossy_congr hsame hdrain hwritten, Published]
  | flusher =>
    obtain ⟨hrunning, hsame, -⟩ := flushLoop_moves hstep
    have notJoined : ¬ Joined s := fun hj => hrunning (h.joined hj)
    have notJoined' : ¬ Joined s' := by
      simpa only [Joined, hsame.shutdown, hsame.active] using notJoined
    have hs : ¬ Lossy s := fun hl => notJoined hl.joined
    have hs' : ¬ Lossy s' := fun hl => notJoined' hl.joined
    simp [hs, hs', Published]
  | shutdown => exact lossy_shuts h (shuts_of_shutdownStep hstep)
  | callShutdown =>
    simp only [State.step] at hstep
    split at hstep
    · next hpc =>
      cases hstep
      rcases hpc with hpc | hpc
      · have hactive : s.active = true := by
          by_contra hc
          exact h.down (by simpa using hc) hpc
        simp [Lossy, Published, hpc, hactive]
      · have hactive : s.active = false := by
          by_contra hc
          rcases h.up (by simpa using hc) with hp | hp <;> (rw [hp] at hpc; cases hpc)
        simp [Lossy, Published, hpc, hactive]
    · cases hstep

variable {cfg : Config} {memory : Nat → Row} {past : List (State T Row)}

theorem shutdownInv_of_reachable
    (h : (machine (T := T) cfg header bootId memory).Reachable s) :
    ShutdownInv header bootId s := by
  obtain ⟨past, hrun⟩ := h
  induction hrun with
  | start => exact .init memory
  | next hrun _ hs ih => exact ih.step (core_inv ⟨_, hrun⟩) hs

/-- A run meets `Published` at each of its steps exactly when it does not end in
a lossy state. -/
theorem run_published_iff
    (h : (machine (T := T) cfg header bootId memory).Run (fun _ _ => True) s past) :
    (machine cfg header bootId memory).Run (Published cfg.cap) s past ↔ ¬ Lossy s := by
  induction h with
  | start =>
    refine ⟨fun _ hl => hl.elim, fun _ => .start⟩
  | @next s s' past a hrun _ hs ih =>
    have hinv := shutdownInv_of_reachable ⟨_, hrun⟩
    constructor
    · intro hp
      cases hp with
      | @next _ _ _ b hp hb hs' =>
        rw [lossy_step hinv hs']
        rintro (hl | hl)
        · exact ih.mp hp hl
        · exact hl hb
    · intro hl
      rw [lossy_step hinv hs, not_or, not_not] at hl
      exact .next (ih.mpr hl.1) hl.2 hs

/-! ## The accounting -/

def losses (counts : List (String × Nat)) : Nat :=
  ((counts.filter (fun x => x.1 ≠ "rows")).map Prod.snd).sum

/-- The file's row lines are the first rows claimed, each once and in order, and
their number is the footer's `rows`.  The other counts of the footer or of the
sidecar cover the rows refused and the rows claimed before the final flush read
`claimed` that are in no line. -/
def NoSilentLoss (header : String) (s : State T Row) : Prop :=
  ∃ rows counts clockDomain e ov, s.finalEnd = some e ∧ s.finalOverflow = some ov ∧
    s.file = .header header :: rows.map .row ++ [.footer counts clockDomain] ∧
    rows = (s.core.accepted.map Prod.snd).take rows.length ∧ ("rows", rows.length) ∈ counts ∧
    (e - rows.length + ov ≤ losses counts ∨
      ∃ side, s.sidecar = some side ∧ e - rows.length + ov ≤ losses side)

/-- What `shutdown` leaves behind, whatever the producers are doing. -/
theorem file_of_returned
    (h : (machine (T := T) cfg header bootId memory).Reachable s)
    (hpc : s.shutdown = .returned) :
    ∃ e ov, s.finalEnd = some e ∧ s.finalOverflow = some ov ∧ s.core.written ≤ e ∧
      s.file = .header header :: s.core.emitted.map .row ++
        [.footer [("rows", s.core.emitted.length), ("overflow", ov)] (some bootId)] ∧
      (s.sidecar = if ov ≠ 0 then some [("overflow", ov)] else none) ∧
      s.core.emitted.length = s.core.written ∧
      s.core.emitted = (s.core.accepted.map Prod.snd).take s.core.emitted.length := by
  have hcore := core_inv h
  have hinv := shutdownInv_of_reachable h
  have hfin : Finished s := .inl hpc
  obtain ⟨e, ov, hend, hov, hle, hfile, hside⟩ := hinv.finished hfin
  have hout := hinv.drain_out hfin.joined (by simp [hpc])
  have hlen : s.core.emitted.length = s.core.written := by
    rw [hcore.emitted_length, Core.formatted, hout]
  refine ⟨e, ov, hend, hov, hle, ?_, hside, hlen, hcore.output⟩
  rw [hlen]
  exact hfile

theorem noSilentLoss_iff
    (h : (machine (T := T) cfg header bootId memory).Reachable s)
    (hpc : s.shutdown = .returned) : NoSilentLoss header s ↔ ¬ Lossy s := by
  obtain ⟨e, ov, hend, hov, hle, hfile, hside, hlen, hout⟩ := file_of_returned h hpc
  have hlossy : ¬ Lossy s ↔ e = s.core.written := by
    simp [Lossy, hpc, hend]
  rw [hlossy]
  constructor
  · rintro ⟨rows, counts, clockDomain, e', ov', hend', hov', hfile', -, -, hcount⟩
    obtain rfl : e = e' := Option.some.inj (hend.symm.trans hend')
    obtain rfl : ov = ov' := Option.some.inj (hov.symm.trans hov')
    rw [hfile] at hfile'
    obtain ⟨hrows, hfooter⟩ := List.append_inj' hfile' rfl
    have hrowsLen : rows.length = s.core.written := by
      have := congrArg List.length hrows
      simp only [List.length_cons, List.length_map] at this
      omega
    simp only [List.cons.injEq, TraceLine.footer.injEq, and_true] at hfooter
    have hlosses : losses counts = ov := by
      rw [← hfooter.1]
      simp [losses]
    have hsides : ∀ side, s.sidecar = some side → losses side ≤ ov := by
      intro side hs
      rw [hside] at hs
      split at hs
      · cases hs
        simp [losses]
      · cases hs
    rcases hcount with hc | ⟨side, hs, hc⟩
    · omega
    · have := hsides side hs
      omega
  · rintro rfl
    refine ⟨s.core.emitted, _, _, _, ov, hend, hov, hfile, hout, by simp, .inl ?_⟩
    simp [losses, hlen]

/-- After `shutdown` every row claimed before the final read is in the file or
counted exactly when the final flush met no unpublished slot. -/
theorem shutdown_accounts
    (h : (machine (T := T) cfg header bootId memory).Run (fun _ _ => True) s past)
    (hpc : s.shutdown = .returned) :
    NoSilentLoss header s ↔
      (machine cfg header bootId memory).Run (Published cfg.cap) s past := by
  rw [noSilentLoss_iff ⟨_, h⟩ hpc, run_published_iff h]

/-- One row written and published, then `shutdown`. -/
def shutdownAfterOne : List (Act Bool Nat) :=
  .emit false 7 :: List.replicate 7 (.producer false false) ++
    .callShutdown :: List.replicate 2 .shutdown ++ .flusher :: List.replicate 12 .shutdown

theorem shutdown_accounts_shutdownAfterOne :
    ∃ s : State Bool Nat, s.file = [.header "h", .row 7,
      .footer [("rows", 1), ("overflow", 0)] (some "b")] ∧ NoSilentLoss "h" s := by
  obtain ⟨s, ⟨past, hrun⟩, hpc, hfile⟩ := Machine.exists_of_execBy shutdownAfterOne
    (m := machine ⟨2, by decide⟩ "h" "b" (fun _ => 0))
    (G := Published (Config.cap ⟨2, by decide⟩))
    (P := fun s => s.shutdown = .returned ∧ s.file = [.header "h", .row 7,
      .footer [("rows", 1), ("overflow", 0)] (some "b")]) (by decide +kernel)
  exact ⟨s, hfile, (shutdown_accounts (hrun.mono fun _ _ _ => trivial) hpc).mpr hrun⟩

/-- A writer that has claimed its slot and not yet filled it, then `shutdown`. -/
def shutdownDuringWrite : List (Act Bool Nat) :=
  .emit false 7 :: List.replicate 5 (.producer false false) ++
    .callShutdown :: List.replicate 2 .shutdown ++ .flusher :: List.replicate 9 .shutdown

/-- The claimed row is in no line and in no count. -/
theorem shutdownDuringWrite_silent :
    ¬ ∀ s : State Bool Nat,
      (machine ⟨2, by decide⟩ "h" "b" (fun _ => (0 : Nat))).Reachable s →
        s.shutdown = .returned → NoSilentLoss "h" s := by
  intro hall
  obtain ⟨s, hs, hpc, hend, hwritten⟩ := Machine.exists_of_execBy shutdownDuringWrite
    (m := machine ⟨2, by decide⟩ "h" "b" (fun _ => 0)) (G := fun _ _ => True)
    (P := fun s => s.shutdown = .returned ∧ s.finalEnd = some 1 ∧ s.core.written = 0)
    (by decide +kernel)
  have hlossy : Lossy s := by simp [Lossy, hpc, hend, hwritten]
  exact (noSilentLoss_iff hs hpc).mp (hall s hs hpc) hlossy

end GnbTracer
end P5G
