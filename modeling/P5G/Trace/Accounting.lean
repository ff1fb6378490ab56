import P5G.Trace.Consumers
import Mathlib.Data.Fintype.Basic

/-!
# What the trace ring leaves in its file

If every `Write` has returned before `Close` starts, `Close` leaves a file with
exactly the rows that were not counted as overflow, in the order of their
sequence numbers.  Once no producer is inside, every claimed slot is published,
so the last pass reaches the `claimed` it read.
-/

namespace P5G

namespace SlotRing
namespace Core

variable {T Row : Type*} [DecidableEq T] {cap : Capacity} {s c : Core T Row}

/-- A pass over a ring without writers: it looks up to `claimed` and stops
there. -/
def PassesAll (s : Core T Row) : DrainPc → Prop
  | .out | .loadConsumed | .loadClaimed _ => True
  | .test _ e | .format _ e | .clear _ e => e = s.claimed
  | .store m e | .ended m e => m = e ∧ e = s.claimed

theorem Inv.passesAll (h : Inv cap s) (hout : ∀ t, s.writers t = .out) {final : Bool}
    (hall : PassesAll s s.drain) (hstep : s.step cap (.pass final) = some c) :
    PassesAll c c.drain := by
  have hpass := h.pass
  simp only [step, passStep] at hstep
  split at hstep
  case h_1 => cases hstep
  case h_2 => cases hstep; trivial
  case h_3 m hpc => split at hstep <;> cases hstep <;> trivial
  case h_4 m e hpc =>
    rw [hpc] at hall hpass
    split at hstep
    · cases hstep
      exact hall
    · next hstop =>
      cases hstep
      refine ⟨?_, hall⟩
      by_contra hne
      obtain ⟨hm, hme, hec⟩ := hpass
      have hready : (s.slots (cap.index m)).ready = false := by
        by_contra hr
        exact hstop ⟨hne, by simpa using hr⟩
      -- an unpublished number would be held by a writer
      obtain ⟨t, r, ht⟩ := h.unready m (by omega) (by omega) hready
      rw [hout t] at ht
      cases ht
  case h_5 m e hpc => rw [hpc] at hall; cases hstep; exact hall
  case h_6 m e hpc => rw [hpc] at hall; cases hstep; exact hall
  case h_7 m e hpc => rw [hpc] at hall; cases hstep; exact hall
  case h_8 => cases hstep

omit [DecidableEq T] in
/-- No other row that still waits for the drainer lies in the slot a writer is
about to fill, and the slot is not marked ready. -/
theorem Inv.copy_free (h : Inv cap s) {t : T} {r : Row} {i : Nat}
    (hpc : s.writers t = .copy r i) :
    (s.slots (cap.index i)).ready = false ∧
      ∀ k, k < s.claimed → k ≠ i → cap.index k = cap.index i → k < s.consumed := by
  obtain ⟨hi, hi', -, hready⟩ := h.owns t i r (by rw [hpc]; rfl)
  refine ⟨hready, fun k hk hne hidx => ?_⟩
  have hcw := h.consumed_le
  have hcl := h.claimed_le
  by_contra hlt
  exact hne (cap.index_inj (b := s.consumed) (by omega) (by omega) (by omega) (by omega) hidx)

end Core
end SlotRing

namespace TraceRing

open SlotRing

variable {T Row : Type*} [DecidableEq T] {s s' : State T Row} {cfg : Config}
  {bootId header : String} {memory : Nat → Row}

/-- `Close` starts only when no `Write` is under way, and no `Write` starts
after that. -/
def Quiet (s : State T Row) : Act T Row → Prop
  | .write _ _ => s.closer = .notCalled
  | .close => ∀ t, s.calls t = .idle
  | _ => True

instance [Fintype T] [DecidableEq Row] (s : State T Row) (a : Act T Row) :
    Decidable (Quiet s a) := by
  cases a <;> unfold Quiet <;> infer_instance

def quietFooter (bootId : String) (s : State T Row) : List (TraceLine Row) :=
  State.footer bootId s.core.accepted.length s.overflow 0 0

def ReadSoFar (s : State T Row) : CloserPc → Prop
  | .finalFlush => Core.PassesAll s.core s.core.drain
  | .loadOverflow m e => m = e
  | .loadLate m e ov => m = e ∧ ov = s.overflow
  | .writeFooter m e ov lt => m = e ∧ ov = s.overflow ∧ lt = 0
  | _ => True

structure QuietInv (header bootId : String) (s : State T Row) : Prop where
  idle : s.closer ≠ .notCalled → ∀ t, s.calls t = .idle
  noLate : s.lateRows = [] ∧ ∀ t r, s.calls t ≠ .countLate r
  read : ReadSoFar s s.closer
  drained : Drained s → s.core.consumed = s.core.claimed
  finished : Finished s →
    s.file = .header header :: s.core.emitted.map .row ++ quietFooter bootId s ∧
      s.sidecar = if s.overflow ≠ 0 then
        some [("overflow", s.overflow), ("late", 0), ("unpublished", 0)] else none

namespace QuietInv

omit [DecidableEq T] in
theorem init (memory : Nat → Row) :
    QuietInv header bootId (TraceRing.init header memory : State T Row) := by
  refine ⟨fun h => absurd rfl h, ⟨rfl, fun _ _ => by simp [TraceRing.init]⟩, trivial, fun h => h.elim, ?_⟩
  rintro (h | ⟨h, -⟩) <;> cases h

omit [DecidableEq T] in
/-- Nothing more is asked before `Close` is called. -/
theorem early (hpc : s.closer = .notCalled) (hlate : s.lateRows = [])
    (hcalls : ∀ t r, s.calls t ≠ .countLate r) : QuietInv header bootId s := by
  refine ⟨fun h => absurd hpc h, ⟨hlate, hcalls⟩, ?_, ?_, ?_⟩
  · rw [hpc]; trivial
  · intro h
    simp only [Drained, hpc] at h
  · rintro (h | ⟨h, -⟩) <;> (rw [hpc] at h; cases h)

theorem write (h : QuietInv header bootId s) {t : T} {r : Row} (hpc : s.closer = .notCalled) :
    QuietInv header bootId { s.setCall t (.loadClosed r) with begun := s.begun ++ [(t, r)] } := by
  refine early hpc h.noLate.1 (fun u q hu => ?_)
  by_cases hut : u = t
  · subst hut
    exact absurd (setCall_self.symm.trans hu) (by simp)
  · exact h.noLate.2 u q ((setCall_other u hut).symm.trans hu)

theorem producer (h : QuietInv header bootId s) (hcons : ConsumersInv header s) {t : T}
    {spurious : Bool} (hstep : s.producerStep cfg.cap t spurious = some s') :
    QuietInv header bootId s' := by
  have hpc : s.closer = .notCalled := by
    by_contra hne
    simp only [State.producerStep, h.idle hne t] at hstep
    cases hstep
  have hact : s.step cfg.cap bootId (.producer t spurious) = some s' := hstep
  have hframe := producers_frame hact (.inr ⟨t, spurious, rfl⟩)
  have hcloser : s'.closer = .notCalled := hframe.2.2.2.2.1.trans hpc
  have hopen : s.closed = false := by
    by_contra hc
    exact hcons.shut (by simpa using hc) hpc
  have other {pc : CallPc Row} (hne : ∀ r, pc ≠ .countLate r) (u : T) (q : Row) :
      (s.setCall t pc).calls u ≠ .countLate q := by
    by_cases hut : u = t
    · subst hut
      rw [setCall_self]
      exact hne q
    · rw [setCall_other u hut]
      exact h.noLate.2 u q
  simp only [State.producerStep] at hstep
  split at hstep
  · cases hstep
  · rw [hopen] at hstep
    obtain ⟨c, hc, rfl⟩ := Option.map_eq_some_iff.mp hstep
    exact early hcloser h.noLate.1 (other (by simp))
  · next r hr => exact absurd hr (h.noLate.2 t r)
  · obtain ⟨c, hc, rfl⟩ := Option.map_eq_some_iff.mp hstep
    split at hcloser
    · exact early hcloser h.noLate.1 (other (by simp))
    · exact early hcloser h.noLate.1 (other (by simp))
    · exact early hcloser h.noLate.1 h.noLate.2

omit [DecidableEq T] in
/-- A consumer's move leaves the calls, so only what `Close` reads is left to
show. -/
theorem consumer (h : QuietInv header bootId s) (hsame : SameCalls s s')
    (hcalled : s'.closer ≠ .notCalled → s.closer ≠ .notCalled) (hread : ReadSoFar s' s'.closer)
    (hdrained : Drained s' → s'.core.consumed = s'.core.claimed)
    (hfinished : Finished s' →
      s'.file = .header header :: s'.core.emitted.map .row ++ quietFooter bootId s' ∧
        s'.sidecar = if s'.overflow ≠ 0 then
          some [("overflow", s'.overflow), ("late", 0), ("unpublished", 0)] else none) :
    QuietInv header bootId s' := by
  refine ⟨fun hne t => ?_, ⟨hsame.lateRows.trans h.noLate.1, fun t r => ?_⟩, hread, hdrained,
    hfinished⟩
  · rw [hsame.calls]
    exact h.idle (hcalled hne) t
  · rw [hsame.calls]
    exact h.noLate.2 t r

theorem flusher (h : QuietInv header bootId s) (hcons : ConsumersInv header s)
    (hstep : s.flusherStep cfg.cap = some s') : QuietInv header bootId s' := by
  have hnot : ¬ (s.closer.Joined ∨ Drained s) := by
    intro hj
    simp only [State.flusherStep, hcons.joined hj] at hstep
    cases hstep
  obtain ⟨hcloser, hclosed⟩ : s'.closer = s.closer ∧ s'.closed = s.closed := by
    simp only [State.flusherStep] at hstep
    split at hstep
    · cases hstep
      exact ⟨rfl, rfl⟩
    · obtain ⟨c, hc, rfl⟩ := Option.map_eq_some_iff.mp hstep
      exact ⟨rfl, rfl⟩
    · split at hstep
      · cases hstep
        exact ⟨rfl, rfl⟩
      · obtain ⟨c, hc, rfl⟩ := Option.map_eq_some_iff.mp hstep
        exact ⟨rfl, rfl⟩
      · rw [(passStep_eq hstep).2]
        exact ⟨rfl, rfl⟩
    · cases hstep
  have hdrained : ¬ Drained s' := by
    simp only [Drained, hcloser, hclosed]
    exact fun hd => hnot (.inr hd)
  refine h.consumer (sameCalls_flusherStep hstep) (fun hne => hcloser ▸ hne) ?_
    (fun hd => absurd hd hdrained) (fun hf => absurd hf.drained hdrained)
  rw [hcloser]
  cases hpc : s.closer <;> try trivial
  all_goals exact absurd (.inl (by rw [hpc]; trivial)) hnot

theorem closes (h : QuietInv header bootId s) (hcore : Core.Inv cfg.cap s.core)
    (hprod : s.late = s.lateRows.length) (hcalm : ∀ t, s.calls t = .idle → s.core.writers t = .out)
    (hcons : ConsumersInv header s) (hmove : Closes cfg.cap bootId s s') :
    QuietInv header bootId s' := by
  have hsame := sameCalls_closes hmove
  have hread := h.read
  have notFinished {x : State T Row} (hr : x.closer ≠ .returned) (he : x.closer ≠ .exchange) :
      ¬ Finished x := by
    rintro (hf | ⟨hf, -⟩)
    · exact hr hf
    · exact he hf
  cases hmove with
  | again hpc hclosed =>
    exact h.consumer hsame (by simp [hpc]) trivial
      (fun _ => h.drained (by simp only [Drained, hpc, hclosed]))
      (fun _ => h.finished (.inr ⟨hpc, hclosed⟩))
  | shut hpc | stop hpc | join hpc | load i hpc | loopEmpty i hpc | loopEnd i m e hpc
  | retry i c hpc =>
    exact h.consumer hsame (by simp [hpc]) trivial (fun hd => hd.elim)
      (fun hf => absurd hf (notFinished (by simp) (by simp)))
  | giveUp i hpc | last i c hpc =>
    exact h.consumer hsame (by simp [hpc]) trivial (fun hd => hd.elim)
      (fun hf => absurd hf (notFinished (by simp) (by simp)))
  | loopPass i s' hpc hpass =>
    obtain ⟨-, he⟩ := passStep_eq hpass
    have hcloser : s'.closer = .loopFlush i := by rw [he]; exact hpc
    refine h.consumer hsame (by simp [hpc]) (by rw [hcloser]; trivial) (fun hd => ?_)
      (fun hf => absurd hf (notFinished (by simp [hcloser]) (by simp [hcloser])))
    simp only [Drained, hcloser] at hd
  | finalEnd m e hpc hdrain =>
    rw [hpc] at hread
    simp only [ReadSoFar, hdrain] at hread
    obtain ⟨hme, he⟩ := hread
    have hpass := hcore.pass
    rw [hdrain] at hpass
    refine h.consumer hsame (by simp [hpc]) hme (fun _ => ?_)
      (fun hf => absurd hf (notFinished (by simp) (by simp)))
    exact hpass.2.1.trans (hme.trans he)
  | finalPass s' hpc hpass =>
    obtain ⟨hc, he⟩ := passStep_eq hpass
    have hcloser : s'.closer = .finalFlush := by rw [he]; exact hpc
    have hout (t : T) : s.core.writers t = .out := hcalm t (h.idle (by simp [hpc]) t)
    rw [hpc] at hread
    refine h.consumer hsame (by simp [hpc]) ?_ (fun hd => ?_)
      (fun hf => absurd hf (notFinished (by simp [hcloser]) (by simp [hcloser])))
    · rw [hcloser]
      exact hcore.passesAll hout hread hc
    · simp only [Drained, hcloser] at hd
  | loadOverflow m e hpc =>
    rw [hpc] at hread
    exact h.consumer hsame (by simp [hpc]) ⟨hread, rfl⟩
      (fun _ => h.drained (by simp only [Drained, hpc]))
      (fun hf => absurd hf (notFinished (by simp) (by simp)))
  | loadLate m e ov hpc =>
    rw [hpc] at hread
    refine h.consumer hsame (by simp [hpc]) ⟨hread.1, hread.2, ?_⟩
      (fun _ => h.drained (by simp only [Drained, hpc]))
      (fun hf => absurd hf (notFinished (by simp) (by simp)))
    rw [hprod, h.noLate.1]
    rfl
  | writeFooter m e ov lt hpc =>
    rw [hpc] at hread
    obtain ⟨hme, hov, hlt⟩ := hread
    have hd : Drained s := by simp only [Drained, hpc]
    obtain ⟨hfile, hside⟩ := hcons.logged (notFinished (by simp [hpc]) (by simp [hpc]))
    have hwritten : s.core.written = s.core.accepted.length := by
      have hpass := hcore.pass
      rw [hcons.drain_out (.inr hd) (by simp [hpc]) (by simp [hpc])] at hpass
      rw [hcore.accepted_length, ← h.drained hd]
      exact hpass
    refine h.consumer hsame (by simp [hpc]) trivial (fun _ => h.drained hd) (fun _ => ⟨?_, ?_⟩)
    · rw [hme, hov, hlt, Nat.sub_self, hfile, hwritten]
      rfl
    · rw [hme, hov, hlt, Nat.sub_self, hside]
      simp

theorem step (h : QuietInv header bootId s) (hcore : Core.Inv cfg.cap s.core)
    (hlate : s.late = s.lateRows.length) (hcalm : ∀ t, s.calls t = .idle → s.core.writers t = .out)
    (hcons : ConsumersInv header s) {a : Act T Row} (hok : Quiet s a)
    (hstep : s.step cfg.cap bootId a = some s') : QuietInv header bootId s' := by
  cases a with
  | write t r =>
    simp only [State.step] at hstep
    split at hstep <;> cases hstep
    exact h.write hok
  | producer t spurious => exact h.producer hcons hstep
  | flusher => exact h.flusher hcons hstep
  | closer => exact h.closes hcore hlate hcalm hcons (closes_of_closerStep hstep)
  | close =>
    simp only [State.step] at hstep
    split at hstep
    · next hpc =>
      cases hstep
      refine ⟨fun _ => hok, h.noLate, trivial, fun hd => ?_, fun hf => ?_⟩
      · rcases hpc with hpc | hpc
        · exact absurd hpc (hcons.shut hd)
        · exact h.drained (by simp only [Drained, hpc])
      · rcases hf with hf | ⟨-, hclosed⟩
        · cases hf
        · rcases hpc with hpc | hpc
          · exact absurd hpc (hcons.shut hclosed)
          · exact h.finished (.inl hpc)
    · cases hstep

end QuietInv

theorem producersInv_of_reachable [DecidableEq Row]
    (h : (machine (T := T) cfg header bootId memory).Reachable s) : ProducersInv s :=
  h.invariant (producersInv_init header memory) (fun _ _ _ hi hs => hi.step hs)

theorem consumersInv_of_reachable
    (h : (machine (T := T) cfg header bootId memory).Reachable s) : ConsumersInv header s :=
  h.invariant (consumersInv_init memory) (fun _ _ _ hi hs => hi.step hs)

theorem quietInv_of_reachable
    (h : (machine (T := T) cfg header bootId memory).ReachableBy Quiet s) :
    QuietInv header bootId s := by
  classical
  obtain ⟨past, hrun⟩ := h
  induction hrun with
  | start => exact .init memory
  | @next s s' past a hrun hok hs ih =>
    have hreach := (hrun.reachableBy).reachable
    have hprod := producersInv_of_reachable hreach
    exact ih.step (core_inv hreach) hprod.late_eq
      (fun t ht => hprod.out_of_ne (by simp [ht])) (consumersInv_of_reachable hreach)
      hok hs

/-- No other row still waiting for the flusher lies in a slot that a producer is
about to fill. -/
def NoOverwrite (cap : Capacity) (s : State T Row) : Prop :=
  ∀ t r i, s.core.writers t = .copy r i →
    (s.core.slots (cap.index i)).ready = false ∧
      ∀ k, k < s.core.claimed → k ≠ i → cap.index k = cap.index i → k < s.core.consumed

/-- What the file and the counters say once `Close` has returned. -/
structure Accounted (header bootId : String) (s : State T Row) : Prop where
  file : s.file = .header header :: s.core.accepted.map (fun x => .row x.2) ++
    quietFooter bootId s
  outcome : s.begun.Perm (s.core.accepted ++ s.dropped)
  overflow : s.overflow = s.dropped.length
  total : s.core.accepted.length + s.overflow = s.begun.length
  late : s.late = 0

/-- With every `Write` done before `Close`, the ring stays within its capacity,
no producer writes over a waiting row, and the closed file is the accepted rows
in the order of their claims, all other calls being counted as overflow. -/
theorem quiet_accounting
    (h : (machine (T := T) cfg header bootId memory).ReachableBy Quiet s) :
    s.core.consumed ≤ s.core.claimed ∧ s.core.claimed ≤ s.core.consumed + cfg.cap.val ∧
      NoOverwrite cfg.cap s ∧ (s.closer = .returned → Accounted header bootId s) := by
  classical
  have hcore := core_inv h.reachable
  have hprod := producersInv_of_reachable h.reachable
  have hcons := consumersInv_of_reachable h.reachable
  have hquiet := quietInv_of_reachable h
  refine ⟨hcore.consumed_le.trans hcore.written_le, hcore.claimed_le,
    fun t r i hpc => hcore.copy_free hpc, fun hpc => ?_⟩
  have hd : Drained s := by simp only [Drained, hpc]
  have hout := hcons.drain_out (.inr hd) (by simp [hpc]) (by simp [hpc])
  have hemitted : s.core.emitted = s.core.accepted.map Prod.snd := by
    have hpass := hcore.pass
    rw [hout] at hpass
    have hform : Core.formatted s.core = s.core.accepted.length := by
      rw [hcore.accepted_length, ← hquiet.drained hd, ← hpass]
      simp only [Core.formatted, hout]
    rw [hcore.emitted, hform, ← List.length_map Prod.snd, List.take_length]
  have hperm : s.begun.Perm (s.core.accepted ++ s.dropped) := by
    rw [List.perm_iff_count]
    intro x
    have hidle : pending s x.1 = none := by
      simp only [pending, hquiet.idle (by simp [hpc]) x.1]
    rw [hprod.balance x, List.count_append, outcomes, hquiet.noLate.1, inFlight, hidle]
    simp
  refine ⟨?_, hperm, hprod.overflow_eq, ?_, ?_⟩
  · rw [(hquiet.finished (.inl hpc)).1, hemitted, List.map_map]
    rfl
  · rw [hprod.overflow_eq, hperm.length_eq, List.length_append]
  · rw [hprod.late_eq, hquiet.noLate.1]
    rfl

/-- Two writes into a ring of one slot, the second while the first waits, and
then `Close`. -/
def closeAfterTwo : List (Act Bool Nat) :=
  .write false 7 :: List.replicate 6 (.producer false false) ++
    .write true 8 :: List.replicate 4 (.producer true false) ++
      .close :: List.replicate 2 .closer ++ .flusher :: List.replicate 21 .closer

theorem quiet_accounting_closeAfterTwo :
    ∃ s : State Bool Nat, s.file = [.header "h", .row 7, .footer [("rows", 1)] (some "b"),
        .footer [("overflow", 1), ("late", 0), ("unpublished", 0)] none] ∧
      Accounted "h" "b" s := by
  obtain ⟨s, hs, hpc, hfile⟩ := Machine.exists_of_execBy closeAfterTwo
    (m := machine (T := Bool) ⟨1, by decide⟩ "h" "b" (fun _ => (0 : Nat))) (G := Quiet)
    (P := fun s => s.closer = .returned ∧ s.file =
      [.header "h", .row 7, .footer [("rows", 1)] (some "b"),
        .footer [("overflow", 1), ("late", 0), ("unpublished", 0)] none]) (by decide +kernel)
  exact ⟨s, hfile, (quiet_accounting hs).2.2.2 hpc⟩

end TraceRing
end P5G
