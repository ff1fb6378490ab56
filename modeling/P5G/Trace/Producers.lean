import P5G.Trace.TraceRing
import P5G.Trace.Frame
import Mathlib.Data.List.Perm.Basic
import Mathlib.Data.List.Count

/-!
# The producers of the trace ring

`refines_core` carries the ring's invariant over to `TraceRing`.  On top of it
`ProducersInv` balances the calls of `Write` against their outcomes: every call
is in flight, accepted, counted as overflow, or counted as late.
-/

namespace P5G

namespace TraceRing

open SlotRing

variable {T Row : Type*} [DecidableEq T] {cap : Capacity} {s s' : State T Row}
  {bootId header : String}

theorem passStep_eq {final : Bool} (h : s.passStep cap final = some s') :
    s.core.step cap (.pass final) = some s'.core ∧
      s' = { s with core := s'.core, file := s'.file } := by
  simp only [State.passStep] at h
  obtain ⟨c, hc, rfl⟩ := Option.map_eq_some_iff.mp h
  split <;> exact ⟨hc, rfl⟩

/-- Each step is one step of the ring, a writer's only if a producer moves, or
leaves the ring alone. -/
theorem core_step {a : Act T Row} (h : s.step cap bootId a = some s') :
    s'.core = s.core ∨ ∃ b, s.core.step cap b = some s'.core ∧
      ∀ t spurious, b = .writer t spurious → a = .producer t spurious := by
  cases a with
  | write t r =>
    simp only [State.step] at h
    split at h <;> cases h
    exact .inl rfl
  | producer t spurious =>
    simp only [State.step, State.producerStep] at h
    split at h
    · cases h
    · split at h
      · cases h
        exact .inl rfl
      · obtain ⟨c, hc, rfl⟩ := Option.map_eq_some_iff.mp h
        exact .inr ⟨_, hc, nofun⟩
    · cases h
      exact .inl rfl
    · obtain ⟨c, hc, rfl⟩ := Option.map_eq_some_iff.mp h
      refine .inr ⟨.writer t spurious, ?_, fun u p e => ?_⟩
      · split <;> exact hc
      · cases e
        rfl
  | flusher =>
    simp only [State.step, State.flusherStep] at h
    split at h
    · cases h
      exact .inl rfl
    · obtain ⟨c, hc, rfl⟩ := Option.map_eq_some_iff.mp h
      exact .inr ⟨_, hc, nofun⟩
    · split at h
      · cases h
        exact .inl rfl
      · obtain ⟨c, hc, rfl⟩ := Option.map_eq_some_iff.mp h
        exact .inr ⟨_, hc, nofun⟩
      · exact .inr ⟨_, (passStep_eq h).1, nofun⟩
    · cases h
  | close =>
    simp only [State.step] at h
    split at h <;> cases h
    exact .inl rfl
  | closer =>
    simp only [State.step, State.closerStep] at h
    split at h
    case h_1 => cases h
    case h_2 => split at h <;> cases h <;> exact .inl rfl
    case h_3 => cases h; exact .inl rfl
    case h_4 => split at h <;> cases h; exact .inl rfl
    case h_5 =>
      split at h
      · cases h
        exact .inl rfl
      · obtain ⟨c, hc, rfl⟩ := Option.map_eq_some_iff.mp h
        exact .inr ⟨_, hc, nofun⟩
    case h_6 =>
      obtain ⟨c, hc, rfl⟩ := Option.map_eq_some_iff.mp h
      exact .inr ⟨_, hc, nofun⟩
    case h_7 =>
      split at h
      · cases h
        exact .inl rfl
      · obtain ⟨c, hc, rfl⟩ := Option.map_eq_some_iff.mp h
        exact .inr ⟨_, hc, nofun⟩
      · exact .inr ⟨_, (passStep_eq h).1, nofun⟩
    case h_8 =>
      split at h
      · obtain ⟨c, hc, rfl⟩ := Option.map_eq_some_iff.mp h
        exact .inr ⟨_, hc, nofun⟩
      · exact .inr ⟨_, (passStep_eq h).1, nofun⟩
    case h_9 => cases h; exact .inl rfl
    case h_10 => cases h; exact .inl rfl
    case h_11 => cases h; exact .inl rfl
    case h_12 => cases h

theorem refines_core (cfg : Config) (header bootId : String) (memory : Nat → Row) :
    (machine (T := T) cfg header bootId memory).Refines (coreMachine cfg.cap memory)
      State.core :=
  ⟨rfl, fun _ _ _ _ h => (core_step h).imp_right fun ⟨b, hb, _⟩ => ⟨b, hb⟩⟩

theorem core_inv {cfg : Config} {memory : Nat → Row}
    (h : (machine (T := T) cfg header bootId memory).Reachable s) :
    Core.Inv cfg.cap s.core :=
  Core.reachable_inv ((refines_core cfg header bootId memory).reachable h)

def pending (s : State T Row) (t : T) : Option Row :=
  match s.calls t with
  | .idle => none
  | .loadClosed r => some r
  | .countLate r => some r
  | .claiming => Core.pendingRow (s.core.writers t)

theorem setCall_other {t : T} {pc : CallPc Row} (u : T) (hu : u ≠ t) :
    (s.setCall t pc).calls u = s.calls u := Function.update_of_ne hu _ _

@[simp] theorem setCall_self {t : T} {pc : CallPc Row} : (s.setCall t pc).calls t = pc :=
  Function.update_self _ _ _

@[simp] theorem setCall_core {t : T} {pc : CallPc Row} : (s.setCall t pc).core = s.core := rfl

/-- A producer's move changes only its own pending row. -/
theorem pending_update {t : T} (hcalls : ∀ u, u ≠ t → s'.calls u = s.calls u)
    (hwriters : ∀ u, u ≠ t → s'.core.writers u = s.core.writers u) :
    pending s' = Function.update (pending s) t (pending s' t) := by
  funext u
  by_cases hu : u = t
  · subst hu
    rw [Function.update_self]
  · rw [Function.update_of_ne hu, pending, pending, hcalls u hu, hwriters u hu]

section Balance

variable [DecidableEq Row]

def inFlight (f : T → Option Row) (x : T × Row) : Nat := if f x.1 = some x.2 then 1 else 0

theorem inFlight_gain {f : T → Option Row} {t : T} {r : Row} (h : f t = none) (x : T × Row) :
    inFlight (Function.update f t (some r)) x = inFlight f x + [(t, r)].count x := by
  obtain ⟨u, q⟩ := x
  by_cases hu : u = t
  · subst hu
    by_cases hq : r = q <;> simp [inFlight, h, hq]
  · simp [inFlight, Function.update_of_ne hu, Ne.symm hu]

theorem inFlight_lose {f : T → Option Row} {t : T} {r : Row} (h : f t = some r)
    (x : T × Row) :
    inFlight f x = inFlight (Function.update f t none) x + [(t, r)].count x := by
  obtain ⟨u, q⟩ := x
  by_cases hu : u = t
  · subst hu
    by_cases hq : r = q <;> simp [inFlight, h, hq]
  · simp [inFlight, Function.update_of_ne hu, Ne.symm hu]

/-- How many calls with this row have had an outcome. -/
def outcomes (s : State T Row) (x : T × Row) : Nat :=
  s.core.accepted.count x + s.dropped.count x + s.lateRows.count x

structure ProducersInv (s : State T Row) : Prop where
  claiming : ∀ t, s.calls t = .claiming ↔ s.core.writers t ≠ .out
  overflow_eq : s.overflow = s.dropped.length
  late_eq : s.late = s.lateRows.length
  balance : ∀ x, s.begun.count x = outcomes s x + inFlight (pending s) x

theorem producersInv_init (header : String) (memory : Nat → Row) :
    ProducersInv (init header memory : State T Row) := by
  refine ⟨fun t => ?_, rfl, rfl, fun x => rfl⟩
  simp [init, Core.empty]

namespace ProducersInv

theorem out_of_ne (h : ProducersInv s) {t : T} (hpc : s.calls t ≠ .claiming) :
    s.core.writers t = .out := by
  by_contra hne
  exact hpc ((h.claiming t).mpr hne)

/-- One call moves: what its thread gains or loses in flight is what `begun`
and the outcomes change by. -/
theorem update (h : ProducersInv s) {t : T}
    (hcalls : ∀ u, u ≠ t → s'.calls u = s.calls u)
    (hwriters : ∀ u, u ≠ t → s'.core.writers u = s.core.writers u)
    (hself : s'.calls t = .claiming ↔ s'.core.writers t ≠ .out)
    (hoverflow : s'.overflow = s'.dropped.length) (hlate : s'.late = s'.lateRows.length)
    (hcount : ∀ x, s'.begun.count x + outcomes s x + inFlight (pending s) x =
      s.begun.count x + outcomes s' x +
        inFlight (Function.update (pending s) t (pending s' t)) x) :
    ProducersInv s' := by
  refine ⟨?_, hoverflow, hlate, ?_⟩
  · intro u
    by_cases hu : u = t
    · subst hu
      exact hself
    · rw [hcalls u hu, hwriters u hu]
      exact h.claiming u
  · intro x
    rw [pending_update hcalls hwriters]
    have := h.balance x
    have := hcount x
    omega

/-- A move that leaves its thread's row where it was. -/
theorem keep (h : ProducersInv s) {t : T}
    (hcalls : ∀ u, u ≠ t → s'.calls u = s.calls u)
    (hwriters : ∀ u, u ≠ t → s'.core.writers u = s.core.writers u)
    (hself : s'.calls t = .claiming ↔ s'.core.writers t ≠ .out)
    (hpending : pending s' t = pending s t)
    (hoverflow : s'.overflow = s'.dropped.length) (hlate : s'.late = s'.lateRows.length)
    (hbegun : s'.begun = s.begun) (houtcomes : outcomes s' = outcomes s) : ProducersInv s' := by
  refine h.update hcalls hwriters hself hoverflow hlate (fun x => ?_)
  rw [hpending, Function.update_eq_self, hbegun, houtcomes]

/-- A move that gives its thread's row an outcome. -/
theorem settle (h : ProducersInv s) {t : T} {r : Row}
    (hcalls : ∀ u, u ≠ t → s'.calls u = s.calls u)
    (hwriters : ∀ u, u ≠ t → s'.core.writers u = s.core.writers u)
    (hself : s'.calls t = .claiming ↔ s'.core.writers t ≠ .out)
    (hbefore : pending s t = some r) (hafter : pending s' t = none)
    (hoverflow : s'.overflow = s'.dropped.length) (hlate : s'.late = s'.lateRows.length)
    (hbegun : s'.begun = s.begun)
    (houtcomes : ∀ x, outcomes s' x = outcomes s x + [(t, r)].count x) : ProducersInv s' := by
  refine h.update hcalls hwriters hself hoverflow hlate (fun x => ?_)
  rw [hafter, hbegun, houtcomes x, inFlight_lose hbefore x]
  omega

theorem write (h : ProducersInv s) {t : T} {r : Row} (hpc : s.calls t = .idle) :
    ProducersInv { s.setCall t (.loadClosed r) with begun := s.begun ++ [(t, r)] } := by
  have hout := h.out_of_ne (t := t) (by rw [hpc]; exact fun e => by cases e)
  refine h.update (t := t) (fun u hu => setCall_other u hu) (fun _ _ => rfl) ?_ h.overflow_eq
    h.late_eq (fun x => ?_)
  · simp [hout]
  · have hnone : pending s t = none := by simp only [pending, hpc]
    have hsome : pending { s.setCall t (.loadClosed r) with begun := s.begun ++ [(t, r)] } t =
        some r := by simp only [pending, setCall_self]
    rw [hsome, inFlight_gain hnone]
    simp only [List.count_append]
    show _ = _ + outcomes s x + _
    omega

theorem seenClosed (h : ProducersInv s) {t : T} {r : Row}
    (hpc : s.calls t = .loadClosed r) : ProducersInv (s.setCall t (.countLate r)) := by
  have hout := h.out_of_ne (t := t) (by rw [hpc]; exact fun e => by cases e)
  refine h.keep (t := t) (fun u hu => setCall_other u hu) (fun _ _ => rfl) ?_ ?_ h.overflow_eq
    h.late_eq rfl rfl
  · simp [hout]
  · simp only [pending, setCall_self, hpc]

theorem enter (h : ProducersInv s) {t : T} {r : Row} {c : Core T Row}
    (hpc : s.calls t = .loadClosed r) (hc : s.core.step cap (.enter t r) = some c) :
    ProducersInv { s.setCall t .claiming with core := c } := by
  obtain ⟨-, rfl⟩ := Core.enter_eq hc
  refine h.keep (t := t) (fun u hu => setCall_other u hu)
    (fun u hu => Function.update_of_ne hu _ _) ?_ ?_ h.overflow_eq h.late_eq rfl rfl
  · simp
  · simp [pending, hpc, Core.pendingRow]

theorem countLate (h : ProducersInv s) {t : T} {r : Row} (hpc : s.calls t = .countLate r) :
    ProducersInv { s.setCall t .idle with
      late := s.late + 1, lateRows := s.lateRows ++ [(t, r)] } := by
  have hout := h.out_of_ne (t := t) (by rw [hpc]; exact fun e => by cases e)
  refine h.settle (t := t) (r := r) (fun u hu => setCall_other u hu) (fun _ _ => rfl) ?_ ?_ ?_
    h.overflow_eq ?_ rfl (fun x => ?_)
  · simp [hout]
  · simp only [pending, hpc]
  · simp only [pending, setCall_self]
  · simp [h.late_eq]
  · simp only [outcomes, setCall_core, List.count_append]
    exact (Nat.add_assoc _ _ _).symm

theorem refused (h : ProducersInv s) {t : T} {r : Row} {c : Core T Row}
    {spurious : Bool} (hpc : s.calls t = .claiming)
    (hc : s.core.step cap (.writer t spurious) = some c) (hw : s.core.writers t = .refused r) :
    ProducersInv { s.setCall t .idle with
      core := c, overflow := s.overflow + 1, dropped := s.dropped ++ [(t, r)] } := by
  have hwriters := (Core.writer_frame hc).2.2.2.2
  obtain rfl := Core.writer_refused hc hw
  refine h.settle (t := t) (r := r) (fun u hu => setCall_other u hu) hwriters ?_ ?_ ?_ ?_
    h.late_eq rfl (fun x => ?_)
  · simp
  · simp [pending, hpc, hw, Core.pendingRow]
  · simp only [pending, setCall_self]
  · simp [h.overflow_eq]
  · simp only [outcomes, Core.setWriter_accepted, List.count_append]
    show _ + _ + s.lateRows.count x = _
    omega

theorem published (h : ProducersInv s) {t : T} {r : Row} {i : Nat}
    {c : Core T Row} {spurious : Bool} (hpc : s.calls t = .claiming)
    (hc : s.core.step cap (.writer t spurious) = some c) (hw : s.core.writers t = .publish r i) :
    ProducersInv { s.setCall t .idle with core := c } := by
  have hwriters := (Core.writer_frame hc).2.2.2.2
  obtain rfl := Core.writer_publish hc hw
  refine h.keep (t := t) (fun u hu => setCall_other u hu) hwriters ?_ ?_ h.overflow_eq h.late_eq
    rfl rfl
  · simp
  · simp [pending, hpc, hw, Core.pendingRow]

theorem inside (h : ProducersInv s) {t : T} {c : Core T Row}
    {spurious : Bool} (hpc : s.calls t = .claiming)
    (hc : s.core.step cap (.writer t spurious) = some c)
    (href : ∀ r, s.core.writers t ≠ .refused r) (hpub : ∀ r i, s.core.writers t ≠ .publish r i) :
    ProducersInv { s with core := c } := by
  have hwriters := (Core.writer_frame hc).2.2.2.2
  obtain ⟨hin, hrow⟩ := Core.writer_inside hc href hpub
  have hself : ({ s with core := c } : State T Row).calls t = .claiming ↔ c.writers t ≠ .out :=
    ⟨fun _ => hin, fun _ => hpc⟩
  have hbefore : pending s t = Core.pendingRow (s.core.writers t) := by simp only [pending, hpc]
  have hafter : pending { s with core := c } t = Core.pendingRow (c.writers t) := by
    simp only [pending, hpc]
  rcases hrow with ⟨hrow, hacc⟩ | ⟨r, hold, hnew, hacc⟩
  · refine h.keep (fun _ _ => rfl) hwriters hself (by rw [hafter, hrow, hbefore]) h.overflow_eq
      h.late_eq rfl ?_
    funext x
    simp only [outcomes, hacc]
  · refine h.settle (r := r) (fun _ _ => rfl) hwriters hself (by rw [hbefore, hold])
      (by rw [hafter, hnew]) h.overflow_eq h.late_eq rfl (fun x => ?_)
    simp only [outcomes, hacc, List.count_append]
    omega

theorem producerStep (h : ProducersInv s) {t : T} {spurious : Bool}
    (hstep : s.producerStep cap t spurious = some s') : ProducersInv s' := by
  simp only [State.producerStep] at hstep
  split at hstep
  · cases hstep
  · next r hpc =>
    split at hstep
    · cases hstep
      exact h.seenClosed hpc
    · obtain ⟨c, hc, rfl⟩ := Option.map_eq_some_iff.mp hstep
      exact h.enter hpc hc
  · next r hpc =>
    cases hstep
    exact h.countLate hpc
  · next hpc =>
    obtain ⟨c, hc, rfl⟩ := Option.map_eq_some_iff.mp hstep
    split
    · next r hw => exact h.refused hpc hc hw
    · next r i hw => exact h.published hpc hc hw
    · next href hpub => exact h.inside hpc hc href hpub

end ProducersInv

end Balance

end TraceRing
end P5G
