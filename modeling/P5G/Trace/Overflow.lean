import P5G.Trace.Accounting
import P5G.Trace.Shutdown

/-!
# When a row is refused

The fullness test subtracts a fresh `consumed` from a `claimed` that may be old.
While the value read is not behind `consumed` the test only succeeds on a full
ring.  Behind it, the unsigned difference wraps around and the test succeeds on
a ring that has room.
-/

namespace P5G
namespace SlotRing

variable {σ α T Row : Type*} {cap : Capacity}

/-- At some moment of the run, newest state first, the ring was full, and the
call has been under way from then on. -/
def FullDuring (cap : Capacity) (core : σ → Core T Row) (underWay : σ → Prop)
    (run : List σ) : Prop :=
  ∃ during moment before, run = during ++ moment :: before ∧
    cap.val ≤ (core moment).claimed - (core moment).consumed ∧
    ∀ x ∈ during ++ [moment], underWay x

/-- The writer that moves next tests fullness with a `claimed` that is not
behind `consumed`. -/
def TestsFresh (s : Core T Row) (t : T) : Prop :=
  match s.writers t with
  | .loadConsumed _ i => s.consumed ≤ i
  | _ => True

instance (s : Core T Row) (t : T) : Decidable (TestsFresh s t) :=
  match h : s.writers t with
  | .loadConsumed _ i => decidable_of_iff (s.consumed ≤ i) (by simp only [TestsFresh, h])
  | .out | .loadClaimed _ | .refused _ | .cas _ _ | .copy _ _ | .publish _ _ =>
    isTrue (by simp only [TestsFresh, h])

/-- A fresh test succeeds on a full ring only. -/
theorem full_of_test {s : Core T Row} {t : T} {r : Row} {i : Nat} (h : Core.Inv cap s)
    (hpc : s.writers t = .loadConsumed r i) (hfresh : TestsFresh s t)
    (hfull : cap.val ≤ wrapSub i s.consumed) : cap.val ≤ s.claimed - s.consumed := by
  have hle : s.consumed ≤ i := by simpa only [TestsFresh, hpc] using hfresh
  have hi := h.loaded t r i hpc
  have hcl := h.claimed_le
  have hword := cap.lt_word
  rw [wrapSub_of_le hle (by omega)] at hfull
  omega

/-- A writer that has found the ring full did so at a moment of its own call. -/
theorem fullDuring_of_refused {m : Machine σ α} {ok : σ → α → Prop} {core : σ → Core T Row}
    {underWay : σ → Prop} {t : T} {r : Row} {s : σ} {past : List σ} (h : m.Run ok s past)
    (hpc : (core s).writers t = .refused r) (hinit : (core m.init).writers t ≠ .refused r)
    (hcall : ∀ x, m.ReachableBy ok x → (core x).writers t ≠ .out → underWay x)
    (hstep : ∀ x a x', m.ReachableBy ok x → ok x a → m.step x a = some x' →
      (core x').writers t = .refused r → (core x).writers t ≠ .refused r →
        cap.val ≤ (core x).claimed - (core x).consumed ∧ (core x).writers t ≠ .out) :
    FullDuring cap core underWay (s :: past) := by
  obtain ⟨during, moment, before, rfl, ⟨hfull, hmoment⟩, hduring⟩ :=
    h.since (P := fun x => (core x).writers t = .refused r)
      (Q := fun x => cap.val ≤ (core x).claimed - (core x).consumed ∧ (core x).writers t ≠ .out)
      hinit (fun x a x' hx ha hs hp => by
        by_cases hr : (core x).writers t = .refused r
        · exact .inl hr
        · exact .inr (hstep x a x' hx ha hs hp hr)) hpc
  have reached (x : σ) (hx : x ∈ during ++ moment :: before) : m.ReachableBy ok x :=
    h.past_run x hx
  refine ⟨s :: during, moment, before, rfl, hfull, fun x hx => ?_⟩
  rcases List.mem_append.mp hx with hx | hx
  · rcases List.mem_cons.mp hx with rfl | hx
    · exact hcall x h.reachableBy (by simp [hpc])
    · exact hcall x (reached x (List.mem_append_left _ hx)) (by rw [hduring x hx]; exact nofun)
  · rw [List.mem_singleton.mp hx]
    exact hcall moment (reached moment (by simp)) hmoment

/-- A run in which the ring is never full. -/
theorem not_fullDuring {m : Machine σ α} {core : σ → Core T Row} {underWay : σ → Prop} {s : σ}
    {past : List σ}
    (h : m.Run (fun x _ => (core x).claimed - (core x).consumed < cap.val) s past)
    (hs : (core s).claimed - (core s).consumed < cap.val) :
    ¬ FullDuring cap core underWay (s :: past) := by
  rintro ⟨during, moment, before, hrun, hfull, -⟩
  have hmem : moment ∈ s :: past := by
    rw [hrun]
    exact List.mem_append_right _ List.mem_cons_self
  rcases List.mem_cons.mp hmem with rfl | hmem
  · omega
  · obtain ⟨-, hx⟩ := h.past_ok moment hmem
    omega

end SlotRing

namespace TraceRing

open SlotRing

variable {T Row : Type*} [DecidableEq T] {cfg : Config} {header bootId : String}
  {memory : Nat → Row} {s : State T Row} {past : List (State T Row)} {t : T} {r : Row}

/-- Every fullness test is made with a `claimed_` that is not behind
`consumed_`. -/
def Fresh (s : State T Row) : Act T Row → Prop
  | .producer t _ => TestsFresh s.core t
  | _ => True

instance (s : State T Row) (a : Act T Row) : Decidable (Fresh s a) :=
  match a with
  | .producer t _ => inferInstanceAs (Decidable (TestsFresh s.core t))
  | .write _ _ | .flusher | .close | .closer => isTrue trivial

/-- The writer about to count an overflow found the ring full during its call. -/
def RefusedWhenFull (cap : Capacity) (run : List (State T Row)) (t : T) : Prop :=
  FullDuring cap State.core (fun x => x.calls t ≠ .idle) run

theorem refused_when_full
    (h : (machine (T := T) cfg header bootId memory).Run Fresh s past)
    (hpc : s.core.writers t = .refused r) : RefusedWhenFull cfg.cap (s :: past) t := by
  classical
  refine fullDuring_of_refused h hpc nofun (fun x hx hout => ?_) (fun x a x' hx ha hs hp hr => ?_)
  · rw [((producersInv_of_reachable hx.reachable).claiming t).mpr hout]
    exact nofun
  · rcases core_step hs with hcore | ⟨b, hb, hprod⟩
    · rw [hcore] at hp
      exact absurd hp hr
    · obtain ⟨spurious, i, rfl, hpc', hfull⟩ := Core.refused_origin hb hp hr
      obtain rfl := hprod t spurious rfl
      exact ⟨full_of_test (core_inv hx.reachable) hpc' ha hfull, by rw [hpc']; exact nofun⟩

end TraceRing

namespace GnbTracer

open SlotRing

variable {T Row : Type*} [DecidableEq T] {cfg : Config} {header bootId : String}
  {memory : Nat → Row} {s s' : State T Row} {past : List (State T Row)} {t : T} {r : Row}

/-- Every fullness test is made with a `claimed` that is not behind `consumed`. -/
def Fresh (s : State T Row) : Act T Row → Prop
  | .producer t _ => TestsFresh s.core t
  | _ => True

instance (s : State T Row) (a : Act T Row) : Decidable (Fresh s a) :=
  match a with
  | .producer t _ => inferInstanceAs (Decidable (TestsFresh s.core t))
  | .emit _ _ | .flusher | .callShutdown | .shutdown => isTrue trivial

/-- The writer about to count an overflow found the ring full during its call. -/
def RefusedWhenFull (cap : Capacity) (run : List (State T Row)) (t : T) : Prop :=
  FullDuring cap State.core (fun x => x.calls t ≠ .idle) run

/-- The consumers leave the calls alone. -/
theorem calls_frame {cap : Capacity} {a : Act T Row} (h : s.step cap bootId a = some s')
    (ha : a = .flusher ∨ a = .callShutdown ∨ a = .shutdown) :
    s'.calls = s.calls ∧ s'.core.writers = s.core.writers := by
  have flush {x : State T Row} {final : Bool} (hx : s.flushStep cap final = some x) :
      x.calls = s.calls ∧ x.core.writers = s.core.writers := by
    obtain ⟨hc, he⟩ := flushStep_eq hx
    refine ⟨by rw [he], (Core.pass_frame hc).1⟩
  rcases ha with rfl | rfl | rfl
  · simp only [State.step, State.flushLoopStep] at h
    split at h
    · cases h
      exact ⟨rfl, rfl⟩
    · obtain ⟨c, hc, rfl⟩ := Option.map_eq_some_iff.mp h
      obtain ⟨-, rfl⟩ := Core.beginPass_eq hc
      exact ⟨rfl, rfl⟩
    · split at h
      · cases h
        exact ⟨rfl, rfl⟩
      · obtain ⟨c, hc, rfl⟩ := Option.map_eq_some_iff.mp h
        obtain ⟨-, rfl⟩ := Core.endPass_eq hc
        exact ⟨rfl, rfl⟩
      · exact flush h
    · cases h
  · simp only [State.step] at h
    split at h <;> cases h
    exact ⟨rfl, rfl⟩
  · cases shuts_of_shutdownStep h with
    | finalPass s' hpc hdrain hflush => exact flush hflush
    | _ => exact ⟨rfl, rfl⟩

theorem claiming_of_reachable
    (h : (machine (T := T) cfg header bootId memory).Reachable s) :
    ∀ u, s.calls u = .claiming ↔ s.core.writers u ≠ .out := by
  refine h.invariant (I := fun s => ∀ u, s.calls u = .claiming ↔ s.core.writers u ≠ .out)
    (fun u => by simp [machine, init, Core.empty]) (fun s a s' hi hs u => ?_)
  change s.step cfg.cap bootId a = some s' at hs
  have out {v : T} (hv : s.calls v ≠ .claiming) : s.core.writers v = .out := by
    by_contra hne
    exact hv ((hi v).mpr hne)
  -- a producer's move concerns only its own thread
  have one {t : T} (hcalls : ∀ v, v ≠ t → s'.calls v = s.calls v)
      (hwriters : ∀ v, v ≠ t → s'.core.writers v = s.core.writers v)
      (hself : s'.calls t = .claiming ↔ s'.core.writers t ≠ .out) :
      s'.calls u = .claiming ↔ s'.core.writers u ≠ .out := by
    by_cases hu : u = t
    · subst hu
      exact hself
    · rw [hcalls u hu, hwriters u hu]
      exact hi u
  have other {t : T} {pc : CallPc Row} (v : T) (hv : v ≠ t) :
      Function.update s.calls t pc v = s.calls v := Function.update_of_ne hv _ _
  cases a with
  | emit t r =>
    simp only [State.step] at hs
    split at hs
    · next hpc =>
      cases hs
      exact one other (fun _ _ => rfl)
        (by simp [State.setCall, out (v := t) (by simp [hpc])])
    · cases hs
  | producer t spurious =>
    simp only [State.step, State.writeStep] at hs
    split at hs
    · cases hs
    · next r hpc =>
      cases hs
      refine one other (fun _ _ => rfl) ?_
      rw [show (s.setCall t _).core = s.core from rfl, out (by simp [hpc])]
      split <;> simp [State.setCall]
    · next r hpc =>
      split at hs
      · cases hs
        exact one other (fun _ _ => rfl)
          (by simp [State.setCall, out (v := t) (by simp [hpc])])
      · obtain ⟨c, hc, rfl⟩ := Option.map_eq_some_iff.mp hs
        obtain ⟨-, rfl⟩ := Core.enter_eq hc
        exact one other (fun v hv => Function.update_of_ne hv _ _) (by simp [State.setCall])
    · next hpc =>
      obtain ⟨c, hc, rfl⟩ := Option.map_eq_some_iff.mp hs
      have hwriters := (Core.writer_frame hc).2.2.2.2
      split at *
      · next r hw =>
        obtain rfl := Core.writer_refused hc hw
        exact one other hwriters (by simp [State.setCall])
      · next r i hw =>
        obtain rfl := Core.writer_publish hc hw
        exact one other hwriters (by simp [State.setCall])
      · next href hpub =>
        exact one (fun _ _ => rfl) hwriters
          ⟨fun _ => (Core.writer_inside hc href hpub).1, fun _ => hpc⟩
  | flusher =>
    obtain ⟨hcalls, hwriters⟩ := calls_frame hs (.inl rfl)
    rw [hcalls, hwriters]
    exact hi u
  | callShutdown =>
    obtain ⟨hcalls, hwriters⟩ := calls_frame hs (.inr (.inl rfl))
    rw [hcalls, hwriters]
    exact hi u
  | shutdown =>
    obtain ⟨hcalls, hwriters⟩ := calls_frame hs (.inr (.inr rfl))
    rw [hcalls, hwriters]
    exact hi u

theorem refused_when_full
    (h : (machine (T := T) cfg header bootId memory).Run Fresh s past)
    (hpc : s.core.writers t = .refused r) : RefusedWhenFull cfg.cap (s :: past) t := by
  refine fullDuring_of_refused h hpc nofun (fun x hx hout => ?_) (fun x a x' hx ha hs hp hr => ?_)
  · rw [(claiming_of_reachable hx.reachable t).mpr hout]
    exact nofun
  · rcases core_step hs with hcore | ⟨b, hb, hprod⟩
    · rw [hcore] at hp
      exact absurd hp hr
    · obtain ⟨spurious, i, rfl, hpc', hfull⟩ := Core.refused_origin hb hp hr
      obtain rfl := hprod t spurious rfl
      exact ⟨full_of_test (core_inv hx.reachable) hpc' ha hfull, by rw [hpc']; exact nofun⟩

end GnbTracer

section Both

open SlotRing

/-- In a run whose fullness tests are all fresh, a write of either ring counts
an overflow only if the ring was full at some moment of that write. -/
theorem overflow_only_when_full {T Row : Type*} [DecidableEq T] (cfg : Config)
    (header bootId : String) (memory : Nat → Row) (t : T) (r : Row) :
    (∀ s past, (TraceRing.machine (T := T) cfg header bootId memory).Run TraceRing.Fresh s past →
      s.core.writers t = .refused r → TraceRing.RefusedWhenFull cfg.cap (s :: past) t) ∧
    (∀ s past, (GnbTracer.machine (T := T) cfg header bootId memory).Run GnbTracer.Fresh s past →
      s.core.writers t = .refused r → GnbTracer.RefusedWhenFull cfg.cap (s :: past) t) :=
  ⟨fun _ _ h hpc => TraceRing.refused_when_full h hpc,
    fun _ _ h hpc => GnbTracer.refused_when_full h hpc⟩

/-- Thread `false` fills a ring of one slot, and thread `true` is refused. -/
def mediaFull : List (TraceRing.Act Bool Nat) :=
  .write false 7 :: List.replicate 6 (.producer false false) ++
    .write true 8 :: List.replicate 3 (.producer true false)

def gnbFull : List (GnbTracer.Act Bool Nat) :=
  .emit false 7 :: List.replicate 7 (.producer false false) ++
    .emit true 8 :: List.replicate 4 (.producer true false)

theorem overflow_only_when_full_ofOneSlot :
    (∃ s past, (TraceRing.machine (T := Bool) ⟨1, by decide⟩ "h" "b" (fun _ => (0 : Nat))).Run
        TraceRing.Fresh s past ∧ s.core.writers true = .refused 8 ∧
          TraceRing.RefusedWhenFull (Config.cap ⟨1, by decide⟩) (s :: past) true) ∧
      ∃ s past, (GnbTracer.machine (T := Bool) ⟨1, by decide⟩ "h" "b" (fun _ => (0 : Nat))).Run
        GnbTracer.Fresh s past ∧ s.core.writers true = .refused 8 ∧
          GnbTracer.RefusedWhenFull (Config.cap ⟨1, by decide⟩) (s :: past) true := by
  have both := overflow_only_when_full (T := Bool) ⟨1, by decide⟩ "h" "b" (fun _ => 0) true 8
  obtain ⟨s, ⟨past, hrun⟩, hpc⟩ := Machine.exists_of_execBy mediaFull
    (m := TraceRing.machine ⟨1, by decide⟩ "h" "b" (fun _ => 0)) (G := TraceRing.Fresh)
    (P := fun s => s.core.writers true = .refused 8) (by decide +kernel)
  obtain ⟨s', ⟨past', hrun'⟩, hpc'⟩ := Machine.exists_of_execBy gnbFull
    (m := GnbTracer.machine ⟨1, by decide⟩ "h" "b" (fun _ => 0)) (G := GnbTracer.Fresh)
    (P := fun s => s.core.writers true = .refused 8) (by decide +kernel)
  exact ⟨⟨s, past, hrun, hpc, both.1 s past hrun hpc⟩,
    ⟨s', past', hrun', hpc', both.2 s' past' hrun' hpc'⟩⟩

/-- In a ring of two slots thread `false` reads `claimed`, then thread `true`
writes a row and the flusher consumes it, and then thread `false` tests. -/
def mediaStale : List (TraceRing.Act Bool Nat) :=
  .write false 7 :: List.replicate 2 (.producer false false) ++
    .write true 8 :: List.replicate 6 (.producer true false) ++
      List.replicate 9 .flusher ++ [.producer false false]

def gnbStale : List (GnbTracer.Act Bool Nat) :=
  .emit false 7 :: List.replicate 3 (.producer false false) ++
    .emit true 8 :: List.replicate 7 (.producer true false) ++
      List.replicate 9 .flusher ++ [.producer false false]

/-- A write of either ring counts an overflow although the ring never held more
than one row. -/
theorem stale_claimed_refused :
    (¬ ∀ s past, (TraceRing.machine (T := Bool) ⟨2, by decide⟩ "h" "b" (fun _ => (0 : Nat))).Run
        (fun _ _ => True) s past → s.core.writers false = .refused 7 →
          TraceRing.RefusedWhenFull (Config.cap ⟨2, by decide⟩) (s :: past) false) ∧
      ¬ ∀ s past, (GnbTracer.machine (T := Bool) ⟨2, by decide⟩ "h" "b" (fun _ => (0 : Nat))).Run
        (fun _ _ => True) s past → s.core.writers false = .refused 7 →
          GnbTracer.RefusedWhenFull (Config.cap ⟨2, by decide⟩) (s :: past) false := by
  constructor
  · obtain ⟨s, ⟨past, hrun⟩, hpc, hroom⟩ := Machine.exists_of_execBy mediaStale
      (m := TraceRing.machine ⟨2, by decide⟩ "h" "b" (fun _ => 0))
      (G := fun s _ => s.core.claimed - s.core.consumed < (Config.cap ⟨2, by decide⟩).val)
      (P := fun s => s.core.writers false = .refused 7 ∧
        s.core.claimed - s.core.consumed < (Config.cap ⟨2, by decide⟩).val) (by decide +kernel)
    exact fun hall => not_fullDuring hrun hroom
      (hall s past (hrun.mono fun _ _ _ => trivial) hpc)
  · obtain ⟨s, ⟨past, hrun⟩, hpc, hroom⟩ := Machine.exists_of_execBy gnbStale
      (m := GnbTracer.machine ⟨2, by decide⟩ "h" "b" (fun _ => 0))
      (G := fun s _ => s.core.claimed - s.core.consumed < (Config.cap ⟨2, by decide⟩).val)
      (P := fun s => s.core.writers false = .refused 7 ∧
        s.core.claimed - s.core.consumed < (Config.cap ⟨2, by decide⟩).val) (by decide +kernel)
    exact fun hall => not_fullDuring hrun hroom
      (hall s past (hrun.mono fun _ _ _ => trivial) hpc)

end Both
end P5G
