import P5G.Trace.TraceRing
import P5G.Trace.Frame

/-!
# The trace ring of the patched gNB

`trace_ring::write`, `flush` and `close` of p5g_gnb_tracer.h with the
`flush_loop` and `shutdown` of the tracer that owns the ring.  The tracer runs
the same steps for each of its rings; a run here is what one of them sees.
-/

namespace P5G
namespace GnbTracer

open SlotRing

/-- Where a thread stands in an `on_*` emitter and the `write` it calls. -/
inductive CallPc (Row : Type*) where
  | idle
  | loadActive (r : Row)
  | loadClosed (r : Row)
  | claiming
  deriving DecidableEq

/-- `flush_loop`. -/
inductive FlusherPc where
  | loadRunning
  | sleeping
  | flushing
  | exited
  deriving DecidableEq

/-- `shutdown`, with the `close` of the ring and its `flush(true)`.  The
destructor of the tracer calls `shutdown` once more. -/
inductive ShutdownPc where
  | notCalled
  | exchangeActive
  | stopRunning
  | join
  | exchangeClosed
  | finalFlush
  | loadOverflow (m e : Nat)
  | writeFooter (m e ov : Nat)
  | returned
  deriving DecidableEq

/-- `finalEnd` and `finalOverflow` are history: the `claimed` and the `overflow`
that the final flush read. -/
structure State (T Row : Type*) where
  core : Core T Row
  overflow : Nat
  active : Bool
  closed : Bool
  running : Bool
  calls : T → CallPc Row
  flusher : FlusherPc
  shutdown : ShutdownPc
  file : List (TraceLine Row)
  sidecar : Option (List (String × Nat))
  finalEnd : Option Nat
  finalOverflow : Option Nat

inductive Act (T Row : Type*) where
  | emit (t : T) (r : Row)
  | producer (t : T) (spurious : Bool)
  | flusher
  | callShutdown
  | shutdown

variable {T Row : Type*} [DecidableEq T]

def init (header : String) (memory : Nat → Row) : State T Row where
  core := Core.empty memory
  overflow := 0
  active := true
  closed := false
  running := true
  calls := fun _ => .idle
  flusher := .loadRunning
  shutdown := .notCalled
  file := [.header header]
  sidecar := none
  finalEnd := none
  finalOverflow := none

namespace State

variable (cap : Capacity) (s : State T Row)

def setCall (t : T) (pc : CallPc Row) : State T Row :=
  { s with calls := Function.update s.calls t pc }

/-- The emitter and `write`, one step. -/
def writeStep (t : T) (spurious : Bool) : Option (State T Row) :=
  match s.calls t with
  | .idle => none
  | .loadActive r => some (s.setCall t (if s.active then .loadClosed r else .idle))
  | .loadClosed r =>
    if s.closed then some (s.setCall t .idle)
    else (s.core.step cap (.enter t r)).map fun c => { s.setCall t .claiming with core := c }
  | .claiming =>
    (s.core.step cap (.writer t spurious)).map fun c =>
      match s.core.writers t with
      | .refused _ => { s.setCall t .idle with core := c, overflow := s.overflow + 1 }
      | .publish _ _ => { s.setCall t .idle with core := c }
      | _ => { s with core := c }

/-- One step inside `flush`: the ring's step, and the row line it formats. -/
def flushStep (final : Bool) : Option (State T Row) :=
  (s.core.step cap (.pass final)).map fun c =>
    match s.core.drain with
    | .format m _ =>
      { s with core := c, file := s.file ++ [.row (s.core.slots (cap.index m)).row] }
    | _ => { s with core := c }

/-- `flush_loop`, one step. -/
def flushLoopStep : Option (State T Row) :=
  match s.flusher with
  | .loadRunning => some { s with flusher := if s.running then .sleeping else .exited }
  | .sleeping =>
    (s.core.step cap .beginPass).map fun c => { s with core := c, flusher := .flushing }
  | .flushing =>
    match s.core.drain with
    | .out => some { s with flusher := .loadRunning }
    | .ended _ _ =>
      (s.core.step cap .endPass).map fun c => { s with core := c, flusher := .loadRunning }
    | _ => s.flushStep cap false
  | .exited => none

/-- `shutdown`, one step. -/
def shutdownStep (bootId : String) : Option (State T Row) :=
  match s.shutdown with
  | .notCalled => none
  | .exchangeActive =>
    if s.active then some { s with active := false, shutdown := .stopRunning }
    else some { s with shutdown := .returned }
  | .stopRunning => some { s with running := false, shutdown := .join }
  | .join => if s.flusher = .exited then some { s with shutdown := .exchangeClosed } else none
  | .exchangeClosed =>
    if s.closed then some { s with shutdown := .returned }
    else (s.core.step cap .beginPass).map fun c =>
      { s with core := c, closed := true, shutdown := .finalFlush }
  | .finalFlush =>
    match s.core.drain with
    | .ended m e =>
      (s.core.step cap .endPass).map fun c => { s with core := c, shutdown := .loadOverflow m e }
    | .loadClaimed _ =>
      (s.flushStep cap true).map fun s' => { s' with finalEnd := some s.core.claimed }
    | _ => s.flushStep cap true
  | .loadOverflow m e =>
    some { s with shutdown := .writeFooter m e s.overflow, finalOverflow := some s.overflow }
  | .writeFooter _ _ ov =>
    some { s with
      shutdown := .returned
      file := s.file ++ [.footer [("rows", s.core.written), ("overflow", ov)] (some bootId)]
      sidecar := if ov ≠ 0 then some [("overflow", ov)] else s.sidecar }
  | .returned => none

def step (bootId : String) : Act T Row → Option (State T Row)
  | .emit t r =>
    match s.calls t with
    | .idle => some (s.setCall t (.loadActive r))
    | _ => none
  | .producer t spurious => s.writeStep cap t spurious
  | .flusher => s.flushLoopStep cap
  | .callShutdown =>
    if s.shutdown = .notCalled ∨ s.shutdown = .returned then
      some { s with shutdown := .exchangeActive }
    else none
  | .shutdown => s.shutdownStep cap bootId

end State

def machine (cfg : Config) (header bootId : String) (memory : Nat → Row) :
    Machine (State T Row) (Act T Row) where
  init := init header memory
  step := fun s a => s.step cfg.cap bootId a

section Ring

variable {cap : Capacity} {s s' : State T Row} {bootId header : String}

theorem flushStep_eq {final : Bool} (h : s.flushStep cap final = some s') :
    s.core.step cap (.pass final) = some s'.core ∧
      s' = { s with core := s'.core, file := s'.file } := by
  simp only [State.flushStep] at h
  obtain ⟨c, hc, rfl⟩ := Option.map_eq_some_iff.mp h
  split <;> exact ⟨hc, rfl⟩

/-- Each step is one step of the ring, a writer's only if a producer moves, or
leaves the ring alone. -/
theorem core_step {a : Act T Row} (h : s.step cap bootId a = some s') :
    s'.core = s.core ∨ ∃ b, s.core.step cap b = some s'.core ∧
      ∀ t spurious, b = .writer t spurious → a = .producer t spurious := by
  cases a with
  | emit t r =>
    simp only [State.step] at h
    split at h <;> cases h
    exact .inl rfl
  | producer t spurious =>
    simp only [State.step, State.writeStep] at h
    split at h
    · cases h
    · cases h
      exact .inl rfl
    · split at h
      · cases h
        exact .inl rfl
      · obtain ⟨c, hc, rfl⟩ := Option.map_eq_some_iff.mp h
        exact .inr ⟨_, hc, nofun⟩
    · obtain ⟨c, hc, rfl⟩ := Option.map_eq_some_iff.mp h
      refine .inr ⟨.writer t spurious, ?_, fun u p e => ?_⟩
      · split <;> exact hc
      · cases e
        rfl
  | flusher =>
    simp only [State.step, State.flushLoopStep] at h
    split at h
    · cases h
      exact .inl rfl
    · obtain ⟨c, hc, rfl⟩ := Option.map_eq_some_iff.mp h
      exact .inr ⟨_, hc, nofun⟩
    · split at h
      · cases h
        exact .inl rfl
      · obtain ⟨c, hc, rfl⟩ := Option.map_eq_some_iff.mp h
        exact .inr ⟨_, hc, nofun⟩
      · exact .inr ⟨_, (flushStep_eq h).1, nofun⟩
    · cases h
  | callShutdown =>
    simp only [State.step] at h
    split at h <;> cases h
    exact .inl rfl
  | shutdown =>
    simp only [State.step, State.shutdownStep] at h
    split at h
    case h_1 => cases h
    case h_2 => split at h <;> cases h <;> exact .inl rfl
    case h_3 => cases h; exact .inl rfl
    case h_4 => split at h <;> cases h; exact .inl rfl
    case h_5 =>
      split at h
      · cases h
        exact .inl rfl
      · obtain ⟨c, hc, rfl⟩ := Option.map_eq_some_iff.mp h
        exact .inr ⟨_, hc, nofun⟩
    case h_6 =>
      split at h
      · obtain ⟨c, hc, rfl⟩ := Option.map_eq_some_iff.mp h
        exact .inr ⟨_, hc, nofun⟩
      · obtain ⟨x, hx, rfl⟩ := Option.map_eq_some_iff.mp h
        exact .inr ⟨_, (flushStep_eq hx).1, nofun⟩
      · exact .inr ⟨_, (flushStep_eq h).1, nofun⟩
    case h_7 => cases h; exact .inl rfl
    case h_8 => cases h; exact .inl rfl
    case h_9 => cases h

theorem refines_core (cfg : Config) (header bootId : String) (memory : Nat → Row) :
    (machine (T := T) cfg header bootId memory).Refines (coreMachine cfg.cap memory)
      State.core :=
  ⟨rfl, fun _ _ _ _ h => (core_step h).imp_right fun ⟨b, hb, _⟩ => ⟨b, hb⟩⟩

theorem core_inv {cfg : Config} {memory : Nat → Row}
    (h : (machine (T := T) cfg header bootId memory).Reachable s) :
    Core.Inv cfg.cap s.core :=
  Core.reachable_inv ((refines_core cfg header bootId memory).reachable h)

end Ring

end GnbTracer
end P5G
