import P5G.Numbered
import P5G.Sender.Grid

/-!
# The capture grid of the gstreamer sender

`GridVideoSource::Loop` of video_source.h with the two emitters, as a machine of the
grid thread, the clock, `RequestStop` and what appsrc answers to a push.
-/

namespace P5G
namespace Gst

open Sender (Reading)

def frameIntervalUs (fps : Int) : Nat := if 0 < fps then 1000000 / fps.toNat else 33333

/-- A source with its frames opened, and where running time 0 is. -/
structure VideoSource where
  intervalUs : Nat
  startMonoNs : Int
  count : Nat
  count_pos : 0 < count
  width : Int
  height : Int

structure CaptureFrameRow where
  frameIdx : Nat
  gridSlot : Nat
  srcFrameIdx : Nat
  rtpTs : UInt32
  captureWallNs : Int
  captureMonoNs : Nat
  width : Int
  height : Int
  toEncoder : Bool

/-- `RtpTsFromRunningTime`; the scaled value of a 64-bit time is never too large. -/
def rtpTsFromRunningTime (runningTimeNs : UInt64) : UInt32 :=
  UInt32.ofNat (runningTimeNs.toNat * 90000 / 1000000000)

def VideoSource.pts (v : VideoSource) (targetUs : Nat) : UInt64 :=
  UInt64.ofInt (targetUs * 1000 - v.startMonoNs)

/-- A buffer appsrc has taken: its slot, and the readings of its turn before the push. -/
structure Pushed where
  slot : Nat
  readings : List Nat

inductive Pc where
  | begin
  | loop
  | sleep
  | catchUp
  | capture
  | push
  | last
  | drain
  | done
  deriving DecidableEq

/-- The locals of `Loop` and the members it uses.  `first`, the readings of the turn
and `cut`, whether its catch-up was left with slots to go, are not in the source. -/
structure State where
  pc : Pc
  clock : Nat
  running : Bool
  first : Nat
  slot : Nat
  idx : Nat
  targetUs : Nat
  nowUs : Nat
  resume : Nat
  readings : List Nat
  cut : Bool
  captured : Reading
  frames : List CaptureFrameRow
  pushes : List Pushed
  pushed : Nat
  skipped : Nat
  lastPushedTs : UInt32

variable (v : VideoSource)

def init : State where
  pc := .begin
  clock := 0
  running := true
  first := 0
  slot := 0
  idx := 0
  targetUs := 0
  nowUs := 0
  resume := 0
  readings := []
  cut := false
  captured := ⟨0, 0⟩
  frames := []
  pushes := []
  pushed := 0
  skipped := 0
  lastPushedTs := 0

/-- `EmitMissedSlot`, and the `++slot` of the loops that call it. -/
def State.emitMissedSlot (s : State) (now : Reading) : State :=
  { s with
    frames := s.frames ++
      [⟨s.idx, s.slot, s.idx % v.count, rtpTsFromRunningTime (v.pts (s.slot * v.intervalUs)),
        now.wall, now.mono, v.width, v.height, false⟩]
    readings := s.readings ++ [now.mono / 1000]
    idx := s.idx + 1
    slot := s.slot + 1
    skipped := s.skipped + 1 }

/-- `EmitSlot` from the push on, and the `++slot` of the loop.  `ok` is whether appsrc
takes the buffer. -/
def State.emitSlot (s : State) (ok : Bool) : State :=
  let rtpTs := rtpTsFromRunningTime (v.pts s.targetUs)
  { s with
    frames := s.frames ++
      [⟨s.idx, s.slot, s.idx % v.count, rtpTs, s.captured.wall, s.captured.mono, v.width, v.height,
        ok⟩]
    pushes := if ok then s.pushes ++ [⟨s.slot, s.readings⟩] else s.pushes
    pushed := if ok then s.pushed + 1 else s.pushed
    lastPushedTs := if ok then rtpTs else s.lastPushedTs
    idx := s.idx + 1
    slot := s.slot + 1
    pc := .loop }

/-- A step of the grid thread at a reading of the clocks.  A division by zero is no
step, and the sleep does not end before its target. -/
def State.grid (s : State) (now : Reading) : Option State :=
  match s.pc with
  | .begin =>
    if v.intervalUs = 0 then none
    else
      let slot := now.mono / 1000 / v.intervalUs + 1
      some { s with first := slot, slot := slot, idx := 0, pc := .loop }
  | .loop =>
    if s.running then
      some { s with targetUs := s.slot * v.intervalUs, readings := [], pc := .sleep }
    else some { s with pc := .last }
  | .sleep =>
    let nowUs := now.mono / 1000
    if nowUs < s.targetUs then none
    else if (s.slot + 1) * v.intervalUs ≤ nowUs then
      if v.intervalUs = 0 then none
      else
        some { s with
          nowUs := nowUs
          resume := nowUs / v.intervalUs
          readings := [nowUs]
          pc := .catchUp }
    else some { s with nowUs := nowUs, readings := [nowUs], cut := false, pc := .capture }
  | .catchUp =>
    if s.slot < s.resume ∧ s.running then some (s.emitMissedSlot v now)
    else
      some { s with
        targetUs := s.slot * v.intervalUs
        cut := s.slot < s.resume
        pc := .capture }
  | .capture =>
    some { s with captured := now, readings := s.readings ++ [now.mono / 1000], pc := .push }
  | .push => none
  | .last => some { s with nowUs := now.mono / 1000, pc := .drain }
  | .drain =>
    if (s.slot + 1) * v.intervalUs ≤ s.nowUs then some (s.emitMissedSlot v now)
    else some { s with pc := .done }
  | .done => none

/-- `RequestStop`, a step of the grid thread at a reading, or the answer of appsrc. -/
inductive Act where
  | requestStop
  | grid (now : Reading)
  | push (ok : Bool)

def step (s : State) : Act → Option State
  | .requestStop => some { s with running := false }
  | .grid now => if now.mono < s.clock then none else { s with clock := now.mono }.grid v now
  | .push ok => if s.pc = .push then some (s.emitSlot v ok) else none

def machine : Machine State Act := ⟨init, step v⟩

/-- The steps one by one, with the conditions the code tests. -/
inductive Moves (v : VideoSource) (s : State) : Act → State → Prop
  | requestStop : Moves v s .requestStop { s with running := false }
  | begin {now : Reading} {slot : Nat} : s.pc = .begin →
      Moves v s (.grid now)
        { s with clock := now.mono, first := slot, slot := slot, idx := 0, pc := .loop }
  | loop {now : Reading} : s.pc = .loop →
      Moves v s (.grid now)
        { s with
          clock := now.mono
          targetUs := s.slot * v.intervalUs
          readings := []
          pc := .sleep }
  | leave {now : Reading} : s.pc = .loop →
      Moves v s (.grid now) { s with clock := now.mono, pc := .last }
  | inTime {now : Reading} : s.pc = .sleep → s.targetUs ≤ now.mono / 1000 →
      now.mono / 1000 < (s.slot + 1) * v.intervalUs →
      Moves v s (.grid now)
        { s with
          clock := now.mono
          nowUs := now.mono / 1000
          readings := [now.mono / 1000]
          cut := false
          pc := .capture }
  | behind {now : Reading} : s.pc = .sleep → s.targetUs ≤ now.mono / 1000 →
      (s.slot + 1) * v.intervalUs ≤ now.mono / 1000 → v.intervalUs ≠ 0 →
      Moves v s (.grid now)
        { s with
          clock := now.mono
          nowUs := now.mono / 1000
          resume := now.mono / 1000 / v.intervalUs
          readings := [now.mono / 1000]
          pc := .catchUp }
  | skip {now : Reading} : s.pc = .catchUp → s.slot < s.resume →
      Moves v s (.grid now) ({ s with clock := now.mono }.emitMissedSlot v now)
  | caughtUp {now : Reading} : s.pc = .catchUp → (s.running = true → s.resume ≤ s.slot) →
      Moves v s (.grid now)
        { s with
          clock := now.mono
          targetUs := s.slot * v.intervalUs
          cut := s.slot < s.resume
          pc := .capture }
  | capture {now : Reading} : s.pc = .capture →
      Moves v s (.grid now)
        { s with
          clock := now.mono
          captured := now
          readings := s.readings ++ [now.mono / 1000]
          pc := .push }
  | push {ok : Bool} : s.pc = .push → Moves v s (.push ok) (s.emitSlot v ok)
  | last {now : Reading} : s.pc = .last →
      Moves v s (.grid now) { s with clock := now.mono, nowUs := now.mono / 1000, pc := .drain }
  | drain {now : Reading} : s.pc = .drain →
      Moves v s (.grid now) ({ s with clock := now.mono }.emitMissedSlot v now)
  | finish {now : Reading} : s.pc = .drain → s.nowUs < (s.slot + 1) * v.intervalUs →
      Moves v s (.grid now) { s with clock := now.mono, pc := .done }

variable {v} {s s' : State} {a : Act}

theorem grid_moves {now : Reading} (h : { s with clock := now.mono }.grid v now = some s') :
    Moves v s (.grid now) s' := by
  cases hpc : s.pc with
  | begin =>
    simp only [State.grid, hpc] at h
    split at h
    · cases h
    · cases h
      exact .begin hpc
  | loop =>
    simp only [State.grid, hpc] at h
    split at h
    · cases h
      exact .loop hpc
    · cases h
      exact .leave hpc
  | sleep =>
    simp only [State.grid, hpc] at h
    split at h
    · cases h
    · next htarget =>
      split at h
      · next hlate =>
        split at h
        · cases h
        · next hne =>
          cases h
          exact .behind hpc (Nat.not_lt.mp htarget) hlate hne
      · next hlate =>
        cases h
        exact .inTime hpc (Nat.not_lt.mp htarget) (Nat.not_le.mp hlate)
  | catchUp =>
    simp only [State.grid, hpc] at h
    split at h
    · next hslot =>
      cases h
      simpa only [hpc] using Moves.skip (v := v) hpc hslot.1
    · next hslot =>
      cases h
      exact .caughtUp hpc fun hrun => Nat.not_lt.mp fun hlt => hslot ⟨hlt, hrun⟩
  | capture =>
    simp only [State.grid, hpc] at h
    cases h
    exact .capture hpc
  | push =>
    simp only [State.grid, hpc] at h
    cases h
  | last =>
    simp only [State.grid, hpc] at h
    cases h
    exact .last hpc
  | drain =>
    simp only [State.grid, hpc] at h
    split at h
    · cases h
      simpa only [hpc] using Moves.drain (v := v) hpc
    · next hend =>
      cases h
      exact .finish hpc (Nat.not_le.mp hend)
  | done =>
    simp only [State.grid, hpc] at h
    cases h

theorem step_moves (h : step v s a = some s') : Moves v s a s' := by
  cases a with
  | requestStop =>
    cases h
    exact .requestStop
  | grid now =>
    rw [step] at h
    split at h
    · cases h
    · exact grid_moves h
  | push ok =>
    rw [step] at h
    split at h
    · next hpc =>
      cases h
      exact .push hpc
    · cases h

end Gst
end P5G
