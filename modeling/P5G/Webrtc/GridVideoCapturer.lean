import Mathlib
import P5G.Machine
import P5G.Numbered
import P5G.Sender.Grid

/-!
# The capture grid of the WebRTC sender

`GridVideoCapturer` of webrtc/apps/common/video_source.h.  Nobody but the capture
thread writes its state, so one turn of `Loop` is one step: the reading after the sleep,
whether a sink wants frames, what the adapter decides and the readings of `EmitSlot` are
the environment's.  A stop is a turn that does not come.
-/

namespace P5G
namespace Webrtc

open Sender (Reading)

def frameIntervalUs (fps : Int) : Nat := if 0 < fps then 1000000 / fps.toNat else 33333

theorem frameIntervalUs_pos {fps : Int} (h : fps ≤ 1000000) : 0 < frameIntervalUs fps := by
  rw [frameIntervalUs]
  split
  · apply Nat.div_pos
    · omega
    · omega
  · decide

/-- A source with its frames opened.  An interval of 0, which more than a million frames a
second give, ends in a division by zero before the first frame. -/
structure GridVideoCapturer where
  width : Int
  height : Int
  intervalUs : Nat
  interval_pos : 0 < intervalUs
  count : Nat
  count_pos : 0 < count
  ntpDeltaMs : Int

/-- What `AdaptFrameResolution` answers. -/
structure Adapted where
  toEncoder : Bool
  outW : Int
  outH : Int

/-- A row of tx-frames.  The reading the thread woke up with and the capture time in NTP
milliseconds are not columns. -/
structure CaptureFrameRow where
  frameIdx : Nat
  gridSlot : Nat
  srcFrameIdx : Nat
  rtpTs : UInt32
  captured : Reading
  width : Int
  height : Int
  toEncoder : Bool
  wokeUs : Nat
  ntpMs : Int

structure Forwarded where
  srcFrameIdx : Nat
  timestampUs : Nat
  ntpTimeMs : Int
  width : Int
  height : Int

structure CaptureState where
  started : Bool
  clock : Nat
  slot : Nat
  idx : Nat
  lastNtpMs : Int
  frames : List CaptureFrameRow
  forwarded : List Forwarded

inductive CaptureAct where
  | start (mono : Nat)
  | turn (mono : Nat) (wanted : Bool) (adapted : Adapted) (captured : Reading)

/-- The RTP timestamp libwebrtc gives to a frame with this capture time. -/
def rtpTsOfNtp (ntpMs : Int) : UInt32 := 90 * UInt32.ofInt ntpMs

theorem toNat_rtpTsOfNtp (x : Int) : ((rtpTsOfNtp x).toNat : Int) = 90 * x % 2 ^ 32 := by
  have hofInt : ((UInt32.ofInt x).toNat : Int) = x % 2 ^ 32 := by
    rw [UInt32.ofInt, UInt32.toNat_ofNat']
    omega
  rw [rtpTsOfNtp, UInt32.toNat_mul]
  show ((90 * (UInt32.ofInt x).toNat % 2 ^ 32 : Nat) : Int) = _
  omega

/-- Equal timestamps are capture times a multiple of 2^31 milliseconds apart. -/
theorem rtpTsOfNtp_eq_iff (a b : Int) : rtpTsOfNtp a = rtpTsOfNtp b ↔ (2 ^ 31 : Int) ∣ a - b := by
  have ha := toNat_rtpTsOfNtp a
  have hb := toNat_rtpTsOfNtp b
  constructor
  · intro heq
    rw [heq, hb] at ha
    omega
  · intro hdvd
    apply UInt32.toNat_inj.mp
    omega

namespace GridVideoCapturer

variable (v : GridVideoCapturer)

def wokenSlot (slot nowUs : Nat) : Nat :=
  if (slot + 1) * v.intervalUs ≤ nowUs then nowUs / v.intervalUs else slot

/-- `ntp_ms`, kept above the one before. -/
def nextNtpMs (targetUs : Nat) (last : Int) : Int :=
  let ntp := (targetUs / 1000 : Nat) + v.ntpDeltaMs
  if ntp ≤ last then last + 1 else ntp

def emitSlot (s : CaptureState) (slot nowUs : Nat) (adapted : Adapted) (captured : Reading) :
    CaptureState :=
  let targetUs := slot * v.intervalUs
  let ntp := v.nextNtpMs targetUs s.lastNtpMs
  let outW := if adapted.toEncoder then adapted.outW else v.width
  let outH := if adapted.toEncoder then adapted.outH else v.height
  { s with
    idx := s.idx + 1
    lastNtpMs := ntp
    frames := s.frames ++
      [⟨s.idx, slot, s.idx % v.count, rtpTsOfNtp ntp, captured, outW, outH, adapted.toEncoder, nowUs,
        ntp⟩]
    forwarded :=
      if adapted.toEncoder then s.forwarded ++ [⟨s.idx % v.count, targetUs, ntp, outW, outH⟩]
      else s.forwarded }

def step (s : CaptureState) : CaptureAct → Option CaptureState
  | .start mono =>
    if s.started ∨ mono < s.clock then none
    else some { s with started := true, clock := mono, slot := mono / 1000 / v.intervalUs + 1 }
  | .turn mono wanted adapted captured =>
    let nowUs := mono / 1000
    -- the sleep is to an absolute time and goes on after a signal
    if ¬s.started ∨ mono < s.clock ∨ captured.mono < mono ∨ nowUs < s.slot * v.intervalUs then none
    else
      let slot := v.wokenSlot s.slot nowUs
      let s := { s with clock := captured.mono, slot := slot + 1 }
      some (if wanted then v.emitSlot s slot nowUs adapted captured else s)

def machine : Machine CaptureState CaptureAct :=
  ⟨⟨false, 0, 0, 0, 0, [], []⟩, v.step⟩

variable {v} {s s' : CaptureState}

/-- What a turn can do. -/
theorem step_turn {mono : Nat} {wanted : Bool} {adapted : Adapted} {captured : Reading}
    (h : v.step s (.turn mono wanted adapted captured) = some s') :
    ∃ slot, s.slot ≤ slot ∧ slot = mono / 1000 / v.intervalUs ∧
      (s' = { s with clock := captured.mono, slot := slot + 1 } ∨
        s' = v.emitSlot { s with clock := captured.mono, slot := slot + 1 } slot (mono / 1000) adapted
          captured) := by
  rw [step] at h
  split at h
  · cases h
  · next hok =>
    simp only [not_or, not_lt] at hok
    obtain ⟨-, -, -, htarget⟩ := hok
    have hpos := v.interval_pos
    have hslot : v.wokenSlot s.slot (mono / 1000) = mono / 1000 / v.intervalUs := by
      rw [wokenSlot]
      split
      · rfl
      · next hin =>
        exact (Nat.div_eq_of_lt_le htarget (Nat.not_le.mp hin)).symm
    have hle : s.slot ≤ v.wokenSlot s.slot (mono / 1000) := by
      rw [hslot]
      exact (Nat.le_div_iff_mul_le hpos).mpr htarget
    cases h
    refine ⟨_, hle, hslot, ?_⟩
    split
    · right
      rfl
    · left
      rfl

structure RowOk (v : GridVideoCapturer) (r : CaptureFrameRow) : Prop where
  slot : r.gridSlot = r.wokeUs / v.intervalUs
  src : r.srcFrameIdx = r.frameIdx % v.count
  rtpTs : r.rtpTs = rtpTsOfNtp r.ntpMs
  ntp : (r.gridSlot * v.intervalUs / 1000 : Nat) + v.ntpDeltaMs ≤ r.ntpMs
  onGrid : 1000 ≤ v.intervalUs → 0 ≤ v.ntpDeltaMs →
    r.ntpMs = (r.gridSlot * v.intervalUs / 1000 : Nat) + v.ntpDeltaMs

def forward (v : GridVideoCapturer) (r : CaptureFrameRow) : Forwarded :=
  ⟨r.srcFrameIdx, r.gridSlot * v.intervalUs, r.ntpMs, r.width, r.height⟩

structure Captures (v : GridVideoCapturer) (s : CaptureState) : Prop where
  count : s.idx = s.frames.length
  numbered : Numbered CaptureFrameRow.frameIdx 0 s.frames
  rows : ∀ r ∈ s.frames, RowOk v r
  slots : s.frames.Pairwise fun r r' => r.gridSlot < r'.gridSlot
  below : ∀ r ∈ s.frames, r.gridSlot < s.slot
  ntps : s.frames.Pairwise fun r r' => r.ntpMs < r'.ntpMs
  last : ∀ r ∈ s.frames, r.ntpMs ≤ s.lastNtpMs
  forwarded : s.forwarded = (s.frames.filter CaptureFrameRow.toEncoder).map v.forward
  /-- The last row, when the repair of `ntp_ms` has had no reason yet. -/
  lastOnGrid : 1000 ≤ v.intervalUs → 0 ≤ v.ntpDeltaMs → s.started = true →
    0 < s.slot ∧ s.lastNtpMs ≤ ((s.slot - 1) * v.intervalUs / 1000 : Nat) + v.ntpDeltaMs
  unstarted : s.started = false → s.frames = [] ∧ s.lastNtpMs = 0

theorem nextNtpMs_gt (v : GridVideoCapturer) (targetUs : Nat) (last : Int) :
    last < v.nextNtpMs targetUs last := by
  rw [nextNtpMs]
  split <;> omega

theorem le_nextNtpMs (v : GridVideoCapturer) (targetUs : Nat) (last : Int) :
    (targetUs / 1000 : Nat) + v.ntpDeltaMs ≤ v.nextNtpMs targetUs last := by
  rw [nextNtpMs]
  split <;> omega

/-- A grid of at least `m` milliseconds moves on by at least `m` milliseconds. -/
theorem slot_milliseconds {i a b m : Nat} (hi : 1000 * m ≤ i) (h : a < b) :
    a * i / 1000 + m ≤ b * i / 1000 := by
  have hmul : (a + 1) * i ≤ b * i := Nat.mul_le_mul_right i h
  rw [Nat.add_mul, Nat.one_mul] at hmul
  have hadd : (a * i + 1000 * m) / 1000 ≤ b * i / 1000 := Nat.div_le_div_right (by omega)
  rw [Nat.add_mul_div_left _ _ (by decide)] at hadd
  exact hadd

theorem Captures.start {mono : Nat} (h : Captures v s) (hstart : v.step s (.start mono) = some s') :
    Captures v s' := by
  rw [step] at hstart
  split at hstart
  · cases hstart
  · next hok =>
    rw [not_or] at hok
    obtain ⟨hnil, hlast⟩ := h.unstarted (by simpa using hok.1)
    cases hstart
    refine
      { count := h.count, numbered := h.numbered, rows := h.rows, slots := h.slots, ntps := h.ntps,
        last := h.last, forwarded := h.forwarded, below := ?_, lastOnGrid := ?_, unstarted := ?_ }
    · intro r hr
      rw [hnil] at hr
      cases hr
    · intro hms hdelta _
      refine ⟨Nat.succ_pos _, ?_⟩
      show s.lastNtpMs ≤ _
      rw [hlast]
      positivity
    · intro hfalse
      cases hfalse

/-- A turn in which no sink wants frames. -/
theorem Captures.skip {clock slot : Nat} (h : Captures v s) (hstarted : s.started = true)
    (hle : s.slot ≤ slot) : Captures v { s with clock := clock, slot := slot + 1 } where
  count := h.count
  numbered := h.numbered
  rows := h.rows
  slots := h.slots
  below r hr := Nat.lt_of_lt_of_le (h.below r hr) (Nat.le_succ_of_le hle)
  ntps := h.ntps
  last := h.last
  forwarded := h.forwarded
  lastOnGrid hms hdelta _ := by
    obtain ⟨hpos, hlast⟩ := h.lastOnGrid hms hdelta hstarted
    refine ⟨Nat.succ_pos _, ?_⟩
    have hmono : (s.slot - 1) * v.intervalUs / 1000 ≤ slot * v.intervalUs / 1000 :=
      Nat.div_le_div_right (Nat.mul_le_mul_right _ (by omega))
    show s.lastNtpMs ≤ (slot * v.intervalUs / 1000 : Nat) + v.ntpDeltaMs
    omega
  unstarted hfalse := h.unstarted hfalse

theorem Captures.emitSlot {clock slot nowUs : Nat} {adapted : Adapted} {captured : Reading}
    (h : Captures v s) (hstarted : s.started = true) (hle : s.slot ≤ slot)
    (hslot : slot = nowUs / v.intervalUs) :
    Captures v
      (v.emitSlot { s with clock := clock, slot := slot + 1 } slot nowUs adapted captured) := by
  have hgt := nextNtpMs_gt v (slot * v.intervalUs) s.lastNtpMs
  have hge := le_nextNtpMs v (slot * v.intervalUs) s.lastNtpMs
  -- on a grid of a millisecond or more the slot's own time is above the last one's
  have hgrid : 1000 ≤ v.intervalUs → 0 ≤ v.ntpDeltaMs →
      v.nextNtpMs (slot * v.intervalUs) s.lastNtpMs =
        (slot * v.intervalUs / 1000 : Nat) + v.ntpDeltaMs := by
    intro hms hdelta
    obtain ⟨hpos, hlast⟩ := h.lastOnGrid hms hdelta hstarted
    have hstep := slot_milliseconds (m := 1) hms (show s.slot - 1 < slot by omega)
    rw [nextNtpMs]
    split
    · omega
    · rfl
  refine
    { count := ?_, numbered := ?_, rows := ?_, slots := ?_, below := ?_, ntps := ?_, last := ?_,
      forwarded := ?_, lastOnGrid := ?_, unstarted := ?_ }
  · show s.idx + 1 = (s.frames ++ [_]).length
    rw [List.length_append, List.length_singleton, h.count]
  · exact h.numbered.concat (by rw [Nat.zero_add]; exact h.count)
  · intro r hr
    rcases List.mem_append.mp hr with hold | hnew
    · exact h.rows r hold
    · rw [List.mem_singleton.mp hnew]
      exact ⟨hslot, rfl, rfl, hge, hgrid⟩
  · refine List.pairwise_append.mpr ⟨h.slots, List.pairwise_singleton _ _, ?_⟩
    intro r hr x hx
    rw [List.mem_singleton.mp hx]
    exact Nat.lt_of_lt_of_le (h.below r hr) hle
  · intro r hr
    rcases List.mem_append.mp hr with hold | hnew
    · exact Nat.lt_of_lt_of_le (h.below r hold) (Nat.le_succ_of_le hle)
    · rw [List.mem_singleton.mp hnew]
      exact Nat.lt_succ_self slot
  · refine List.pairwise_append.mpr ⟨h.ntps, List.pairwise_singleton _ _, ?_⟩
    intro r hr x hx
    rw [List.mem_singleton.mp hx]
    exact Int.lt_of_le_of_lt (h.last r hr) hgt
  · intro r hr
    rcases List.mem_append.mp hr with hold | hnew
    · exact Int.le_of_lt (Int.lt_of_le_of_lt (h.last r hold) hgt)
    · rw [List.mem_singleton.mp hnew]
      exact Int.le_refl _
  · show (if adapted.toEncoder then _ else _) = _
    rw [GridVideoCapturer.emitSlot, List.filter_append, List.map_append, ← h.forwarded]
    cases adapted.toEncoder with
    | true => rfl
    | false => exact (List.append_nil _).symm
  · intro hms hdelta _
    exact ⟨Nat.succ_pos _, Int.le_of_eq (hgrid hms hdelta)⟩
  · intro hfalse
    have hfalse : s.started = false := hfalse
    rw [hstarted] at hfalse
    cases hfalse

theorem captures_reachable (h : v.machine.Reachable s) : Captures v s := by
  refine Machine.Reachable.invariant ?_ (fun s a s' hi hs => ?_) h
  · exact
      { count := rfl, numbered := .nil, rows := by simp [machine], slots := .nil,
        below := by simp [machine], ntps := .nil, last := by simp [machine], forwarded := rfl,
        lastOnGrid := by simp [machine], unstarted := fun _ => ⟨rfl, rfl⟩ }
  · cases a with
    | start mono => exact hi.start hs
    | turn mono wanted adapted captured =>
      have hstarted : s.started = true := by
        by_contra hne
        have hs : v.step s (.turn mono wanted adapted captured) = some s' := hs
        rw [step, if_pos (Or.inl hne)] at hs
        cases hs
      obtain ⟨slot, hle, hslot, rfl | rfl⟩ := step_turn hs
      · exact hi.skip hstarted hle
      · exact hi.emitSlot hstarted hle hslot

/-- In every run, whatever the thread oversleeps and the adapter decides: the rows are
numbered from 0, each is of the slot the thread woke up in, slots and capture times grow, a
row's timestamp is that of its capture time, which is the slot's own time where the grid is
not finer than a millisecond, the frames forwarded are those of the rows with to_encoder,
and two rows share a timestamp only at capture times a multiple of 2^31 ms apart. -/
theorem capture_rows (h : v.machine.Reachable s) :
    Numbered CaptureFrameRow.frameIdx 0 s.frames ∧
    (s.frames.Pairwise fun r r' => r.gridSlot < r'.gridSlot) ∧
    (s.frames.Pairwise fun r r' => r.ntpMs < r'.ntpMs) ∧
    (∀ r ∈ s.frames, RowOk v r) ∧
    s.forwarded = (s.frames.filter CaptureFrameRow.toEncoder).map v.forward ∧
    ∀ r ∈ s.frames, ∀ r' ∈ s.frames,
      r.rtpTs = r'.rtpTs ↔ (2 ^ 31 : Int) ∣ r.ntpMs - r'.ntpMs := by
  have hi := captures_reachable h
  refine ⟨hi.numbered, hi.slots, hi.ntps, hi.rows, hi.forwarded, fun r hr r' hr' => ?_⟩
  rw [(hi.rows r hr).rtpTs, (hi.rows r' hr').rtpTs]
  exact rtpTsOfNtp_eq_iff _ _

end GridVideoCapturer

def pattern30 : GridVideoCapturer :=
  ⟨1280, 720, frameIntervalUs 30, frameIntervalUs_pos (by omega), 64, Nat.succ_pos 63, 3900000000000⟩

/-- On time, then two slots late and dropped by the adapter, then on time again. -/
def lateRun : List CaptureAct :=
  [.start 5000, .turn 33340000 true ⟨true, 1280, 720⟩ ⟨33341000, 0⟩,
    .turn 140000000 true ⟨false, 0, 0⟩ ⟨140001000, 0⟩,
    .turn 166670000 true ⟨true, 640, 360⟩ ⟨166671000, 0⟩]

theorem capture_rows_lateRun : ∃ s, pattern30.machine.Reachable s ∧
    s.frames.map CaptureFrameRow.gridSlot = [1, 4, 5] ∧ s.forwarded.length = 2 ∧
    s.frames.Pairwise fun r r' => r.gridSlot < r'.gridSlot := by
  obtain ⟨s, hs, hslots, hforwarded⟩ := Machine.exists_of_execBy (m := pattern30.machine)
    (G := fun _ _ => True) lateRun
    (P := fun s => s.frames.map CaptureFrameRow.gridSlot = [1, 4, 5] ∧ s.forwarded.length = 2)
    (by decide)
  exact ⟨s, hs, hslots, hforwarded, (GridVideoCapturer.capture_rows hs).2.1⟩

end Webrtc
end P5G
