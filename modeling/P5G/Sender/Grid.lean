import P5G.Machine
import P5G.Sender.Rungs

/-!
# The capture grid of the ffmpeg sender

`GridLoop` of video_sender.cc with what it calls, as a machine.  A step of the
grid thread runs to its next reading of a clock, of `running_` or of a rung, so
that a stop request and a profile can come between any two of them.  Times are
unbounded integers; a 64-bit count of microseconds does not wrap in a run.
-/

namespace P5G
namespace Sender

open AnnexB

structure Reading where
  mono : Nat
  wall : Int

/-- `NowMonoNs() / 1000` -/
def Reading.us (now : Reading) : Int := (now.mono / 1000 : Nat)

structure CaptureFrameRow where
  frameIdx : Int
  gridSlot : Int
  srcFrameIdx : Int
  rtpTs : UInt32
  captureWallNs : Int
  captureMonoNs : Nat
  width : Int
  height : Int
  toEncoder : Bool

/-- The columns of a tx-encoded row that are not constants. -/
structure EncodedFrameRow where
  rtpTs : UInt32
  encodeDoneMonoNs : Nat
  encodeDoneWallNs : Int
  bytes : Int32
  width : Int
  height : Int
  captureTimeMs : Int
  isIdr : Bool

structure EncoderRateRow where
  now : Reading
  targetBps : Int

/-- A tx-rtp row: its header columns, and the slot whose access unit it is of,
which is not a column. -/
structure RtpPacketRow where
  now : Reading
  header : RtpHeader
  pktBytes : Nat
  slot : Int

/-- A tx-rtcp row, by the packet it describes. -/
structure RtcpPacketRow where
  now : Reading
  packet : List UInt8

/-- A packet of the muxer, and whether the socket takes it. -/
structure Datagram where
  buf : List UInt8
  now : Reading
  sent : Bool

/-- What `WritePacket` reads and writes. -/
structure Wire where
  curPts : Int
  auSendFailed : Bool
  baseKnown : Bool
  wireBase : UInt32
  rtp : List RtpPacketRow
  rtcp : List RtcpPacketRow
  sendFail : Nat
  rtcpSendFail : Nat
  pktsSent : Nat
  bytesSent : Nat

def Wire.learn (w : Wire) (h : RtpHeader) : Wire :=
  if w.baseKnown then w
  else { w with wireBase := h.ts - UInt32.ofInt w.curPts, baseKnown := true }

/-- `WritePacket`; the destination is set before the grid starts. -/
def Wire.writePacket (slot : Int) (w : Wire) (p : Datagram) : Wire :=
  if isRtcp p.buf then
    if p.sent then { w with rtcp := w.rtcp ++ [⟨p.now, p.buf⟩] }
    else { w with rtcpSendFail := w.rtcpSendFail + 1 }
  else
    match parseRtp p.buf with
    | none => { w with sendFail := w.sendFail + 1 }
    | some h =>
      let w := w.learn h
      if p.sent then
        { w with
          rtp := w.rtp ++ [⟨p.now, h, p.buf.length, slot⟩]
          pktsSent := w.pktsSent + 1
          bytesSent := w.bytesSent + p.buf.length }
      else { w with sendFail := w.sendFail + 1, auSendFailed := true }

def Wire.rtpTsForPts (w : Wire) (pts : Int) : UInt32 := UInt32.ofInt pts + w.wireBase

/-! ## The state -/

/-- An access unit handed to the muxer.  The slot, the rung, the position in its
file and the reading the slot was picked at are not part of the packet. -/
structure Packet where
  slot : Int
  rung : Nat
  pos : Int
  nowUs : Int
  au : AccessUnit
  pts : Int

inductive Pc where
  | epoch
  | choose
  | loop
  | test
  | clock
  | woken
  | catchUp
  | check
  | want
  | switch
  | mux
  | last
  | drain
  | done
  deriving DecidableEq

/-- The members of `Sender` and the locals of `GridLoop` and `EmitSlot`.  `clock` is
the last reading of the monotonic clock and `first` the slot the loop begins at. -/
structure State where
  pc : Pc
  clock : Nat
  running : Bool
  wantRung : Nat
  curRung : Nat
  startUs : Int
  first : Int
  slot : Int
  idx : Int
  targetUs : Int
  nowUs : Int
  resume : Int
  capture : Reading
  want : Nat
  wire : Wire
  frames : List CaptureFrameRow
  encoded : List EncodedFrameRow
  rates : List EncoderRateRow
  handed : List Packet
  framesSent : Nat
  missed : Nat
  muxFail : Nat
  framesSendFailed : Nat
  lateStartSlots : Int

def startMarginNs : Int := 100000000

variable (c : Camera)

def init : State where
  pc := .epoch
  clock := 0
  running := true
  wantRung := c.start
  curRung := c.start
  startUs := 0
  first := 0
  slot := 0
  idx := 0
  targetUs := 0
  nowUs := 0
  resume := 0
  capture := ⟨0, 0⟩
  want := 0
  wire := ⟨0, false, false, 0, [], [], 0, 0, 0, 0⟩
  frames := []
  encoded := []
  rates := []
  handed := []
  framesSent := 0
  missed := 0
  muxFail := 0
  framesSendFailed := 0
  lateStartSlots := 0

def State.at (s : State) (slot : Int) : Int := s.startUs + slot * c.intervalUs

def State.rate (s : State) (rung : Nat) (now : Reading) : State :=
  { s with rates := s.rates ++ [⟨now, ((c.rungs[rung]?).elim 0 Rung.kbps) * 1000⟩] }

/-- `EmitMissed`, and the `++slot` of the loops that call it. -/
def State.emitMissed (s : State) (now : Reading) : State :=
  let pts := (s.slot * c.intervalUs * 90).tdiv 1000
  { s with
    frames := s.frames ++
      [⟨s.idx, s.slot, c.srcOf s.slot, s.wire.rtpTsForPts pts, now.wall, now.mono, c.width,
        c.height, false⟩]
    idx := s.idx + 1
    slot := s.slot + 1
    missed := s.missed + 1 }

/-- What the muxer makes of a packet: its calls of `WritePacket` and its answer. -/
structure Muxed where
  packets : List Datagram
  ret : Int

def State.pts (s : State) : Int := ((s.targetUs - s.startUs) * 90).tdiv 1000

/-- `av_write_frame` with the packets it writes on the way. -/
def State.write (s : State) (au : AccessUnit) (m : Muxed) : State :=
  { s with
    handed := s.handed ++ [⟨s.slot, s.curRung, c.fileIdx s.slot, s.nowUs, au, s.pts⟩]
    wire := m.packets.foldl (Wire.writePacket s.slot)
      { s.wire with curPts := s.pts, auSendFailed := false } }

/-- The rows of `EmitSlot` behind `av_write_frame`. -/
def State.log (s : State) (au : AccessUnit) (submitted : Bool) : State :=
  let rtpTs := s.wire.rtpTsForPts s.pts
  { s with
    frames := s.frames ++
      [⟨s.idx, s.slot, c.srcOf s.slot, rtpTs, s.capture.wall, s.capture.mono, c.width, c.height,
        submitted⟩]
    encoded :=
      if submitted then
        s.encoded ++
          [⟨rtpTs, s.capture.mono, s.capture.wall, au.bytes, c.width, c.height, s.pts.tdiv 90,
            au.isIdr⟩]
      else s.encoded
    framesSent := if submitted then s.framesSent + 1 else s.framesSent
    framesSendFailed :=
      if submitted ∧ s.wire.auSendFailed then s.framesSendFailed + 1 else s.framesSendFailed
    muxFail := if submitted then s.muxFail else s.muxFail + 1
    idx := s.idx + 1 }

/-- `EmitSlot` from the use of `cur_rung_` on, and the `++slot` of the loop. -/
def State.emitSlot (s : State) (m : Muxed) : Option State :=
  (c.au s.curRung (c.fileIdx s.slot)).map fun au =>
    { (s.write c au m).log c au (0 ≤ m.ret) with slot := s.slot + 1, pc := .loop }

def State.start (s : State) (slot : Int) (now : Reading) : State :=
  { s.rate c s.curRung now with first := slot, slot := slot, idx := 0, pc := .loop }

/-- The first slot: the next IDR slot when the start is late by a slot or more. -/
def State.choose (s : State) (now : Reading) : Option State :=
  c.firstIdrSlot.bind fun slot =>
    if s.startUs + c.intervalUs ≤ now.us then
      if c.intervalUs = 0 then none
      else
        let slot := max slot ((now.us - s.startUs).tdiv c.intervalUs + 1)
        (c.idrFrom slot c.first.aus.length).map fun slot =>
          { s.start c slot now with lateStartSlots := slot }
    else some (s.start c slot now)

/-- A step of the grid thread at a reading of the clocks.  A division by zero ends
the program and is no step. -/
def State.grid (s : State) (now : Reading) : Option State :=
  match s.pc with
  | .epoch =>
    let epochWall := if c.startWallNs ≠ 0 then c.startWallNs else now.wall + startMarginNs
    some { s with startUs := (now.mono - (now.wall - epochWall)).tdiv 1000, pc := .choose }
  | .choose => s.choose c now
  | .loop =>
    if s.running then some { s with targetUs := s.at c s.slot, pc := .test }
    else some { s with pc := .last }
  -- `SleepUntilMonoUs`: the flag, then the clock, until the target is reached
  | .test => some { s with pc := if s.running then .clock else .last }
  | .clock => some { s with pc := if s.targetUs ≤ now.us then .woken else .test }
  | .woken =>
    if s.at c (s.slot + 1) ≤ now.us then
      if c.intervalUs = 0 then none
      else
        some { s with
          nowUs := now.us
          resume := (now.us - s.startUs).tdiv c.intervalUs
          pc := .catchUp }
    else some { s with nowUs := now.us, pc := .check }
  | .catchUp =>
    if s.slot < s.resume ∧ s.running then some (s.emitMissed c now)
    else some { s with targetUs := s.at c s.slot, pc := .check }
  | .check => some { s with pc := if s.running then .want else .last }
  | .want => some { s with capture := now, want := s.wantRung, pc := .switch }
  | .switch =>
    if s.want ≠ s.curRung ∧ c.isIdr s.slot then
      some { s.rate c s.want now with curRung := s.want, pc := .mux }
    else some { s with pc := .mux }
  | .mux => none
  | .last => some { s with nowUs := now.us, pc := .drain }
  | .drain =>
    if s.at c (s.slot + 1) ≤ s.nowUs then some (s.emitMissed c now)
    else some { s with pc := .done }
  | .done => none

/-- A stop request, a profile, a step of the grid thread at a reading, or the
muxer's answer to it. -/
inductive Act where
  | stop
  | profile (kbps : Int)
  | grid (now : Reading)
  | mux (m : Muxed)

def step (s : State) : Act → Option State
  | .stop => some { s with running := false }
  | .profile kbps =>
    match rungOf kbps c.rungs 0 none with
    | some idx => some { s with wantRung := idx }
    | none => some s
  | .grid now => if now.mono < s.clock then none else { s with clock := now.mono }.grid c now
  | .mux m => if s.pc = .mux then s.emitSlot c m else none

def machine : Machine State Act := ⟨init c, step c⟩

/-! ## What a step can do -/

/-- The steps one by one, with the conditions the code tests. -/
inductive Moves (c : Camera) (s : State) : Act → State → Prop
  | stop : Moves c s .stop { s with running := false }
  | profile {kbps : Int} {idx : Nat} : idx < c.rungs.length →
      Moves c s (.profile kbps) { s with wantRung := idx }
  | ignored {kbps : Int} : Moves c s (.profile kbps) s
  | epoch {now : Reading} {startUs : Int} : s.clock ≤ now.mono → s.pc = .epoch →
      Moves c s (.grid now) { s with clock := now.mono, startUs := startUs, pc := .choose }
  | choose {now : Reading} {slot late : Int} : s.clock ≤ now.mono → s.pc = .choose → 0 ≤ slot →
      c.isIdr slot = true →
      Moves c s (.grid now)
        { { s with clock := now.mono }.start c slot now with lateStartSlots := late }
  | loop {now : Reading} : s.clock ≤ now.mono → s.pc = .loop → s.running = true →
      Moves c s (.grid now)
        { s with clock := now.mono, targetUs := s.at c s.slot, pc := .test }
  | leave {now : Reading} : s.clock ≤ now.mono → (s.pc = .loop ∨ s.pc = .test ∨ s.pc = .check) →
      s.running = false → Moves c s (.grid now) { s with clock := now.mono, pc := .last }
  | test {now : Reading} : s.clock ≤ now.mono → s.pc = .test →
      Moves c s (.grid now) { s with clock := now.mono, pc := .clock }
  | asleep {now : Reading} : s.clock ≤ now.mono → s.pc = .clock → now.us < s.targetUs →
      Moves c s (.grid now) { s with clock := now.mono, pc := .test }
  | awake {now : Reading} : s.clock ≤ now.mono → s.pc = .clock → s.targetUs ≤ now.us →
      Moves c s (.grid now) { s with clock := now.mono, pc := .woken }
  | inTime {now : Reading} : s.clock ≤ now.mono → s.pc = .woken →
      now.us < s.at c (s.slot + 1) →
      Moves c s (.grid now) { s with clock := now.mono, nowUs := now.us, pc := .check }
  | behind {now : Reading} : s.clock ≤ now.mono → s.pc = .woken →
      s.at c (s.slot + 1) ≤ now.us → c.intervalUs ≠ 0 →
      Moves c s (.grid now)
        { s with
          clock := now.mono
          nowUs := now.us
          resume := (now.us - s.startUs).tdiv c.intervalUs
          pc := .catchUp }
  | skip {now : Reading} : s.clock ≤ now.mono → s.pc = .catchUp → s.slot < s.resume →
      s.running = true →
      Moves c s (.grid now) ({ s with clock := now.mono }.emitMissed c now)
  | caughtUp {now : Reading} : s.clock ≤ now.mono → s.pc = .catchUp →
      (s.running = true → s.resume ≤ s.slot) →
      Moves c s (.grid now)
        { s with clock := now.mono, targetUs := s.at c s.slot, pc := .check }
  | check {now : Reading} : s.clock ≤ now.mono → s.pc = .check → s.running = true →
      Moves c s (.grid now) { s with clock := now.mono, pc := .want }
  | want {now : Reading} : s.clock ≤ now.mono → s.pc = .want →
      Moves c s (.grid now)
        { s with clock := now.mono, capture := now, want := s.wantRung, pc := .switch }
  | switch {now : Reading} : s.clock ≤ now.mono → s.pc = .switch → c.isIdr s.slot = true →
      Moves c s (.grid now)
        { { s with clock := now.mono }.rate c s.want now with curRung := s.want, pc := .mux }
  | keep {now : Reading} : s.clock ≤ now.mono → s.pc = .switch →
      Moves c s (.grid now) { s with clock := now.mono, pc := .mux }
  | mux {m : Muxed} {au : AccessUnit} : s.pc = .mux →
      c.au s.curRung (c.fileIdx s.slot) = some au →
      Moves c s (.mux m)
        { (s.write c au m).log c au (0 ≤ m.ret) with slot := s.slot + 1, pc := .loop }
  | last {now : Reading} : s.clock ≤ now.mono → s.pc = .last →
      Moves c s (.grid now) { s with clock := now.mono, nowUs := now.us, pc := .drain }
  | drain {now : Reading} : s.clock ≤ now.mono → s.pc = .drain →
      s.at c (s.slot + 1) ≤ s.nowUs →
      Moves c s (.grid now) ({ s with clock := now.mono }.emitMissed c now)
  | finish {now : Reading} : s.clock ≤ now.mono → s.pc = .drain →
      s.nowUs < s.at c (s.slot + 1) →
      Moves c s (.grid now) { s with clock := now.mono, pc := .done }

variable {c} {s s' : State}

theorem choose_moves {now : Reading} (hclock : s.clock ≤ now.mono) (hpc : s.pc = .choose)
    (h : { s with clock := now.mono }.choose c now = some s') : Moves c s (.grid now) s' := by
  obtain ⟨slot, hfirst, h⟩ := Option.bind_eq_some_iff.mp h
  have hslot := Camera.idrFrom_some hfirst
  split at h
  · split at h
    · cases h
    · obtain ⟨found, hfound, rfl⟩ := Option.map_eq_some_iff.mp h
      have hlate := Camera.idrFrom_some hfound
      exact .choose hclock hpc (by omega) hlate.2
  · cases h
    exact .choose hclock hpc hslot.1 hslot.2

theorem grid_moves {now : Reading} (hclock : s.clock ≤ now.mono)
    (h : { s with clock := now.mono }.grid c now = some s') : Moves c s (.grid now) s' := by
  cases hpc : s.pc with
  | epoch =>
    simp only [State.grid, hpc] at h
    cases h
    exact .epoch hclock hpc
  | choose =>
    simp only [State.grid, hpc] at h
    exact choose_moves hclock hpc h
  | loop =>
    simp only [State.grid, hpc] at h
    split at h
    · next hrun =>
      cases h
      exact .loop hclock hpc hrun
    · next hrun =>
      cases h
      exact .leave hclock (.inl hpc) (Bool.eq_false_iff.mpr hrun)
  | test =>
    simp only [State.grid, hpc] at h
    cases h
    split
    · exact .test hclock hpc
    · next hrun => exact .leave hclock (.inr (.inl hpc)) (Bool.eq_false_iff.mpr hrun)
  | clock =>
    simp only [State.grid, hpc] at h
    cases h
    split
    · next hnow => exact .awake hclock hpc hnow
    · next hnow => exact .asleep hclock hpc (Int.not_le.mp hnow)
  | woken =>
    simp only [State.grid, hpc] at h
    split at h
    · next hnow =>
      split at h
      · cases h
      · next hne =>
        cases h
        exact .behind hclock hpc hnow hne
    · next hnow =>
      cases h
      exact .inTime hclock hpc (Int.not_le.mp hnow)
  | catchUp =>
    simp only [State.grid, hpc] at h
    split at h
    · next hslot =>
      cases h
      simpa only [hpc] using Moves.skip (c := c) hclock hpc hslot.1 hslot.2
    · next hslot =>
      cases h
      exact .caughtUp hclock hpc fun hrun => Int.not_lt.mp fun hlt => hslot ⟨hlt, hrun⟩
  | check =>
    simp only [State.grid, hpc] at h
    cases h
    split
    · next hrun => exact .check hclock hpc hrun
    · next hrun => exact .leave hclock (.inr (.inr hpc)) (Bool.eq_false_iff.mpr hrun)
  | want =>
    simp only [State.grid, hpc] at h
    cases h
    exact .want hclock hpc
  | switch =>
    simp only [State.grid, hpc] at h
    split at h
    · next hswitch =>
      cases h
      exact .switch hclock hpc hswitch.2
    · cases h
      exact .keep hclock hpc
  | mux =>
    simp only [State.grid, hpc] at h
    cases h
  | last =>
    simp only [State.grid, hpc] at h
    cases h
    exact .last hclock hpc
  | drain =>
    simp only [State.grid, hpc] at h
    split at h
    · next hnow =>
      cases h
      simpa only [hpc] using Moves.drain (c := c) hclock hpc hnow
    · next hnow =>
      cases h
      exact .finish hclock hpc (Int.not_le.mp hnow)
  | done =>
    simp only [State.grid, hpc] at h
    cases h

theorem step_moves {a : Act} (h : step c s a = some s') : Moves c s a s' := by
  cases a with
  | stop =>
    cases h
    exact .stop
  | profile kbps =>
    rw [step] at h
    split at h
    · next idx hidx =>
      cases h
      have hlt := rungOf_lt hidx (by simp)
      exact .profile (by omega)
    · cases h
      exact .ignored
  | grid now =>
    rw [step] at h
    split at h
    · cases h
    · next hclock => exact grid_moves (Nat.not_lt.mp hclock) h
  | mux m =>
    rw [step] at h
    split at h
    · next hpc =>
      obtain ⟨au, hau, rfl⟩ := Option.map_eq_some_iff.mp h
      exact .mux hpc hau
    · cases h

end Sender
end P5G
