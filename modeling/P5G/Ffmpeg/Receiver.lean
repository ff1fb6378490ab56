import P5G.Control.Apps
import P5G.Machine
import P5G.Rtcp.Compound
import P5G.Rtp.Conservation
import P5G.Trace.Formats

/-!
# The receiver of the ffmpeg tree

Two threads of video_receiver.cc.  `OnMessage`, on the control thread, answers the first
stream-start: it opens the traces and stores the SSRC, the payload type and the four trace
pointers, each an atomic of its own.  `RxLoop`, on the receive thread, takes a datagram
through the packet trace, the test of the SSRC, the test of the payload type, the
depacketizer and the decoder, and loads each atomic where it needs it, so a stream-start
may fall between any two of these steps.
-/

namespace P5G
namespace Ffmpeg

open Trace (RtpPacketRow DecodedFrameLedgerRow DecodedFrameRow)
open Rtcp (RtcpRow)

/-- `FillRtpRow` of rtp_util.h, for a datagram of `n` bytes. -/
def fillRtpRow (n : Nat) (h : RtpHeader) (dir : UInt8) (mono wall : Int64) : RtpPacketRow where
  logMonoNs := mono
  logWallNs := wall
  rtpTs := h.ts
  ssrc := h.ssrc
  pktBytes := Int32.ofNat n
  hdrBytes := Int32.ofNat h.hdrLen
  padBytes := Int32.ofNat h.padLen
  payloadBytes := Int32.ofNat h.payload.length
  probeClusterId := -1
  seq := h.seq
  pt := h.pt
  marker := h.marker
  csrcCount := h.cc
  hasExt := h.x
  dir := dir

/-- A datagram that `ParseRtp` accepts, with its kernel arrival on both clocks. -/
structure Datagram where
  size : Nat
  header : RtpHeader
  arrivalMono : Int64
  arrivalWall : Int64

namespace Datagram

def rtpRow (q : Datagram) : RtpPacketRow :=
  fillRtpRow q.size q.header 1 q.arrivalMono q.arrivalWall

def input (q : Datagram) : RtpHeader × Int := (q.header, q.arrivalMono.toInt)

end Datagram

/-- `arrival_wall` is the kernel's stamp where the datagram carries one, and
`arrival_mono` lies as far before `NowMonoNs` as the stamp before `NowWallNs`. -/
def arrived (d : List UInt8) (h : RtpHeader) (stamp : Option Int64) (mono wall : Int64) :
    Datagram :=
  let arrivalWall := stamp.getD wall
  ⟨d.length, h, mono - (wall - arrivalWall), arrivalWall⟩

/-- A frame out of `avcodec_receive_frame`, and the clocks read after it. -/
structure Picture where
  pts : Int64
  width : Int32
  height : Int32
  monoNs : Int64
  wallNs : Int64

/-- A picture, the access unit whose `DecodeAu` it came from, and that call's `t0`. -/
structure Delivery where
  unit : AuEvent
  startMonoNs : Int64
  picture : Picture

namespace Delivery

def rtpTs (y : Delivery) : UInt32 := y.picture.pts.toUInt64.toUInt32

def ledgerRow (y : Delivery) : DecodedFrameLedgerRow where
  rtpTs := y.rtpTs
  decodeStartMonoNs := y.startMonoNs
  decodeDoneMonoNs := y.picture.monoNs
  decodeDoneWallNs := y.picture.wallNs
  inputBytes := Int32.ofNat y.unit.bytes
  frameType := if y.unit.isIdr then 3 else 4
  renderTimeMs := -1
  decoderDecodeTimeMs := -1
  qp := -1
  width := y.picture.width
  height := y.picture.height

def frameRow (y : Delivery) (frameIdx : Nat) (ssrc : UInt32) : DecodedFrameRow where
  frameIdx := Int64.ofNat frameIdx
  rtpTs := y.rtpTs
  absCaptureNtpMs := -1
  senderRtpTsEst := y.rtpTs.toUInt64.toInt64
  wireOffsetEst := 0
  recvWallNs := y.picture.wallNs
  recvMonoNs := y.picture.monoNs
  width := y.picture.width
  height := y.picture.height
  numPackets := Int32.ofNat y.unit.packets
  firstPktMonoNs := Int64.ofInt y.unit.firstArrivalNs
  lastPktMonoNs := Int64.ofInt y.unit.lastArrivalNs
  ssrc := ssrc

end Delivery

/-! ## State -/

/-- The stores of `OnMessage` that the receive thread loads. -/
inductive Store where
  | ssrc (v : UInt32)
  | pt (v : UInt8)
  | rtp
  | rtcp
  | decoded
  | frames
  deriving DecidableEq

def Store.rank : Store → Nat
  | .ssrc _ => 0
  | .pt _ => 1
  | .rtp => 2
  | .rtcp => 3
  | .decoded => 4
  | .frames => 5

abbrev EndedUnit := AuEvent × List UInt8

/-- Where the receive thread stands: before `DecodeAu` of each of `ended` and then the next
datagram, between the packet trace and the test of the SSRC, between that and the test of
the payload type, or before the rows of a picture. -/
inductive Rx where
  | units (ended : List EndedUnit)
  | logged (q : Datagram)
  | counted (q : Datagram)
  | picture (y : Delivery) (ys : List Delivery) (ended : List EndedUnit)
  | frame (y : Delivery) (ys : List Delivery) (ended : List EndedUnit)

/-- The loop over `avcodec_receive_frame`. -/
def Rx.deliver (ended : List EndedUnit) : List Delivery → Rx
  | [] => .units ended
  | y :: ys => .picture y ys ended

structure Counters where
  pkts : Nat := 0
  bytes : Nat := 0
  frameIdx : Nat := 0
  incomplete : Nat := 0
  emptyAus : Nat := 0
  damaged : Nat := 0
  lostPkts : Nat := 0
  lostFrag : Nat := 0
  decodeFail : Nat := 0
  bufHeld : Nat := 0

/-- What has happened, none of it in the source: the datagrams that reached each stage, the
access units `DecodeAu` has been called with, the calls of `avcodec_send_packet` and whether
they were accepted, and the pictures that have passed the decoded-frame ledger. -/
structure History where
  parsed : List Datagram := []
  counted : List Datagram := []
  pushed : List Datagram := []
  handled : List EndedUnit := []
  sent : List (List UInt8 × Bool) := []
  delivered : List Delivery := []

/-- The members of `Receiver` that the two threads use.  A trace pointer is the rows handed to
its ring, some of which a full ring refuses; `pending` is what the control thread has yet to
store. -/
structure State (cap : Nat) where
  depack : Depacketizer cap
  stream : String := ""
  pending : List Store := []
  ssrc : UInt32 := 0
  pt : UInt8 := 96
  rtp : Option (List RtpPacketRow) := none
  rtcp : Option (List RtcpRow) := none
  decoded : Option (List DecodedFrameLedgerRow) := none
  frames : Option (List DecodedFrameRow) := none
  n : Counters := {}
  rx : Rx := .units []
  past : History := {}

/-- What the decoder does with an access unit: `t0`, whether `avcodec_send_packet` takes it,
whether it still holds the buffer, and the pictures that come out. -/
structure Decoding where
  startMonoNs : Int64
  accepted : Bool
  held : Bool
  pictures : List Picture

inductive Act where
  | message (m : Fields)
  | store
  | overtake
  | rtcpIn (d : List UInt8) (mono wall : Int)
  | datagram (d : List UInt8) (stamp : Option Int64) (mono wall : Int64)
  | testSsrc
  | testPt
  | decodeAu (o : Decoding)
  | writeDecoded
  | writeFrame

namespace Receiver

variable {cap : Nat}

def init (bufs : AuBuffers cap) : State cap := { depack := { buf := bufs } }

/-- What an accepted stream-start stores, up to a field of the wrong type. -/
def stores (m : Fields) : List Store :=
  match m.valueUInt32 "ssrc" 0 with
  | none => []
  | some v =>
    match m.valueInt "pt" 96 with
    | none => [.ssrc v]
    | some p => [.ssrc v, .pt (UInt8.ofInt p.toInt), .rtp, .rtcp, .decoded, .frames]

/-- `OnMessage` up to its first store. -/
def onMessage (s : State cap) (m : Fields) : State cap :=
  if m.valueStr "type" "" ≠ some "stream-start" then s
  else
    match m.valueStr "stream" "" with
    | none => s
    | some stream =>
      if s.stream ≠ "" then s else { s with stream := stream, pending := stores m }

def apply (s : State cap) : Store → State cap
  | .ssrc v => { s with ssrc := v }
  | .pt v => { s with pt := v }
  | .rtp => { s with rtp := some [] }
  | .rtcp => { s with rtcp := some [] }
  | .decoded => { s with decoded := some [] }
  | .frames => { s with frames := some [] }

def rtcpIn (s : State cap) (d : List UInt8) (mono wall : Int) : State cap :=
  let row := if isRtcp d then (Rtcp.Ffmpeg.fillRtcpRow d 1 mono wall).toList else []
  { s with rtcp := s.rtcp.map (· ++ row) }

/-- `RxLoop` up to the test of the SSRC. -/
def receive (s : State cap) (q : Datagram) : State cap :=
  { s with
    rtp := s.rtp.map (· ++ [q.rtpRow])
    rx := .logged q
    past := { s.past with parsed := s.past.parsed ++ [q] } }

def count (s : State cap) (q : Datagram) : State cap :=
  { s with
    n := { s.n with pkts := s.n.pkts + 1, bytes := s.n.bytes + q.size }
    rx := .counted q
    past := { s.past with counted := s.past.counted ++ [q] } }

def push (s : State cap) (q : Datagram) : State cap :=
  let r := s.depack.receive q.input
  { s with
    depack := r.1
    rx := .units r.2
    past := { s.past with pushed := s.past.pushed ++ [q] } }

/-- The first line of `DecodeAu`. -/
def Counters.tally (n : Counters) (ev : AuEvent) : Counters :=
  if ev.complete then n
  else
    { n with
      incomplete := n.incomplete + 1
      lostFrag := n.lostFrag + ev.lostFragments
      lostPkts := n.lostPkts + ev.lostPackets
      damaged := n.damaged + if ev.damaged then 1 else 0 }

/-- The counters of `DecodeAu`, up to the first row. -/
def Counters.decodeAu (n : Counters) (ev : AuEvent) (o : Decoding) : Counters :=
  let n := tally n ev
  if ev.bytes = 0 then { n with emptyAus := n.emptyAus + 1 }
  else
    { n with
      bufHeld := n.bufHeld + if o.held then 1 else 0
      decodeFail := n.decodeFail + if o.accepted then 0 else 1 }

/-- `DecodeAu` up to the first row.  An empty access unit never reaches the decoder. -/
def decodeAu (s : State cap) (x : EndedUnit) (ended : List EndedUnit) (o : Decoding) :
    State cap :=
  { s with
    n := Counters.decodeAu s.n x.1 o
    rx :=
      if x.1.bytes ≠ 0 ∧ o.accepted = true then
        .deliver ended (o.pictures.map fun p => ⟨x.1, o.startMonoNs, p⟩)
      else .units ended
    past :=
      { s.past with
        handled := s.past.handled ++ [x]
        sent := s.past.sent ++ if x.1.bytes = 0 then [] else [(x.2, o.accepted)] } }

def writeDecoded (s : State cap) (y : Delivery) (ys : List Delivery) (ended : List EndedUnit) :
    State cap :=
  { s with
    decoded := s.decoded.map (· ++ [y.ledgerRow])
    rx := .frame y ys ended
    past := { s.past with delivered := s.past.delivered ++ [y] } }

/-- `frame_idx_` moves only where the trace is open. -/
def writeFrame (s : State cap) (y : Delivery) (ys : List Delivery) (ended : List EndedUnit) :
    State cap :=
  { s with
    frames := s.frames.map (· ++ [y.frameRow s.n.frameIdx s.ssrc])
    n := { s.n with frameIdx := s.n.frameIdx + if s.frames.isSome then 1 else 0 }
    rx := .deliver ended ys }

/-- The SSRC and the payload type are relaxed stores, so the receive thread may see the
second one first. -/
def step (s : State cap) : Act → Option (State cap)
  | .message m =>
    match s.pending with
    | [] => some (onMessage s m)
    | _ :: _ => none
  | .store =>
    match s.pending with
    | [] => none
    | st :: rest => some (apply { s with pending := rest } st)
  | .overtake =>
    match s.pending with
    | .ssrc v :: .pt p :: rest => some { s with pt := p, pending := .ssrc v :: rest }
    | _ => none
  | .rtcpIn d mono wall =>
    match s.rx with
    | .units [] => some (rtcpIn s d mono wall)
    | _ => none
  | .datagram d stamp mono wall =>
    match s.rx with
    | .units [] =>
      match parseRtp d with
      | none => some s
      | some h => some (receive s (arrived d h stamp mono wall))
    | _ => none
  | .testSsrc =>
    match s.rx with
    | .logged q =>
      if q.header.ssrc ≠ s.ssrc then some { s with rx := .units [] } else some (count s q)
    | _ => none
  | .testPt =>
    match s.rx with
    | .counted q =>
      if q.header.pt ≠ s.pt then some { s with rx := .units [] } else some (push s q)
    | _ => none
  | .decodeAu o =>
    match s.rx with
    | .units (x :: ended) => some (decodeAu s x ended o)
    | _ => none
  | .writeDecoded =>
    match s.rx with
    | .picture y ys ended => some (writeDecoded s y ys ended)
    | _ => none
  | .writeFrame =>
    match s.rx with
    | .frame y ys ended => some (writeFrame s y ys ended)
    | _ => none

def machine (bufs : AuBuffers cap) : Machine (State cap) Act := ⟨init bufs, step⟩

/-! ## What a step can do -/

inductive Moves (s : State cap) : Act → State cap → Prop
  | ignore (a : Act) : Moves s a s
  | announce {m : Fields} {stream : String} : s.stream = "" → s.pending = [] →
      m.valueStr "type" "" = some "stream-start" → m.valueStr "stream" "" = some stream →
      Moves s (.message m) { s with stream := stream, pending := stores m }
  | store {st : Store} {rest : List Store} : s.pending = st :: rest →
      Moves s .store (apply { s with pending := rest } st)
  | overtake {v : UInt32} {p : UInt8} {rest : List Store} : s.pending = .ssrc v :: .pt p :: rest →
      Moves s .overtake { s with pt := p, pending := .ssrc v :: rest }
  | rtcpIn {d : List UInt8} {mono wall : Int} :
      Moves s (.rtcpIn d mono wall) (rtcpIn s d mono wall)
  | receive {d : List UInt8} {stamp : Option Int64} {mono wall : Int64} {h : RtpHeader} :
      s.rx = .units [] → parseRtp d = some h →
      Moves s (.datagram d stamp mono wall) (receive s (arrived d h stamp mono wall))
  | foreign {q : Datagram} : s.rx = .logged q → q.header.ssrc ≠ s.ssrc →
      Moves s .testSsrc { s with rx := .units [] }
  | count {q : Datagram} : s.rx = .logged q → q.header.ssrc = s.ssrc →
      Moves s .testSsrc (count s q)
  | otherPt {q : Datagram} : s.rx = .counted q → q.header.pt ≠ s.pt →
      Moves s .testPt { s with rx := .units [] }
  | push {q : Datagram} : s.rx = .counted q → q.header.pt = s.pt → Moves s .testPt (push s q)
  | decodeAu {x : EndedUnit} {ended : List EndedUnit} {o : Decoding} :
      s.rx = .units (x :: ended) → Moves s (.decodeAu o) (decodeAu s x ended o)
  | writeDecoded {y : Delivery} {ys : List Delivery} {ended : List EndedUnit} :
      s.rx = .picture y ys ended → Moves s .writeDecoded (writeDecoded s y ys ended)
  | writeFrame {y : Delivery} {ys : List Delivery} {ended : List EndedUnit} :
      s.rx = .frame y ys ended → Moves s .writeFrame (writeFrame s y ys ended)

theorem onMessage_moves (s : State cap) (m : Fields) (h : s.pending = []) :
    Moves s (.message m) (onMessage s m) := by
  rw [onMessage]
  split
  · exact .ignore _
  · next htype =>
    split
    · exact .ignore _
    · next stream hstream =>
      split
      · exact .ignore _
      · next hempty => exact .announce (not_not.mp hempty) h (not_not.mp htype) hstream

theorem step_moves {s t : State cap} {a : Act} (h : step s a = some t) : Moves s a t := by
  cases a with
  | message m =>
    rw [step] at h
    split at h
    · next hpending =>
      cases h
      exact onMessage_moves s m hpending
    · cases h
  | store =>
    rw [step] at h
    split at h
    · cases h
    · next hpending =>
      cases h
      exact .store hpending
  | overtake =>
    rw [step] at h
    split at h
    · next hpending =>
      cases h
      exact .overtake hpending
    · cases h
  | rtcpIn d mono wall =>
    rw [step] at h
    split at h
    · cases h
      exact .rtcpIn
    · cases h
  | datagram d stamp mono wall =>
    rw [step] at h
    split at h
    · next hrx =>
      split at h
      · cases h
        exact .ignore _
      · next hparse =>
        cases h
        exact .receive hrx hparse
    · cases h
  | testSsrc =>
    rw [step] at h
    split at h
    · next hrx =>
      split at h
      · next hne =>
        cases h
        exact .foreign hrx hne
      · next heq =>
        cases h
        exact .count hrx (not_not.mp heq)
    · cases h
  | testPt =>
    rw [step] at h
    split at h
    · next hrx =>
      split at h
      · next hne =>
        cases h
        exact .otherPt hrx hne
      · next heq =>
        cases h
        exact .push hrx (not_not.mp heq)
    · cases h
  | decodeAu o =>
    rw [step] at h
    split at h
    · next hrx =>
      cases h
      exact .decodeAu hrx
    · cases h
  | writeDecoded =>
    rw [step] at h
    split at h
    · next hrx =>
      cases h
      exact .writeDecoded hrx
    · cases h
  | writeFrame =>
    rw [step] at h
    split at h
    · next hrx =>
      cases h
      exact .writeFrame hrx
    · cases h

end Receiver
end Ffmpeg
end P5G
