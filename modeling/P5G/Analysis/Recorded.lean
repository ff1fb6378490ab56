import P5G.Analysis.GroupDeadline
import P5G.Analysis.Predictors
import P5G.Ffmpeg.EndToEnd
import P5G.Gnb.Sdu
import P5G.Text.Numeral

/-!
# What the report reads of a run

The traces of the senders, of the gNB and of the receivers of one run, as `load` of
fusion_report.py joins them: the member frame at a base instant is the slot that was captured
there, with the packets it was sent in and the picture that was shown of it.
-/

namespace P5G
namespace Fusion

open Ffmpeg (World endToEnd Carries)
open Sender (Camera)
open Numeral (decimal int int_decimal)

variable {cap : Nat} {c : Camera} {base ssrc : UInt32}

def column (n : Nat) : String := String.ofList (decimal n)

theorem column_inj {m n : Nat} : column m = column n ↔ m = n := by
  rw [column, column, String.ofList_inj]
  constructor
  · intro h
    have hint := congrArg int h
    rw [int_decimal, int_decimal] at hint
    exact Int.ofNat_inj.mp (Option.some.inj hint)
  · exact fun h => h ▸ rfl

theorem column_toNat_inj {x y : UInt32} : column x.toNat = column y.toNat ↔ x = y :=
  column_inj.trans UInt32.toNat_inj

def txRtpRow (q : Sender.RtpPacketRow) : TxRtpRow where
  ssrc := column q.header.ssrc.toNat
  rtpTs := column q.header.ts.toNat
  logWallNs := q.now.wall
  payloadBytes := (Int32.ofNat q.header.payload.length).toInt

def txFrameRow (f : Sender.CaptureFrameRow) : TxFrameRow where
  rtpTs := column f.rtpTs.toNat
  gridSlot := f.gridSlot
  captureWallNs := f.captureWallNs

def rxFrameRow (r : Trace.DecodedFrameRow) : RxFrameRow where
  rtpTs := column r.rtpTs.toNat
  ssrc := column r.ssrc.toNat
  recvWallNs := r.recvWallNs.toInt

def pdcpRow (r : Gnb.PdcpSduRow) : PdcpRow where
  wallNs := r.t.wallNs.toNat
  ueIndex := column r.ueIndex.toNat
  rtpLike := r.rtpLike = 1
  rtpSsrc := column r.rtpSsrc.toNat
  rtpTs := column r.rtpTs.toNat
  rtpMarker := r.rtpMarker = 1
  sduBytes := r.sduBytes.toNat

/-! ## One camera -/

/-- The muxer writes the SSRC that is announced. -/
def Labels (ssrc : UInt32) : Sender.Act → Prop
  | .mux m => ∀ p ∈ m.packets, ∀ header ∈ p.rtp?, header.ssrc = ssrc
  | _ => True

/-- Also, no row of tx-frames is written before the base is known. -/
def Kept (c : Camera) (base ssrc : UInt32) (x : World cap) : Sender.Act ⊕ Ffmpeg.Act → Prop
  | .inl a => Carries base ssrc x (.inl a) ∧ Sender.Known c base x.1.1 a ∧ Labels ssrc a
  | .inr a => Carries base ssrc x (.inr a)

theorem labeled_next {s s' : Sender.State} {a : Sender.Act} (hm : Sender.Moves c s a s')
    (hlabels : Labels ssrc a) (h : ∀ q ∈ s.wire.rtp, q.header.ssrc = ssrc) :
    ∀ q ∈ s'.wire.rtp, q.header.ssrc = ssrc := by
  cases hm with
  | @mux m au hpc hau =>
    intro q hq
    have hrtp : q ∈ s.wire.rtp ++ m.packets.filterMap (Sender.rtpRow? s.slot) :=
      Sender.writePackets_rtp s.slot m.packets
        { s.wire with curPts := s.pts, auSendFailed := false } ▸ hq
    obtain hold | hnew := List.mem_append.mp hrtp
    · exact h q hold
    · obtain ⟨p, hp, hrow⟩ := List.mem_filterMap.mp hnew
      exact hlabels p hp q.header (Sender.rtpRow?_some hrow).1
  | _ => exact h

/-- A camera with its receiver, and how far they have come.  The pts are less than half the
range of an RTP timestamp apart, that is 6.6 hours. -/
structure Link (cap : Nat) where
  camera : Camera
  divides : camera.fps ∣ baseFps
  base : UInt32
  ssrc : UInt32
  bufs : AuBuffers cap
  world : World cap
  reached : (endToEnd camera bufs).ReachableBy (Kept camera base ssrc) world
  short : ∀ f ∈ world.1.1.frames, camera.pts f.gridSlot < 2 ^ 31

namespace Link

variable (l : Link cap)

/-- tx-frames -/
def captured : List Sender.CaptureFrameRow := l.world.1.1.frames

/-- tx-rtp -/
def sent : List Sender.RtpPacketRow := l.world.1.1.wire.rtp

/-- rx-frames -/
def shown : List Trace.DecodedFrameRow := l.world.2.frames.getD []

def air : List (List UInt8) := Sender.air l.world.1.2

theorem carries : (endToEnd l.camera l.bufs).ReachableBy (Carries l.base l.ssrc) l.world := by
  obtain ⟨past, hrun⟩ := l.reached
  refine ⟨past, hrun.mono fun x a hkept => ?_⟩
  cases a with
  | inl a => exact hkept.1
  | inr a => exact hkept

structure Logged : Prop where
  counted : Sender.Counted l.world.1.1
  sourced : Sender.Sourced l.camera l.base l.world.1.1
  stamped : Sender.Stamped l.camera l.base l.world.1.1
  labeled : ∀ q ∈ l.sent, q.header.ssrc = l.ssrc

theorem logged : l.Logged := by
  have hsender : (Sender.machine l.camera).logged.ReachableBy
      (fun y a => Sender.Stamps l.base y.1 a ∧ Sender.Known l.camera l.base y.1 a ∧
        Labels l.ssrc a) l.world.1 := l.reached.left fun _ _ hkept => hkept
  have hinv : Sender.Counted l.world.1.1 ∧ Sender.Timed l.camera l.world.1.1 ∧
      Sender.Sourced l.camera l.base l.world.1.1 ∧
      Sender.Stamped l.camera l.base l.world.1.1 ∧
      ∀ q ∈ l.world.1.1.wire.rtp, q.header.ssrc = l.ssrc := by
    refine hsender.invariant (I := fun y => Sender.Counted y.1 ∧ Sender.Timed l.camera y.1 ∧
      Sender.Sourced l.camera l.base y.1 ∧ Sender.Stamped l.camera l.base y.1 ∧
      ∀ q ∈ y.1.wire.rtp, q.header.ssrc = l.ssrc) ?_ fun y a z hy hkept hstep => ?_
    · exact ⟨Sender.counted_init, Sender.timed_init, Sender.sourced_init,
        ⟨Sender.sourced_init.based, List.forall_mem_nil _, List.forall_mem_nil _⟩,
        List.forall_mem_nil _⟩
    · obtain ⟨hcount, htimed, hsourced, hstamped, hlabeled⟩ := hy
      obtain ⟨hstamps, hknown, hlabels⟩ := hkept
      obtain ⟨hs, -⟩ := Machine.logged_step.mp hstep
      have hmoves := Sender.step_moves hs
      exact ⟨hmoves.counted htimed hcount, hmoves.timed hcount htimed,
        hmoves.sourced htimed hstamps hsourced, hmoves.stamped htimed hstamps hknown hstamped,
        labeled_next hmoves hlabels hlabeled⟩
  exact ⟨hinv.1, hinv.2.2.1, hinv.2.2.2.1, hinv.2.2.2.2⟩

variable {l} {f f' : Sender.CaptureFrameRow} {q : Sender.RtpPacketRow}
  {r : Trace.DecodedFrameRow}

theorem slot_nonneg (hf : f ∈ l.captured) : 0 ≤ f.gridSlot := by
  obtain ⟨i, -, hi⟩ := l.logged.counted.slots.exists_lt hf
  have hfirst := l.logged.counted.first
  omega

theorem eq_of_gridSlot (hf : f ∈ l.captured) (hf' : f' ∈ l.captured)
    (h : f.gridSlot = f'.gridSlot) : f = f' := l.logged.counted.eq_of_gridSlot hf hf' h

/-- No two slots of the run have one timestamp. -/
theorem ts_inj (hf : f ∈ l.captured) (hf' : f' ∈ l.captured) :
    f.rtpTs = f'.rtpTs ↔ f = f' := by
  refine ⟨fun hts => ?_, fun h => h ▸ rfl⟩
  by_contra hne
  have hslots : f'.gridSlot ≠ f.gridSlot := fun h => hne (eq_of_gridSlot hf hf' h.symm)
  have hfps : l.camera.fps ≤ 83333 :=
    Nat.le_trans (Nat.le_of_dvd (by decide) l.divides) (by decide)
  have hnonneg : ∀ {slot : Int}, 0 ≤ slot → 0 ≤ l.camera.pts slot := by
    intro slot hslot
    rw [Camera.pts]
    refine Int.tdiv_nonneg (Int.mul_nonneg (Int.mul_nonneg hslot ?_) (by decide)) (by decide)
    exact Sender.Camera.intervalUs_nonneg
  have hpts := hnonneg (slot_nonneg hf)
  have hpts' := hnonneg (slot_nonneg hf')
  have hshort := l.short f hf
  have hshort' := l.short f' hf'
  have hnear : |l.camera.pts f'.gridSlot - l.camera.pts f.gridSlot| < 2 ^ 31 := by
    rw [abs_lt]
    omega
  have hsame : l.camera.wireTs l.base f'.gridSlot = l.camera.wireTs l.base f.gridSlot := by
    rw [← l.logged.stamped.frames f hf, ← l.logged.stamped.frames f' hf', hts]
  exact Sender.wireTs_ne hfps (slot_nonneg hf) (slot_nonneg hf') hslots hnear hsame

/-- The packets with the timestamp of a slot are the packets of the slot. -/
theorem sent_ts_iff (hq : q ∈ l.sent) (hf : f ∈ l.captured) :
    q.header.ts = f.rtpTs ↔ q.slot = f.gridSlot := by
  obtain ⟨-, f', hf', hslot, hts⟩ := l.logged.sourced.rows q hq
  rw [← hslot, ← hts, ts_inj hf' hf]
  exact ⟨fun h => h ▸ rfl, fun h => eq_of_gridSlot hf' hf h⟩

theorem exists_shown (hr : r ∈ l.shown) :
    ∃ f, World.Shows l.camera l.base l.world.1.1 r f :=
  World.shows (Nat.le_trans (Nat.le_of_dvd (by decide) l.divides) (by decide)) l.carries hr

/-- The pictures with the timestamp of a slot are the pictures of the slot. -/
theorem shown_ts_iff (hr : r ∈ l.shown) (hf : f ∈ l.captured) :
    r.rtpTs = f.rtpTs ↔ World.Shows l.camera l.base l.world.1.1 r f := by
  refine ⟨fun hts => ?_, fun h => h.ts⟩
  obtain ⟨f', hshows⟩ := exists_shown hr
  rwa [(ts_inj hshows.frame hf).mp (hshows.ts.symm.trans hts)] at hshows

end Link

/-- What the tracer takes for the range of RTCP is not marked as RTP. -/
theorem rtpLike_of_payloadType (pkt : Gnb.UdpPacket)
    (hpt : 64 ≤ byte pkt.datagram 1 &&& 0x7f ∧ byte pkt.datagram 1 &&& 0x7f ≤ 95)
    (r : Gnb.PdcpSduRow) : (Gnb.parseIpUdpRtp pkt.head r).rtpLike = r.rtpLike := by
  have hsize : Gnb.headSize = 64 := rfl
  have hhead := pkt.head_length
  rw [pkt.parseIp, Gnb.parseUdpAt]
  split
  · rfl
  · rw [Gnb.parseRtpAt]
    split
    · rfl
    · split
      · rfl
      · have hrange : 64 ≤ (byte pkt.head (4 * pkt.ihl + 8 + 1)).toUInt32 &&& 0x7F ∧
            (byte pkt.head (4 * pkt.ihl + 8 + 1)).toUInt32 &&& 0x7F ≤ 95 := by
          rw [pkt.byte_datagram (by omega), Gnb.payloadType_range]
          exact hpt
        rw [if_pos hrange]

/-- The row was filled from an SDU that carries one of these datagrams. -/
def Seen (sent : List (List UInt8)) (p : PdcpRow) : Prop :=
  ∃ (pkt : Gnb.UdpPacket) (segs : List (List UInt8)) (bearer : Gnb.Bearer)
    (now : Gnb.TraceClockStamp) (count : UInt32), pkt.datagram ∈ sent ∧ pkt.ihl ≤ 11 ∧
      segs.flatten = pkt.bytes ∧ p = pdcpRow (Gnb.fillSduRow bearer now {} count segs)

theorem Seen.packet {l : Link cap} {p : PdcpRow} (h : Seen l.air p) (hrtp : p.rtpLike = true) :
    ∃ q ∈ l.sent, p.rtpTs = column q.header.ts.toNat ∧
      (p.rtpMarker = true ↔ q.header.marker = 1) := by
  obtain ⟨pkt, segs, bearer, now, count, hair, hihl, hsegs, rfl⟩ := h
  obtain ⟨-, hown⟩ := World.reachable_brings l.carries
  obtain ⟨q, hq, hparse, -⟩ := (World.genuine_of_reachable hown).1 pkt.datagram hair
  have hhead : Gnb.copyHead segs [] = pkt.head := by
    rw [Gnb.copyHead_eq segs [] (by decide), List.nil_append, hsegs, Gnb.UdpPacket.head]
  rw [Gnb.fillSduRow, hhead] at hrtp ⊢
  by_cases hpt : 64 ≤ q.header.pt ∧ q.header.pt ≤ 95
  · rw [(parseRtp_fixed hparse).2.2.1] at hpt
    have hlike : (Gnb.parseIpUdpRtp pkt.head _).rtpLike = 1 := of_decide_eq_true hrtp
    rw [rtpLike_of_payloadType pkt hpt] at hlike
    have hzero : (0 : UInt32) = 1 := hlike
    exact absurd hzero (by decide)
  · have hsame := Gnb.sameFrame_of_parseRtp pkt hihl hparse hpt
      { t := now, ueIndex := bearer.ueIndex, rbIsDrb := bearer.rbIsDrb, rbId := bearer.rbId,
        count := count, sduBytes := segs.flatten.length.toUInt32 }
    refine ⟨q, hq, congrArg (fun x : UInt32 => column x.toNat) hsame.ts, ?_⟩
    show decide (_ = (1 : UInt32)) = true ↔ _
    rw [decide_eq_true_iff, hsame.marker]
    constructor
    · intro hone
      exact UInt8.toNat_inj.mp (congrArg UInt32.toNat hone)
    · exact fun hone => hone ▸ rfl

/-! ## The run -/

/-- The cameras of one run, and what the gNB has logged of them. -/
structure Run (cap : Nat) where
  epoch : Int
  durationS : Int
  cams : List Cam
  nodup : cams.Nodup
  link : Cam → Link cap
  pdcp : List PdcpRow
  bsr : List BsrRow
  seen : ∀ p ∈ pdcp, ∀ c, p.rtpLike = true → p.rtpSsrc = column (link c).ssrc.toNat →
    Seen (link c).air p

namespace Run

variable (run : Run cap)

def recording : Recording where
  sender :=
    { epoch := run.epoch
      durationS := run.durationS
      cams := run.cams
      nodup := run.nodup
      rate := fun c => ⟨(run.link c).camera.fps, (run.link c).divides⟩
      rtp := fun c => (run.link c).sent.map txRtpRow
      frames := fun c => (run.link c).captured.map txFrameRow }
  app := fun c => (run.link c).shown.map rxFrameRow
  pdcp := run.pdcp
  bsr := run.bsr

variable {run} {g : Group} {cam : Cam} {f : Sender.CaptureFrameRow}

/-- All the packets of a camera have one SSRC. -/
theorem ssrc_eq (hsent : (run.link cam).sent ≠ []) :
    run.recording.sender.ssrc cam = some (column (run.link cam).ssrc.toNat) := by
  have hrows : ∀ x ∈ (run.link cam).sent.map txRtpRow,
      x.ssrc = column (run.link cam).ssrc.toNat := by
    intro x hx
    obtain ⟨q, hq, rfl⟩ := List.mem_map.mp hx
    exact congrArg (fun y : UInt32 => column y.toNat) ((run.link cam).logged.labeled q hq)
  have hfold : ∀ rows : List TxRtpRow, (∀ x ∈ rows, x.ssrc = column (run.link cam).ssrc.toNat) →
      rows.foldl (fun found x => if found.any (· ≠ "") then found else some x.ssrc)
        (some (column (run.link cam).ssrc.toNat)) =
        some (column (run.link cam).ssrc.toNat) := by
    intro rows hrows
    induction rows with
    | nil => rfl
    | cons x rows ih =>
      rw [List.forall_mem_cons] at hrows
      rw [List.foldl_cons, hrows.1, ite_self]
      exact ih hrows.2
  show ((run.link cam).sent.map txRtpRow).foldl _ none = _
  cases hs : (run.link cam).sent.map txRtpRow with
  | nil => exact absurd (List.map_eq_nil_iff.mp hs) hsent
  | cons x rows =>
    rw [hs, List.forall_mem_cons] at hrows
    rw [List.foldl_cons, Option.any_none, if_neg Bool.false_ne_true, hrows.1]
    exact hfold rows hrows.2

theorem payload_eq (hf : f ∈ (run.link cam).captured) :
    run.recording.sender.payload cam (column f.rtpTs.toNat) =
      (((run.link cam).sent.filter fun q => q.slot = f.gridSlot).map
        fun q => (Int32.ofNat q.header.payload.length).toInt).sum := by
  show ((((run.link cam).sent.map txRtpRow).filter
    fun x => x.rtpTs = column f.rtpTs.toNat).map TxRtpRow.payloadBytes).sum = _
  rw [List.filter_map, List.map_map]
  refine congrArg (fun rows => (List.map _ rows).sum) (List.filter_congr fun q hq => ?_)
  have hsame : column q.header.ts.toNat = column f.rtpTs.toNat ↔ q.slot = f.gridSlot :=
    column_toNat_inj.trans (Link.sent_ts_iff hq hf)
  exact decide_eq_decide.mpr hsame

theorem gpk_sent (hf : f ∈ (run.link cam).captured) {p : PdcpRow}
    (hp : p ∈ run.recording.packets g cam (column f.rtpTs.toNat)) :
    ∃ q ∈ (run.link cam).sent, q.slot = f.gridSlot ∧
      (p.rtpMarker = true ↔ q.header.marker = 1) := by
  obtain ⟨hmem, hkeys⟩ := List.mem_filter.mp hp
  obtain ⟨hlike, hcam, hts⟩ := of_decide_eq_true hkeys
  have hfound := List.find?_some hcam
  have hssrc : run.recording.sender.ssrc cam = some p.rtpSsrc := of_decide_eq_true hfound
  have hsent : (run.link cam).sent ≠ [] := by
    intro hnil
    have hnone : run.recording.sender.ssrc cam = none := by
      show ((run.link cam).sent.map txRtpRow).foldl _ none = none
      rw [hnil]
      rfl
    rw [hnone] at hssrc
    cases hssrc
  rw [ssrc_eq hsent] at hssrc
  obtain ⟨q, hq, hqts, hmarker⟩ :=
    (run.seen p hmem cam hlike (Option.some.inj hssrc).symm).packet hlike
  refine ⟨q, hq, (Link.sent_ts_iff hq hf).mp ?_, hmarker⟩
  exact column_toNat_inj.mp (hqts.symm.trans hts)

end Run

theorem find?_reverse_eq_some_iff {α : Type} {p : α → Bool} {xs : List α} {b : α} :
    xs.reverse.find? p = some b ↔
      p b = true ∧ ∃ early late, xs = early ++ b :: late ∧ ∀ a ∈ late, p a = false := by
  rw [List.find?_eq_some_iff_append]
  refine and_congr_right fun _ => ?_
  constructor
  · intro h
    obtain ⟨as, bs, hxs, has⟩ := h
    refine ⟨bs.reverse, as.reverse, ?_, fun a ha => ?_⟩
    · rw [← List.reverse_reverse xs, hxs, List.reverse_append, List.reverse_cons,
        List.append_assoc, List.singleton_append]
    · simpa using has a (List.mem_reverse.mp ha)
  · intro h
    obtain ⟨early, late, rfl, hlate⟩ := h
    refine ⟨late.reverse, early.reverse, ?_, fun a ha => ?_⟩
    · rw [List.reverse_append, List.reverse_cons, List.append_assoc, List.singleton_append]
    · rw [hlate a (List.mem_reverse.mp ha)]
      rfl

/-- The member frame is the captured slot `f`: with its packets at the sender and at the gNB,
and with the last picture that the receiver has shown of it. -/
structure Tells (l : Link cap) (f : Sender.CaptureFrameRow) (x : Frame) : Prop where
  present : x.absent = false
  ts : x.ts = some (column f.rtpTs.toNat)
  cap : x.cap = f.captureWallNs
  payload : x.payload = ((l.sent.filter fun q => q.slot = f.gridSlot).map
    fun q => (Int32.ofNat q.header.payload.length).toInt).sum
  gpk : ∀ p ∈ x.gpk, ∃ q ∈ l.sent, q.slot = f.gridSlot ∧
    (p.rtpMarker = true ↔ q.header.marker = 1)
  app : ∀ w, x.app = some w ↔ ∃ early r late, l.shown = early ++ r :: late ∧
    World.Shows l.camera l.base l.world.1.1 r f ∧ r.recvWallNs.toInt = w ∧
    ∀ r' ∈ late, ¬World.Shows l.camera l.base l.world.1.1 r' f

namespace Run

variable {run : Run cap} {g : Group} {cam : Cam} {f : Sender.CaptureFrameRow}

theorem appWallNs_eq (ts : UInt32) :
    run.recording.appWallNs cam (column ts.toNat) =
      ((run.link cam).shown.reverse.find? fun r => r.rtpTs = ts).map
        fun r => r.recvWallNs.toInt := by
  show (((run.link cam).shown.map rxFrameRow).reverse.find? _).map RxFrameRow.recvWallNs = _
  rw [← List.map_reverse, List.find?_map, Option.map_map, ← List.head?_filter,
    ← List.head?_filter]
  refine congrArg (fun rows => Option.map _ (List.head? rows)) (List.filter_congr fun r hr => ?_)
  have hr : r ∈ (run.link cam).shown := List.mem_reverse.mp hr
  obtain ⟨f', hshows⟩ := Link.exists_shown hr
  obtain ⟨ps, hrow, hps⟩ := hshows.packets
  have hsent : (run.link cam).sent ≠ [] := by
    obtain ⟨p, hp, -⟩ := Option.map_eq_some_iff.mp hrow.first
    obtain ⟨q, hq, -⟩ := hps p (List.mem_of_head? hp)
    exact List.ne_nil_of_mem hq
  have hssrc : some (rxFrameRow r).ssrc = run.recording.sender.ssrc cam := by
    rw [ssrc_eq hsent]
    exact congrArg (fun y : UInt32 => some (column y.toNat))
      (World.frame_ssrc (run.link cam).carries hr)
  show decide (some (rxFrameRow r).ssrc = run.recording.sender.ssrc cam ∧
    column r.rtpTs.toNat = column ts.toNat) = decide (r.rtpTs = ts)
  rw [decide_eq_decide, column_toNat_inj]
  exact and_iff_right hssrc

theorem tells (g : Group) (hf : f ∈ (run.link cam).captured) :
    Tells (run.link cam) f (run.recording.frame g cam (txFrameRow f)) := by
  refine ⟨rfl, rfl, rfl, payload_eq hf, fun _ hp => gpk_sent hf hp, fun w => ?_⟩
  show run.recording.appWallNs cam (column f.rtpTs.toNat) = some w ↔ _
  rw [appWallNs_eq, Option.map_eq_some_iff]
  simp only [find?_reverse_eq_some_iff, decide_eq_true_iff, decide_eq_false_iff_not]
  constructor
  · intro h
    obtain ⟨r, ⟨hts, early, late, hsplit, hlate⟩, hw⟩ := h
    have hshown : ∀ r' ∈ r :: late, r' ∈ (run.link cam).shown := fun r' hr' => by
      rw [hsplit]
      exact List.mem_append_right early hr'
    refine ⟨early, r, late, hsplit, ?_, hw, fun r' hr' hshows => hlate r' hr' hshows.ts⟩
    exact (Link.shown_ts_iff (hshown r List.mem_cons_self) hf).mp hts
  · intro h
    obtain ⟨early, r, late, hsplit, hshows, hw, hlate⟩ := h
    refine ⟨r, ⟨hshows.ts, early, late, hsplit, fun r' hr' hts => hlate r' hr' ?_⟩, hw⟩
    have hmem : r' ∈ (run.link cam).shown := by
      rw [hsplit]
      exact List.mem_append_right early (List.mem_cons_of_mem r hr')
    exact (Link.shown_ts_iff hmem hf).mp hts

theorem slotRow_eq (hf : f ∈ (run.link cam).captured) {k : Int}
    (hk : f.gridSlot * run.recording.sender.step cam = k) :
    run.recording.sender.slotRow cam k = some (txFrameRow f) := by
  cases hrow : run.recording.sender.slotRow cam k with
  | none =>
    have hmem : txFrameRow f ∈ (run.recording.sender.frames cam).reverse :=
      List.mem_reverse.mpr (List.mem_map.mpr ⟨f, hf, rfl⟩)
    exact absurd (decide_eq_true hk) (List.find?_eq_none.mp hrow _ hmem)
  | some x =>
    have hx := List.find?_some hrow
    obtain ⟨f', hf', rfl⟩ := List.mem_map.mp (List.mem_reverse.mp (List.mem_of_find?_eq_some hrow))
    have hslots : f'.gridSlot * run.recording.sender.step cam =
        f.gridSlot * run.recording.sender.step cam := (of_decide_eq_true hx).trans hk.symm
    have hstep := run.recording.sender.step_pos cam
    rw [Link.eq_of_gridSlot hf' hf (Int.eq_of_mul_eq_mul_right (by omega) hslots)]

theorem frameAt_captured (g : Group) (warmup : Int) (hf : f ∈ (run.link cam).captured) {k : Int}
    (hk : f.gridSlot * run.recording.sender.step cam = k) :
    Tells (run.link cam) f (run.recording.frameAt g warmup cam k) := by
  rw [Recording.frameAt, Recording.frames_get?, slotRow_eq hf hk]
  exact tells g hf

theorem frameAt_absent (g : Group) (warmup : Int) {k : Int}
    (hnone : ∀ f ∈ (run.link cam).captured, f.gridSlot * run.recording.sender.step cam ≠ k) :
    run.recording.frameAt g warmup cam k = run.recording.sender.placeholder k := by
  have hrow : run.recording.sender.slotRow cam k = none := by
    refine List.find?_eq_none.mpr fun x hx => ?_
    obtain ⟨f, hf, rfl⟩ := List.mem_map.mp (List.mem_reverse.mp hx)
    exact fun hk => hnone f hf (of_decide_eq_true hk)
  rw [Recording.frameAt, Recording.frames_get?, hrow, Option.map_none, Option.none_or]
  split <;> rfl

/-- A picture of the slot at the base instant `k` was shown. -/
def ShownAt (run : Run cap) (cam : Cam) (k : Int) : Prop :=
  ∃ f ∈ (run.link cam).captured, f.gridSlot * run.recording.sender.step cam = k ∧
    ∃ r ∈ (run.link cam).shown,
      World.Shows (run.link cam).camera (run.link cam).base (run.link cam).world.1.1 r f

theorem app_isSome (g : Group) (warmup k : Int) :
    (run.recording.frameAt g warmup cam k).app.isSome = true ↔ run.ShownAt cam k := by
  rw [Option.isSome_iff_exists]
  constructor
  · intro h
    obtain ⟨w, hw⟩ := h
    by_cases hrow : ∃ f ∈ (run.link cam).captured, f.gridSlot * run.recording.sender.step cam = k
    · obtain ⟨f, hf, hk⟩ := hrow
      obtain ⟨early, r, late, hsplit, hshows, -⟩ := ((frameAt_captured g warmup hf hk).app w).mp hw
      refine ⟨f, hf, hk, r, ?_, hshows⟩
      rw [hsplit]
      exact List.mem_append_right early List.mem_cons_self
    · rw [frameAt_absent g warmup fun f hf hk => hrow ⟨f, hf, hk⟩] at hw
      cases hw
  · intro h
    obtain ⟨f, hf, hk, r, hr, hshows⟩ := h
    by_contra hnone
    have hfind : (run.link cam).shown.reverse.find? (fun r => r.rtpTs = f.rtpTs) = none := by
      rw [← Option.map_eq_none_iff, ← appWallNs_eq]
      have happ : (run.recording.frameAt g warmup cam k).app =
          run.recording.appWallNs cam (column f.rtpTs.toNat) := by
        rw [Recording.frameAt, Recording.frames_get?, slotRow_eq hf hk]
        rfl
      rw [← happ]
      exact Option.eq_none_iff_forall_ne_some.mpr fun w hw => hnone ⟨w, hw⟩
    exact List.find?_eq_none.mp hfind r (List.mem_reverse.mpr hr) (decide_eq_true hshows.ts)

/-- No receiver's clock stood at 1970. -/
def Dated (run : Run cap) (cam : Cam) : Prop :=
  ∀ r ∈ (run.link cam).shown, r.recvWallNs.toInt ≠ 0

theorem latency_eq_top (hdated : run.Dated cam) (g : Group) (warmup k : Int) :
    latency g (run.recording.frameAt g warmup) cam k = ⊤ ↔ ¬run.ShownAt cam k := by
  rw [← app_isSome g warmup k, latency]
  cases happ : (run.recording.frameAt g warmup cam k).app with
  | none => simp
  | some w =>
    have hw : w ≠ 0 := by
      have hsome : (run.recording.frameAt g warmup cam k).app.isSome = true := by rw [happ]; rfl
      obtain ⟨f, hf, hk, -⟩ := (app_isSome g warmup k).mp hsome
      obtain ⟨early, r, late, hsplit, -, hw, -⟩ := ((frameAt_captured g warmup hf hk).app w).mp happ
      rw [← hw]
      refine hdated r ?_
      rw [hsplit]
      exact List.mem_append_right early List.mem_cons_self
    simp [hw]

instance {a : Sender.Act} : Decidable (Labels ssrc a) :=
  match a with
  | .mux _ => inferInstanceAs (Decidable (∀ _ ∈ _, ∀ _ ∈ _, _))
  | .stop | .profile _ | .grid _ => .isTrue trivial

instance (x : World cap) (a : Sender.Act ⊕ Ffmpeg.Act) : Decidable (Kept c base ssrc x a) :=
  match a with
  | .inl a => inferInstanceAs (Decidable
      (Carries base ssrc x (.inl a) ∧ Sender.Known c base x.1.1 a ∧ Labels ssrc a))
  | .inr a => inferInstanceAs (Decidable (Carries base ssrc x (.inr a)))

def slotZeroRow : PdcpRow :=
  pdcpRow (Gnb.fillSduRow ⟨1, 1, 1⟩ ⟨8, 8⟩ {} 3
    [(Gnb.packetOf World.slotZeroPacket).bytes.take 30, [],
      (Gnb.packetOf World.slotZeroPacket).bytes.drop 30])

def oneCamera : Group := ⟨"cam0", [], by decide⟩

end Run

end Fusion
end P5G
