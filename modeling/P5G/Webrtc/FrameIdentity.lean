import P5G.Webrtc.GridVideoCapturer

/-!
# From a received frame back to the sender's row

libwebrtc adds one random offset to every RTP timestamp of a stream, so a received
timestamp does not name a row of tx-frames.  `FrameSink::OnFrame` of the receiver
rebuilds the sender's timestamp from the abs-capture-time extension.  libwebrtc
itself is outside: what is used of it is that a frame carries its row's timestamp
plus the offset, and a capture time that is off by at most `slack` milliseconds.
-/

namespace P5G
namespace Webrtc

/-- One of `frame.packet_infos()`, with the capture time of the extension in milliseconds. -/
structure PacketInfo where
  receiveTimeUs : Int
  absCaptureMs : Option Int
  ssrc : UInt32

/-- The columns of rx-frames that `OnFrame` computes. -/
structure DecodedFrameRow where
  frameIdx : Nat
  rtpTs : UInt32
  absCaptureNtpMs : Int
  senderRtpTsEst : Int
  wireOffsetEst : Int
  numPackets : Nat
  firstPktMonoNs : Int
  lastPktMonoNs : Int
  ssrc : UInt32

structure PacketSums where
  acapMs : Int
  firstNs : Int
  lastNs : Int
  npkt : Nat
  ssrc : UInt32

namespace PacketSums

def init : PacketSums := ⟨-1, -1, -1, 0, 0⟩

def add (x : PacketSums) (pi : PacketInfo) : PacketSums :=
  let rt := pi.receiveTimeUs * 1000
  { acapMs := if x.acapMs < 0 then pi.absCaptureMs.getD x.acapMs else x.acapMs
    firstNs := if x.firstNs < 0 ∨ rt < x.firstNs then rt else x.firstNs
    lastNs := if x.lastNs < rt then rt else x.lastNs
    npkt := x.npkt + 1
    ssrc := pi.ssrc }

end PacketSums

/-- `FrameSink::OnFrame`, but for its clock readings and the size of the picture. -/
def onFrame (idx : Nat) (timestamp : UInt32) (infos : List PacketInfo) : DecodedFrameRow :=
  let x := infos.foldl PacketSums.add PacketSums.init
  let est := rtpTsOfNtp x.acapMs
  { frameIdx := idx
    rtpTs := timestamp
    absCaptureNtpMs := x.acapMs
    senderRtpTsEst := if 0 ≤ x.acapMs then est.toNat else -1
    wireOffsetEst := if 0 ≤ x.acapMs then (timestamp - est).toNat else -1
    numPackets := x.npkt
    firstPktMonoNs := x.firstNs
    lastPktMonoNs := x.lastNs
    ssrc := x.ssrc }

def firstCapture (infos : List PacketInfo) : Option Int := infos.findSome? PacketInfo.absCaptureMs

structure Summed (infos : List PacketInfo) (x : PacketSums) : Prop where
  acap : x.acapMs = (firstCapture infos).getD (-1)
  npkt : x.npkt = infos.length
  none : infos = [] → x.firstNs = -1 ∧ x.lastNs = -1
  first : infos ≠ [] → ∃ pi ∈ infos, x.firstNs = pi.receiveTimeUs * 1000
  last : infos ≠ [] → ∃ pi ∈ infos, x.lastNs = pi.receiveTimeUs * 1000
  bounds : ∀ pi ∈ infos, x.firstNs ≤ pi.receiveTimeUs * 1000 ∧ pi.receiveTimeUs * 1000 ≤ x.lastNs

theorem Summed.add {infos : List PacketInfo} {x : PacketSums} {pi : PacketInfo} (h : Summed infos x)
    (htimes : ∀ q ∈ infos ++ [pi], 0 ≤ q.receiveTimeUs)
    (hcaptures : ∀ q ∈ infos ++ [pi], ∀ ms ∈ q.absCaptureMs, 0 ≤ ms) :
    Summed (infos ++ [pi]) (x.add pi) := by
  have hmem : pi ∈ infos ++ [pi] := List.mem_append_right _ (List.mem_singleton_self pi)
  have hpi := htimes pi hmem
  have hfirst : infos ≠ [] → 0 ≤ x.firstNs := by
    intro hne
    obtain ⟨q, hq, heq⟩ := h.first hne
    have := htimes q (List.mem_append_left _ hq)
    omega
  refine ⟨?_, ?_, ?_, ?_, ?_, ?_⟩
  · show (if x.acapMs < 0 then pi.absCaptureMs.getD x.acapMs else x.acapMs) = _
    rw [firstCapture, List.findSome?_append, h.acap, firstCapture]
    cases hfind : infos.findSome? PacketInfo.absCaptureMs with
    | none =>
      rw [Option.getD_none, if_pos (by decide), Option.none_or]
      simp
    | some ms =>
      obtain ⟨q, hq, hms⟩ := List.exists_of_findSome?_eq_some hfind
      have hnonneg := hcaptures q (List.mem_append_left _ hq) ms hms
      rw [Option.getD_some, if_neg (Int.not_lt.mpr hnonneg)]
      rfl
  · show x.npkt + 1 = _
    rw [h.npkt, List.length_append, List.length_singleton]
  · intro hnil
    simp at hnil
  · intro _
    show ∃ q ∈ infos ++ [pi], (if x.firstNs < 0 ∨ _ then _ else x.firstNs) = _
    split
    · exact ⟨pi, hmem, rfl⟩
    · next hkeep =>
      have hne : infos ≠ [] := by
        intro hnil
        rw [(h.none hnil).1] at hkeep
        exact hkeep (Or.inl (by decide))
      obtain ⟨q, hq, heq⟩ := h.first hne
      exact ⟨q, List.mem_append_left _ hq, heq⟩
  · intro _
    show ∃ q ∈ infos ++ [pi], (if x.lastNs < _ then _ else x.lastNs) = _
    split
    · exact ⟨pi, hmem, rfl⟩
    · next hkeep =>
      have hne : infos ≠ [] := by
        intro hnil
        rw [(h.none hnil).2] at hkeep
        omega
      obtain ⟨q, hq, heq⟩ := h.last hne
      exact ⟨q, List.mem_append_left _ hq, heq⟩
  · intro q hq
    show (if x.firstNs < 0 ∨ pi.receiveTimeUs * 1000 < x.firstNs then _ else x.firstNs) ≤ _ ∧
      _ ≤ (if x.lastNs < pi.receiveTimeUs * 1000 then _ else x.lastNs)
    rcases List.mem_append.mp hq with hold | hnew
    · have hbounds := h.bounds q hold
      have hnonneg := hfirst (List.ne_nil_of_mem hold)
      constructor
      · split <;> omega
      · split <;> omega
    · rw [List.mem_singleton.mp hnew]
      constructor
      · split <;> omega
      · split <;> omega

theorem summed_foldl (infos : List PacketInfo) (htimes : ∀ q ∈ infos, 0 ≤ q.receiveTimeUs)
    (hcaptures : ∀ q ∈ infos, ∀ ms ∈ q.absCaptureMs, 0 ≤ ms) :
    Summed infos (infos.foldl PacketSums.add PacketSums.init) := by
  induction infos using List.reverseRecOn with
  | nil =>
    exact ⟨rfl, rfl, fun _ => ⟨rfl, rfl⟩, fun h => absurd rfl h, fun h => absurd rfl h,
      fun q hq => by cases hq⟩
  | append_singleton infos pi ih =>
    rw [List.foldl_append]
    have h := ih (fun q hq => htimes q (List.mem_append_left _ hq))
      (fun q hq => hcaptures q (List.mem_append_left _ hq))
    exact h.add htimes hcaptures

/-- How far apart two timestamps are on the circle of 32-bit numbers. -/
def tsDistance (a b : UInt32) : Nat := min (a - b).toNat (b - a).toNat

theorem rtpTsOfNtp_add (a b : Int) : rtpTsOfNtp (a + b) = rtpTsOfNtp a + rtpTsOfNtp b := by
  rw [rtpTsOfNtp, UInt32.ofInt_add, UInt32.mul_add]
  rfl

theorem toNat_rtpTsOfNtp_sub (a b : Int) :
    ((rtpTsOfNtp a - rtpTsOfNtp b).toNat : Int) = 90 * (a - b) % 2 ^ 32 := by
  have hsplit : rtpTsOfNtp a = rtpTsOfNtp (a - b) + rtpTsOfNtp b := by
    rw [← rtpTsOfNtp_add, Int.sub_add_cancel]
  rw [hsplit, UInt32.add_sub_cancel, toNat_rtpTsOfNtp]

theorem ticks_emod {x : Int} (hpos : 0 < x) (hlt : x < 2 ^ 32) :
    x % 2 ^ 32 = x ∧ -x % 2 ^ 32 = 2 ^ 32 - x := by
  refine ⟨Int.emod_eq_of_lt (Int.le_of_lt hpos) hlt, ?_⟩
  rw [← Int.add_emod_right, Int.emod_eq_of_lt (by omega) (by omega)]
  omega

/-- Milliseconds apart are 90 times as many ticks apart, one way round or the other. -/
theorem tsDistance_rtpTsOfNtp {a b : Int} (h : 90 * |a - b| < 2 ^ 32) :
    (tsDistance (rtpTsOfNtp a) (rtpTsOfNtp b) : Int) =
      min (90 * |a - b|) (2 ^ 32 - 90 * |a - b|) := by
  have hab := toNat_rtpTsOfNtp_sub a b
  have hba := toNat_rtpTsOfNtp_sub b a
  have hswap : 90 * (b - a) = -(90 * (a - b)) := by omega
  rw [tsDistance, Nat.cast_min, hab, hba, hswap]
  rcases Int.lt_trichotomy (a - b) 0 with hneg | hzero | hpos
  · rw [abs_of_neg hneg] at h ⊢
    obtain ⟨hself, hother⟩ := ticks_emod (x := 90 * -(a - b)) (by omega) h
    rw [show 90 * (a - b) = -(90 * -(a - b)) by omega, Int.neg_neg, hself, hother, min_comm]
  · rw [hzero]
    decide
  · rw [abs_of_pos hpos] at h ⊢
    obtain ⟨hself, hother⟩ := ticks_emod (x := 90 * (a - b)) (by omega) h
    rw [hself, hother]

theorem tsDistance_sub (a : UInt32) (e : Int) :
    tsDistance (a - rtpTsOfNtp e) a = tsDistance (rtpTsOfNtp 0) (rtpTsOfNtp e) := by
  have hzero : rtpTsOfNtp 0 = 0 := by decide
  have hdown : a - rtpTsOfNtp e - a = 0 - rtpTsOfNtp e := by grind
  have hup : a - (a - rtpTsOfNtp e) = rtpTsOfNtp e - 0 := by grind
  rw [tsDistance, tsDistance, hzero, hdown, hup]

/-- A frame as libwebrtc delivers it for a row, `offset` being the stream's own and
`slack` what its conversions of the capture time may be off by. -/
structure Carries (r : CaptureFrameRow) (offset : UInt32) (slack : Nat) (timestamp : UInt32)
    (infos : List PacketInfo) : Prop where
  wire : timestamp = r.rtpTs + offset
  times : ∀ q ∈ infos, 0 ≤ q.receiveTimeUs
  captures : ∀ q ∈ infos, ∀ ms ∈ q.absCaptureMs, 0 ≤ ms
  near : ∃ e : Int, |e| ≤ slack ∧ firstCapture infos = some (r.ntpMs + e)

section

variable {v : GridVideoCapturer} {s : CaptureState} {r : CaptureFrameRow}

/-- Two rows of a run are as far apart as the grid is wide. -/
theorem rows_apart {m : Nat} (h : v.machine.Reachable s) (hgrid : 1000 * (m + 1) ≤ v.intervalUs)
    (hdelta : 0 ≤ v.ntpDeltaMs) {r' : CaptureFrameRow} (hr : r ∈ s.frames) (hr' : r' ∈ s.frames)
    (hne : r ≠ r') : ((m + 1 : Nat) : Int) ≤ |r.ntpMs - r'.ntpMs| := by
  have hi := GridVideoCapturer.captures_reachable h
  have hms : 1000 ≤ v.intervalUs := by omega
  have hntp := (hi.rows r hr).onGrid hms hdelta
  have hntp' := (hi.rows r' hr').onGrid hms hdelta
  have hslots : s.frames.Pairwise fun x y => x.gridSlot < y.gridSlot ∨ y.gridSlot < x.gridSlot :=
    hi.slots.imp Or.inl
  have : Std.Symm fun x y : CaptureFrameRow => x.gridSlot < y.gridSlot ∨ y.gridSlot < x.gridSlot :=
    ⟨fun _ _ => Or.symm⟩
  rcases hslots.forall hr hr' hne with hlt | hlt
  · have hstep := GridVideoCapturer.slot_milliseconds hgrid hlt
    rw [hntp, hntp', le_abs]
    omega
  · have hstep := GridVideoCapturer.slot_milliseconds hgrid hlt
    rw [hntp, hntp', le_abs]
    omega

/-- A received frame leads back to its row: the timestamp that is rebuilt is within the slack
of the row's own, and farther than that from every other row's, in a run whose capture times
do not go round the 32-bit timestamp.  The offset that is reported is the stream's own less the
slack, so it is the stream's own, and the timestamp the row's, where the capture time is exact. -/
theorem received_frame_row (h : v.machine.Reachable s) {slack : Nat}
    (hgrid : 1000 * (2 * slack + 1) ≤ v.intervalUs) (hdelta : 0 ≤ v.ntpDeltaMs)
    (hr : r ∈ s.frames) (hspan : ∀ r' ∈ s.frames, 90 * (|r.ntpMs - r'.ntpMs| + 2 * slack) < 2 ^ 32)
    {offset timestamp : UInt32} {infos : List PacketInfo}
    (hc : Carries r offset slack timestamp infos) (idx : Nat) :
    ∃ est : UInt32, (onFrame idx timestamp infos).senderRtpTsEst = est.toNat ∧
      (onFrame idx timestamp infos).wireOffsetEst = (timestamp - est).toNat ∧
      tsDistance est r.rtpTs ≤ 90 * slack ∧
      tsDistance (timestamp - est) offset ≤ 90 * slack ∧
      (∀ r' ∈ s.frames, r' ≠ r → 90 * slack < tsDistance est r'.rtpTs) ∧
      (slack = 0 → est = r.rtpTs ∧ timestamp - est = offset) ∧
      (onFrame idx timestamp infos).numPackets = infos.length ∧
      ∀ q ∈ infos, (onFrame idx timestamp infos).firstPktMonoNs ≤ q.receiveTimeUs * 1000 ∧
        q.receiveTimeUs * 1000 ≤ (onFrame idx timestamp infos).lastPktMonoNs := by
  have hi := GridVideoCapturer.captures_reachable h
  have hsum := summed_foldl infos hc.times hc.captures
  obtain ⟨e, he, hfirst⟩ := hc.near
  have hacap : (infos.foldl PacketSums.add PacketSums.init).acapMs = r.ntpMs + e := by
    rw [hsum.acap, hfirst, Option.getD_some]
  obtain ⟨q, hq, hms⟩ := List.exists_of_findSome?_eq_some hfirst
  have hnonneg : 0 ≤ r.ntpMs + e := hc.captures q hq _ hms
  have hrow := (hi.rows r hr).rtpTs
  have hself := hspan r hr
  rw [Int.sub_self, abs_zero] at hself
  have hest : (r.ntpMs + e) - r.ntpMs = e := by omega
  have hdist : (tsDistance (rtpTsOfNtp (r.ntpMs + e)) r.rtpTs : Int) ≤ 90 * slack := by
    rw [hrow, tsDistance_rtpTsOfNtp (by rw [hest]; omega), hest]
    exact le_trans (min_le_left _ _) (by omega)
  have hdiff : timestamp - rtpTsOfNtp (r.ntpMs + e) = offset - rtpTsOfNtp e := by
    rw [hc.wire, hrow, rtpTsOfNtp_add]
    grind
  refine ⟨rtpTsOfNtp (r.ntpMs + e), ?_, ?_, by exact_mod_cast hdist, ?_, ?_, ?_, hsum.npkt, hsum.bounds⟩
  · rw [onFrame]
    simp only [hacap, if_pos hnonneg]
  · rw [onFrame]
    simp only [hacap, if_pos hnonneg]
  · have hoff : (tsDistance (offset - rtpTsOfNtp e) offset : Int) ≤ 90 * slack := by
      rw [tsDistance_sub, tsDistance_rtpTsOfNtp (by rw [Int.zero_sub, abs_neg]; omega), Int.zero_sub,
        abs_neg]
      exact le_trans (min_le_left _ _) (by omega)
    rw [hdiff]
    exact_mod_cast hoff
  · intro r' hr' hne
    have hapart := rows_apart (m := 2 * slack) h hgrid hdelta hr hr' hne.symm
    have hround := hspan r' hr'
    have htri := abs_sub_abs_le_abs_sub (r.ntpMs - r'.ntpMs) (-e)
    have htri' := abs_add_le (r.ntpMs - r'.ntpMs) e
    have hsum : r.ntpMs - r'.ntpMs - -e = r.ntpMs + e - r'.ntpMs := by omega
    have hsum' : r.ntpMs - r'.ntpMs + e = r.ntpMs + e - r'.ntpMs := by omega
    rw [hsum, abs_neg] at htri
    rw [hsum'] at htri'
    rw [(hi.rows r' hr').rtpTs]
    have hlt : (90 * slack : Int) < tsDistance (rtpTsOfNtp (r.ntpMs + e)) (rtpTsOfNtp r'.ntpMs) := by
      rw [tsDistance_rtpTsOfNtp (by omega), lt_min_iff]
      push_cast at hapart
      constructor <;> omega
    exact_mod_cast hlt
  · intro hzero
    subst hzero
    have he0 : e = 0 := by
      have := abs_nonneg e
      exact abs_eq_zero.mp (by omega)
    subst he0
    rw [hdiff, Int.add_zero, hrow]
    exact ⟨rfl, UInt32.sub_zero offset⟩

end

def lateCapture : PacketInfo := ⟨200000, some 3900000000167, 7⟩

theorem received_frame_row_lateRun : ∃ s r, pattern30.machine.Reachable s ∧ r ∈ s.frames ∧
    r.gridSlot = 5 ∧ ∃ est : UInt32,
      (onFrame 0 (r.rtpTs + 4000000000) [lateCapture]).senderRtpTsEst = est.toNat ∧
      ∀ r' ∈ s.frames, r' ≠ r → 90 < tsDistance est r'.rtpTs := by
  obtain ⟨s, hs, r, hr, hslot, hntp, hspan⟩ := Machine.exists_of_execBy (m := pattern30.machine)
    (G := fun _ _ => True) lateRun
    (P := fun s => ∃ r ∈ s.frames, r.gridSlot = 5 ∧ r.ntpMs = 3900000000166 ∧
      ∀ r' ∈ s.frames, 90 * (|r.ntpMs - r'.ntpMs| + 2 * (1 : Nat)) < 2 ^ 32) (by decide)
  have hc : Carries r 4000000000 1 (r.rtpTs + 4000000000) [lateCapture] :=
    ⟨rfl, by simp [lateCapture], by simp [lateCapture],
      1, by decide, by rw [hntp]; rfl⟩
  obtain ⟨est, hest, -, -, -, hother, -⟩ :=
    received_frame_row hs (by decide) (by decide) hr hspan hc 0
  exact ⟨s, r, hs, hr, hslot, est, hest, hother⟩

end Webrtc
end P5G
