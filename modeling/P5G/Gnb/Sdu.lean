import P5G.Rtp.Header

/-!
# The IP packet a gNB row is filled from

`parse_ip_udp_rtp` of the tracer and `p5g_fill_sdu_row` of the PDCP patch.  The
row is filled from the first 64 bytes of an SDU, copied out of however many
segments the byte buffer has.
-/

namespace P5G
namespace Gnb

structure TraceClockStamp where
  monoNs : Int
  wallNs : Int

structure PdcpSduRow where
  t : TraceClockStamp := ⟨0, 0⟩
  ueIndex : UInt32 := 0
  rbIsDrb : UInt32 := 0
  rbId : UInt32 := 0
  count : UInt32 := 0
  sduBytes : UInt32 := 0
  ipProto : UInt32 := 0
  srcIp : UInt32 := 0
  dstIp : UInt32 := 0
  srcPort : UInt32 := 0
  dstPort : UInt32 := 0
  rtpLike : UInt32 := 0
  rtpPt : UInt32 := 0
  rtpSeq : UInt32 := 0
  rtpTs : UInt32 := 0
  rtpSsrc : UInt32 := 0
  rtpMarker : UInt32 := 0

section Parse

variable (head : List UInt8)

def word16 (i : Nat) : UInt32 := (byte head i).toUInt32 <<< 8 ||| (byte head (i + 1)).toUInt32

def word32 (i : Nat) : UInt32 :=
  (byte head i).toUInt32 <<< 24 ||| (byte head (i + 1)).toUInt32 <<< 16 |||
    (byte head (i + 2)).toUInt32 <<< 8 ||| (byte head (i + 3)).toUInt32

/-- `parse_ip_udp_rtp` from the RTP header on, which starts at `rtp`. -/
def parseRtpAt (rtp : Nat) (r : PdcpSduRow) : PdcpSduRow :=
  if head.length < rtp + 12 then r
  else if byte head rtp >>> 6 ≠ 2 then r
  else
    let pt := (byte head (rtp + 1)).toUInt32 &&& 0x7F
    -- the RTCP packet types 192..223 land here
    if 64 ≤ pt ∧ pt ≤ 95 then r
    else
      { r with
        rtpLike := 1
        rtpMarker := (byte head (rtp + 1)).toUInt32 >>> 7 &&& 0x01
        rtpPt := pt
        rtpSeq := word16 head (rtp + 2)
        rtpTs := word32 head (rtp + 4)
        rtpSsrc := word32 head (rtp + 8) }

/-- `parse_ip_udp_rtp` from the UDP header on, which starts at `ihl`. -/
def parseUdpAt (ihl : Nat) (r : PdcpSduRow) : PdcpSduRow :=
  if r.ipProto ≠ 17 ∨ head.length < ihl + 8 then r
  else
    parseRtpAt head (ihl + 8)
      { r with srcPort := word16 head ihl, dstPort := word16 head (ihl + 2) }

/-- `parse_ip_udp_rtp`; `head` holds the `len` bytes the source may read. -/
def parseIpUdpRtp (r : PdcpSduRow) : PdcpSduRow :=
  if head.length < 20 ∨ byte head 0 >>> 4 ≠ 4 then r
  else
    let ihl := (byte head 0 &&& 0x0F).toNat * 4
    if ihl < 20 ∨ head.length < ihl then r
    else
      parseUdpAt head ihl
        { r with
          ipProto := (byte head 9).toUInt32
          srcIp := word32 head 12
          dstIp := word32 head 16 }

end Parse

def headSize : Nat := 64

/-- The segment loop of `p5g_fill_sdu_row`. -/
def copyHead : List (List UInt8) → List UInt8 → List UInt8
  | [], head => head
  | seg :: rest, head =>
    let k := min seg.length (headSize - head.length)
    let head' := head ++ seg.take k
    if head'.length = headSize then head' else copyHead rest head'

/-- The bearer identity a PDCP entity remembers for the tracer. -/
structure Bearer where
  ueIndex : UInt32
  rbIsDrb : UInt32
  rbId : UInt32

def fillSduRow (bearer : Bearer) (now : TraceClockStamp) (row : PdcpSduRow) (count : UInt32)
    (sdu : List (List UInt8)) : PdcpSduRow :=
  parseIpUdpRtp (copyHead sdu [])
    { row with
      t := now
      ueIndex := bearer.ueIndex
      rbIsDrb := bearer.rbIsDrb
      rbId := bearer.rbId
      count := count
      sduBytes := sdu.flatten.length.toUInt32 }

/-- However the SDU is cut, the head is its first 64 bytes. -/
theorem copyHead_eq (segs : List (List UInt8)) : ∀ head : List UInt8, head.length < headSize →
    copyHead segs head = (head ++ segs.flatten).take headSize := by
  induction segs with
  | nil =>
    intro head hlen
    rw [copyHead, List.flatten_nil, List.append_nil, List.take_of_length_le (Nat.le_of_lt hlen)]
  | cons seg rest ih =>
    intro head hlen
    have hcopied : head ++ seg.take (min seg.length (headSize - head.length)) =
        (head ++ seg).take headSize := by
      rw [List.take_append, List.take_of_length_le (Nat.le_of_lt hlen)]
      rcases Nat.le_total seg.length (headSize - head.length) with h | h
      · rw [Nat.min_eq_left h, List.take_of_length_le (Nat.le_refl _), List.take_of_length_le h]
      · rw [Nat.min_eq_right h]
    simp only [copyHead, hcopied]
    split
    · next hfull =>
      have hle : headSize ≤ (head ++ seg).length := by
        rw [List.length_take] at hfull
        exact hfull ▸ Nat.min_le_right _ _
      rw [List.flatten_cons, ← List.append_assoc]
      exact (List.take_append_of_le_length hle).symm
    · next hroom =>
      have hlt : (head ++ seg).length < headSize := by
        rw [List.length_take] at hroom
        exact Nat.lt_of_not_le (fun hle => hroom (Nat.min_eq_left hle))
      rw [List.take_of_length_le (Nat.le_of_lt hlt), ih _ hlt, List.flatten_cons, List.append_assoc]

theorem byte_take {l : List UInt8} {n i : Nat} (h : i < n) : byte (l.take n) i = byte l i := by
  simp only [byte, List.getD_eq_getElem?_getD, List.getElem?_take_of_lt h]

theorem byte_append_left {l m : List UInt8} {i : Nat} (h : i < l.length) :
    byte (l ++ m) i = byte l i := by
  simp only [byte, List.getD_eq_getElem?_getD, List.getElem?_append_left h]

theorem byte_append_right {l m : List UInt8} (i : Nat) :
    byte (l ++ m) (l.length + i) = byte m i := by
  simp only [byte, List.getD_eq_getElem?_getD,
    List.getElem?_append_right (Nat.le_add_right _ _), Nat.add_sub_cancel_left]

/-- A datagram in an unfragmented IPv4 packet with an `ihl`-word header. -/
structure UdpPacket where
  ip : List UInt8
  udp : List UInt8
  datagram : List UInt8
  ihl : Nat
  ihl_ge : 5 ≤ ihl
  ip_length : ip.length = 4 * ihl
  version : byte ip 0 >>> 4 = 4
  headerLength : (byte ip 0 &&& 0x0F).toNat = ihl
  protocol : byte ip 9 = 17
  udp_length : udp.length = 8

namespace UdpPacket

variable (pkt : UdpPacket)

def bytes : List UInt8 := pkt.ip ++ (pkt.udp ++ pkt.datagram)

def srcPort : UInt16 := be16 (byte pkt.udp 0) (byte pkt.udp 1)

def dstPort : UInt16 := be16 (byte pkt.udp 2) (byte pkt.udp 3)

def head : List UInt8 := pkt.bytes.take headSize

theorem head_length : pkt.head.length = min headSize (4 * pkt.ihl + 8 + pkt.datagram.length) := by
  rw [head, List.length_take, bytes, List.length_append, List.length_append, pkt.ip_length,
    pkt.udp_length, Nat.add_assoc]

theorem ihl_le : pkt.ihl ≤ 15 := by
  rw [← pkt.headerLength]
  exact Nat.and_le_right

theorem byte_ip {i : Nat} (h : i < 20) : byte pkt.head i = byte pkt.ip i := by
  have := pkt.ihl_ge
  have hlen : i < pkt.ip.length := by rw [pkt.ip_length]; omega
  rw [head, byte_take (by simp only [headSize]; omega), bytes, byte_append_left hlen]

theorem byte_udp {i : Nat} (h : i < 8) (hhead : 4 * pkt.ihl + i < headSize) :
    byte pkt.head (4 * pkt.ihl + i) = byte pkt.udp i := by
  rw [head, byte_take hhead, bytes, ← pkt.ip_length, byte_append_right,
    byte_append_left (by rw [pkt.udp_length]; exact h)]

theorem byte_datagram {i : Nat} (hhead : 4 * pkt.ihl + 8 + i < headSize) :
    byte pkt.head (4 * pkt.ihl + 8 + i) = byte pkt.datagram i := by
  rw [head, byte_take hhead, bytes, Nat.add_assoc, ← pkt.ip_length, byte_append_right,
    ← pkt.udp_length, byte_append_right]

/-- The IP part of a packet is always read, and says UDP. -/
theorem parseIp (r : PdcpSduRow) :
    parseIpUdpRtp pkt.head r = parseUdpAt pkt.head (4 * pkt.ihl)
      { r with ipProto := 17, srcIp := word32 pkt.head 12, dstIp := word32 pkt.head 16 } := by
  have hge := pkt.ihl_ge
  have hle := pkt.ihl_le
  have hlen := pkt.head_length
  have hsize : headSize = 64 := rfl
  rw [parseIpUdpRtp, pkt.byte_ip (by decide), pkt.byte_ip (i := 9) (by decide), pkt.version,
    pkt.headerLength, pkt.protocol, if_neg (by simp only [not_or, not_not, and_true]; omega)]
  simp only []
  rw [if_neg (by omega), Nat.mul_comm]
  rfl

end UdpPacket

theorem be16_toUInt32 (a b : UInt8) : (be16 a b).toUInt32 = a.toUInt32 <<< 8 ||| b.toUInt32 := by
  have ha := a.toNat_lt
  apply UInt32.toNat_inj.mp
  have e : a.toNat <<< 8 < 2 ^ 16 := by rw [Nat.shiftLeft_eq]; omega
  have hs : (a.toUInt16 <<< 8).toNat = a.toNat <<< 8 := by
    rw [UInt16.toNat_shiftLeft, UInt8.toNat_toUInt16]
    exact Nat.mod_eq_of_lt e
  have hs' : (a.toUInt32 <<< 8).toNat = a.toNat <<< 8 := by
    rw [UInt32.toNat_shiftLeft, UInt8.toNat_toUInt32]
    exact Nat.mod_eq_of_lt (Nat.lt_trans e (by decide))
  rw [be16, UInt16.toNat_toUInt32, UInt16.toNat_or, UInt32.toNat_or, hs, hs', UInt8.toNat_toUInt16,
    UInt8.toNat_toUInt32]

theorem marker_toUInt32 (b : UInt8) : (b >>> 7).toUInt32 = b.toUInt32 >>> 7 &&& 0x01 := by
  have hb := b.toNat_lt
  apply UInt32.toNat_inj.mp
  have hs : (b.toUInt32 >>> 7).toNat = b.toNat >>> 7 := by
    rw [UInt32.toNat_shiftRight, UInt8.toNat_toUInt32]
    rfl
  have hlt : b.toNat >>> 7 < 2 := by rw [Nat.shiftRight_eq_div_pow]; omega
  rw [UInt8.toNat_toUInt32, UInt8.toNat_shiftRight, UInt32.toNat_and, hs]
  show b.toNat >>> 7 = b.toNat >>> 7 &&& 1
  rw [Nat.and_one_is_mod, Nat.mod_eq_of_lt hlt]

/-- Seven bits of the second byte, as the gNB and as the applications take them. -/
theorem payloadType_range (b : UInt8) :
    (64 ≤ b.toUInt32 &&& 0x7F ∧ b.toUInt32 &&& 0x7F ≤ 95) ↔
      (64 ≤ b &&& 0x7f ∧ b &&& 0x7f ≤ 95) := by
  have e : b.toUInt32 &&& 0x7F = (b &&& 0x7f).toUInt32 := by simp
  rw [e, UInt32.le_iff_toNat_le, UInt32.le_iff_toNat_le, UInt8.le_iff_toNat_le,
    UInt8.le_iff_toNat_le, UInt8.toNat_toUInt32]
  rfl

/-- The RTCP packet types 200..206 are among the payload types 64..95. -/
theorem rtcp_payloadType {b : UInt8} (hlo : 200 ≤ b) (hhi : b ≤ 206) :
    64 ≤ b &&& 0x7f ∧ b &&& 0x7f ≤ 95 := by
  have e : (b &&& 0x7f).toNat = b.toNat % 128 := by
    rw [UInt8.toNat_and]
    exact Nat.and_two_pow_sub_one_eq_mod b.toNat 7
  rw [UInt8.le_iff_toNat_le] at hlo hhi
  rw [UInt8.le_iff_toNat_le, UInt8.le_iff_toNat_le, e]
  change 200 ≤ b.toNat at hlo
  change b.toNat ≤ 206 at hhi
  change 64 ≤ b.toNat % 128 ∧ b.toNat % 128 ≤ 95
  omega

/-- The row says of the packet what `ParseRtp` and the UDP header say. -/
structure SameFrame (r : PdcpSduRow) (h : RtpHeader) (pkt : UdpPacket) : Prop where
  rtpLike : r.rtpLike = 1
  marker : r.rtpMarker = h.marker.toUInt32
  pt : r.rtpPt = h.pt.toUInt32
  seq : r.rtpSeq = h.seq.toUInt32
  ts : r.rtpTs = h.ts
  ssrc : r.rtpSsrc = h.ssrc
  srcPort : r.srcPort = pkt.srcPort.toUInt32
  dstPort : r.dstPort = pkt.dstPort.toUInt32

theorem sameFrame_of_parseRtp (pkt : UdpPacket) (hihl : pkt.ihl ≤ 11) {h : RtpHeader}
    (hp : parseRtp pkt.datagram = some h) (hpt : ¬ (64 ≤ h.pt ∧ h.pt ≤ 95)) (r : PdcpSduRow) :
    SameFrame (parseIpUdpRtp pkt.head r) h pkt := by
  obtain ⟨hlen, hversion, hhpt, hmarker, hseq, hts, hssrc⟩ := parseRtp_fixed hp
  have hge := pkt.ihl_ge
  have hsize : headSize = 64 := rfl
  have hhead := pkt.head_length
  have datagram {i : Nat} (hi : i < 12) :
      byte pkt.head (4 * pkt.ihl + 8 + i) = byte pkt.datagram i :=
    pkt.byte_datagram (by omega)
  have udp {i : Nat} (hi : i < 8) : byte pkt.head (4 * pkt.ihl + i) = byte pkt.udp i :=
    pkt.byte_udp hi (by omega)
  have datagram0 : byte pkt.head (4 * pkt.ihl + 8) = byte pkt.datagram 0 := datagram (i := 0) (by decide)
  have udp0 : byte pkt.head (4 * pkt.ihl) = byte pkt.udp 0 := udp (i := 0) (by decide)
  have hout : ¬ (64 ≤ (byte pkt.datagram 1).toUInt32 &&& 0x7F ∧
      (byte pkt.datagram 1).toUInt32 &&& 0x7F ≤ 95) := by
    rw [payloadType_range, ← hhpt]
    exact hpt
  have hread : ¬ ((17 : UInt32) ≠ 17 ∨ pkt.head.length < 4 * pkt.ihl + 8) := by
    simp only [ne_eq, not_true, false_or]
    omega
  rw [pkt.parseIp, parseUdpAt, if_neg hread, parseRtpAt, if_neg (by omega), datagram0,
    if_neg (by rw [hversion]; exact fun e => e rfl), datagram (i := 1) (by decide), if_neg hout]
  refine ⟨rfl, ?_, ?_, ?_, ?_, ?_, ?_, ?_⟩
  · rw [hmarker, marker_toUInt32]
  · rw [hhpt]
    simp
  · rw [hseq, be16_toUInt32, ← datagram (i := 2) (by decide), ← datagram (i := 3) (by decide)]
    rfl
  · rw [hts, ← datagram (i := 4) (by decide), ← datagram (i := 5) (by decide),
      ← datagram (i := 6) (by decide), ← datagram (i := 7) (by decide)]
    rfl
  · rw [hssrc, ← datagram (i := 8) (by decide), ← datagram (i := 9) (by decide),
      ← datagram (i := 10) (by decide), ← datagram (i := 11) (by decide)]
    rfl
  · rw [UdpPacket.srcPort, be16_toUInt32, ← udp0, ← udp (i := 1) (by decide)]
    rfl
  · rw [UdpPacket.dstPort, be16_toUInt32, ← udp (i := 2) (by decide), ← udp (i := 3) (by decide)]
    rfl

/-- A second byte of an RTCP packet keeps the row from being marked as RTP. -/
theorem rtpLike_of_rtcp (pkt : UdpPacket) (hlo : 200 ≤ byte pkt.datagram 1)
    (hhi : byte pkt.datagram 1 ≤ 206) (r : PdcpSduRow) :
    (parseIpUdpRtp pkt.head r).rtpLike = r.rtpLike := by
  have hsize : headSize = 64 := rfl
  have hhead := pkt.head_length
  rw [pkt.parseIp, parseUdpAt]
  split
  · rfl
  · rw [parseRtpAt]
    split
    · rfl
    · next hlen =>
      split
      · rfl
      · have hpt : 64 ≤ (byte pkt.head (4 * pkt.ihl + 8 + 1)).toUInt32 &&& 0x7F ∧
            (byte pkt.head (4 * pkt.ihl + 8 + 1)).toUInt32 &&& 0x7F ≤ 95 := by
          rw [pkt.byte_datagram (by omega), payloadType_range]
          exact rtcp_payloadType hlo hhi
        rw [if_pos hpt]

/-- Both programs take the same datagrams for RTP and read the same frame
identity from them, however the gNB's buffer is cut. -/
theorem frame_identity (pkt : UdpPacket) (segs : List (List UInt8)) (hsegs : segs.flatten = pkt.bytes)
    (bearer : Bearer) (now : TraceClockStamp) (count : UInt32) :
    (pkt.ihl ≤ 11 → ∀ h, parseRtp pkt.datagram = some h → ¬ (64 ≤ h.pt ∧ h.pt ≤ 95) →
      isRtcp pkt.datagram = false ∧
        SameFrame (fillSduRow bearer now {} count segs) h pkt) ∧
    (4 ≤ pkt.datagram.length → byte pkt.datagram 0 >>> 6 = 2 → 200 ≤ byte pkt.datagram 1 →
      byte pkt.datagram 1 ≤ 206 →
      isRtcp pkt.datagram = true ∧ (fillSduRow bearer now {} count segs).rtpLike = 0) := by
  have hhead : copyHead segs [] = pkt.head := by
    rw [copyHead_eq segs [] (by decide), List.nil_append, hsegs, UdpPacket.head]
  rw [fillSduRow, hhead]
  refine ⟨fun hihl h hp hpt => ⟨?_, sameFrame_of_parseRtp pkt hihl hp hpt _⟩,
    fun hlen hversion hlo hhi => ⟨?_, rtpLike_of_rtcp pkt hlo hhi _⟩⟩
  · by_contra hrtcp
    simp only [isRtcp, decide_eq_false_iff_not, not_not] at hrtcp
    rw [(parseRtp_fixed hp).2.2.1] at hpt
    exact hpt (rtcp_payloadType hrtcp.2.2.1 hrtcp.2.2.2)
  · simp only [isRtcp, decide_eq_true_eq]
    exact ⟨hlen, hversion, hlo, hhi⟩

def packetOf (datagram : List UInt8) : UdpPacket where
  ip := [0x45, 0, 0, 40, 0, 0, 0x40, 0, 64, 17, 0, 0, 10, 0, 0, 1, 10, 0, 0, 2]
  udp := [0x13, 0x88, 0x13, 0x8a, 0, 20, 0, 0]
  datagram := datagram
  ihl := 5
  ihl_ge := by decide
  ip_length := rfl
  version := by decide
  headerLength := by decide
  protocol := by decide
  udp_length := rfl

theorem frame_identity_packetOf :
    let rtp := packetOf [0x80, 0xe0, 0, 7, 0, 0, 0, 90, 1, 2, 3, 4]
    let rtcp := packetOf [0x80, 200, 0, 0]
    (∃ h, parseRtp rtp.datagram = some h ∧ isRtcp rtp.datagram = false ∧
      SameFrame (fillSduRow ⟨1, 1, 1⟩ ⟨0, 0⟩ {} 3 [rtp.bytes.take 30, [], rtp.bytes.drop 30])
        h rtp) ∧
      isRtcp rtcp.datagram = true ∧ (fillSduRow ⟨1, 1, 1⟩ ⟨0, 0⟩ {} 3 [rtcp.bytes]).rtpLike = 0 := by
  intro rtp rtcp
  refine ⟨?_, (frame_identity rtcp [rtcp.bytes] (by simp) _ _ _).2 (by decide) (by decide)
    (by decide) (by decide)⟩
  have hp : (parseRtp rtp.datagram).isSome = true := by decide
  obtain ⟨h, hh⟩ := Option.isSome_iff_exists.mp hp
  have hpt : ¬ (64 ≤ h.pt ∧ h.pt ≤ 95) := by
    rw [(parseRtp_fixed hh).2.2.1]
    decide
  exact ⟨h, hh, (frame_identity rtp [rtp.bytes.take 30, [], rtp.bytes.drop 30] (by simp) _ _ _).1
    (by decide) h hh hpt⟩

end Gnb
end P5G
