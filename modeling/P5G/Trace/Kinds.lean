import P5G.Trace.Formats
import P5G.Trace.Reader

/-!
# What the columns of a trace hold

For each kind of trace file, what a row should read back as: the name of every
column with the value of the row field of that name.
-/

namespace P5G
namespace Trace

open Numeral TraceIo Lines

inductive Kind where
  | captureFrame
  | decodedFrame
  | encodedFrame
  | rtpPacket
  | rtcpPacket
  | decodedFrameLedger
  | bsr
  | sr
  | csi
  | macUlPdu
  | rlcUl
  | pdcpSdu
  deriving DecidableEq

/-- An address in dotted form, the high byte first. -/
def dotted (ip : UInt32) : List Char :=
  ['.'].intercalate ([ip.toNat / 2 ^ 24, ip.toNat / 2 ^ 16 % 256, ip.toNat / 2 ^ 8 % 256,
    ip.toNat % 256].map fun b : Nat => decimal b)

def rtcpParts (r : RtcpPacketRow) : List (UInt8 × UInt8) :=
  (r.pt.toList.zip r.fmt.toList).take r.numParts.toNat

def partText (p : UInt8 × UInt8) : List Char := decimal p.1.toNat ++ '/' :: decimal p.2.toNat

def partsText (r : RtcpPacketRow) : List Char := [';'].intercalate ((rtcpParts r).map partText)

namespace Kind

def Row : Kind → Type
  | .captureFrame => CaptureFrameRow
  | .decodedFrame => DecodedFrameRow
  | .encodedFrame => EncodedFrameRow
  | .rtpPacket => RtpPacketRow
  | .rtcpPacket => RtcpPacketRow
  | .decodedFrameLedger => DecodedFrameLedgerRow
  | .bsr => BsrRow
  | .sr => SrRow
  | .csi => CsiRow
  | .macUlPdu => MacUlPduRow
  | .rlcUl => RlcUlRow
  | .pdcpSdu => PdcpSduRow

def header : Kind → String
  | .captureFrame => captureFrameHeader
  | .decodedFrame => decodedFrameHeader
  | .encodedFrame => encodedFrameHeader
  | .rtpPacket => rtpPacketHeader
  | .rtcpPacket => rtcpPacketHeader
  | .decodedFrameLedger => decodedFrameLedgerHeader
  | .bsr => hdrBsr
  | .sr => hdrSr
  | .csi => hdrCsi
  | .macUlPdu => hdrMacUlPdu
  | .rlcUl => hdrRlcUl
  | .pdcpSdu => hdrPdcpSdu

def format : (k : Kind) → k.Row → List Char
  | .captureFrame => formatCaptureFrameRow
  | .decodedFrame => formatDecodedFrameRow
  | .encodedFrame => formatEncodedFrameRow
  | .rtpPacket => formatRtpPacketRow
  | .rtcpPacket => formatRtcpPacketRow
  | .decodedFrameLedger => formatDecodedFrameLedgerRow
  | .bsr => fmtBsr
  | .sr => fmtSr
  | .csi => fmtCsi
  | .macUlPdu => fmtMacUlPdu
  | .rlcUl => fmtRlcUl
  | .pdcpSdu => fmtPdcpSdu

end Kind

def captureFrameFields (r : CaptureFrameRow) : List (String × Value) :=
  [("frame_idx", .int r.frameIdx.toInt), ("grid_slot", .int r.gridSlot.toInt),
    ("src_frame_idx", .int r.srcFrameIdx.toInt), ("rtp_ts", .int r.rtpTs.toNat),
    ("capture_wall_ns", .int r.captureWallNs.toInt),
    ("capture_mono_ns", .int r.captureMonoNs.toInt), ("width", .int r.width.toInt),
    ("height", .int r.height.toInt), ("to_encoder", .int r.toEncoder.toInt)]

def decodedFrameFields (r : DecodedFrameRow) : List (String × Value) :=
  [("frame_idx", .int r.frameIdx.toInt), ("rtp_ts", .int r.rtpTs.toNat),
    ("abs_capture_ntp_ms", .int r.absCaptureNtpMs.toInt),
    ("sender_rtp_ts_est", .int r.senderRtpTsEst.toInt),
    ("wire_offset_est", .int r.wireOffsetEst.toInt), ("recv_wall_ns", .int r.recvWallNs.toInt),
    ("recv_mono_ns", .int r.recvMonoNs.toInt), ("width", .int r.width.toInt),
    ("height", .int r.height.toInt), ("num_packets", .int r.numPackets.toInt),
    ("first_pkt_mono_ns", .int r.firstPktMonoNs.toInt),
    ("last_pkt_mono_ns", .int r.lastPktMonoNs.toInt), ("ssrc", .int r.ssrc.toNat)]

def encodedFrameFields (r : EncodedFrameRow) : List (String × Value) :=
  [("rtp_ts", .int r.rtpTs.toNat), ("encode_done_mono_ns", .int r.encodeDoneMonoNs.toInt),
    ("encode_done_wall_ns", .int r.encodeDoneWallNs.toInt), ("bytes", .int r.bytes.toInt),
    ("width", .int r.width.toInt), ("height", .int r.height.toInt),
    ("frame_type", .int r.frameType.toInt), ("qp", .int r.qp.toInt),
    ("temporal_idx", .int r.temporalIdx.toInt), ("spatial_idx", .int r.spatialIdx.toInt),
    ("simulcast_idx", .int r.simulcastIdx.toInt),
    ("capture_time_ms", .int r.captureTimeMs.toInt), ("ntp_time_ms", .int r.ntpTimeMs.toInt),
    ("codec", .int r.codec.toInt), ("is_idr", .int r.isIdr.toInt),
    ("at_target_quality", .int r.atTargetQuality.toInt)]

def rtpPacketFields (r : RtpPacketRow) : List (String × Value) :=
  [("log_mono_ns", .int r.logMonoNs.toInt), ("log_wall_ns", .int r.logWallNs.toInt),
    ("dir", .str (dirName r.dir)), ("seq", .int r.seq.toNat), ("rtp_ts", .int r.rtpTs.toNat),
    ("ssrc", .int r.ssrc.toNat), ("pt", .int r.pt.toNat), ("marker", .int r.marker.toNat),
    ("pkt_bytes", .int r.pktBytes.toInt), ("hdr_bytes", .int r.hdrBytes.toInt),
    ("pad_bytes", .int r.padBytes.toInt), ("payload_bytes", .int r.payloadBytes.toInt),
    ("csrc_count", .int r.csrcCount.toNat), ("has_ext", .int r.hasExt.toNat),
    ("probe_cluster_id", .int r.probeClusterId.toInt)]

def rtcpPacketFields (r : RtcpPacketRow) : List (String × Value) :=
  [("log_mono_ns", .int r.logMonoNs.toInt), ("log_wall_ns", .int r.logWallNs.toInt),
    ("dir", .str (dirName r.dir)), ("bytes", .int r.bytes.toInt),
    ("sender_ssrc", .int r.senderSsrc.toNat), ("num_parts", .int r.numParts.toNat),
    ("parts", .str (partsText r))]

def decodedFrameLedgerFields (r : DecodedFrameLedgerRow) : List (String × Value) :=
  [("rtp_ts", .int r.rtpTs.toNat), ("decode_start_mono_ns", .int r.decodeStartMonoNs.toInt),
    ("decode_done_mono_ns", .int r.decodeDoneMonoNs.toInt),
    ("decode_done_wall_ns", .int r.decodeDoneWallNs.toInt),
    ("input_bytes", .int r.inputBytes.toInt), ("frame_type", .int r.frameType.toInt),
    ("render_time_ms", .int r.renderTimeMs.toInt),
    ("decoder_decode_time_ms", .int r.decoderDecodeTimeMs.toInt), ("qp", .int r.qp.toInt),
    ("width", .int r.width.toInt), ("height", .int r.height.toInt)]

def stampFields (t : ClockStamp) (rest : List (String × Value)) : List (String × Value) :=
  ("mono_ns", .int t.monoNs.toInt) :: ("wall_ns", .int t.wallNs.toInt) :: rest

def bsrFields (r : BsrRow) : List (String × Value) :=
  stampFields r.t
    [("sfn", .int r.sfn.toNat), ("slot", .int r.slot.toNat), ("ue_index", .int r.ueIndex.toNat),
      ("rnti", .int r.rnti.toNat), ("bsr_format", .int r.bsrFormat.toNat),
      ("lcg_id", .int r.lcgId.toNat), ("buffer_size_index", .int r.bufferSizeIndex.toNat),
      ("buffer_bytes", .int r.bufferBytes.toNat)]

def srFields (r : SrRow) : List (String × Value) :=
  stampFields r.t
    [("sfn", .int r.sfn.toNat), ("slot", .int r.slot.toNat), ("ue_index", .int r.ueIndex.toNat),
      ("rnti", .int r.rnti.toNat), ("pucch_format", .int r.pucchFormat.toNat)]

def csiFields (r : CsiRow) : List (String × Value) :=
  stampFields r.t
    [("sfn", .int r.sfn.toNat), ("slot", .int r.slot.toNat), ("ue_index", .int r.ueIndex.toNat),
      ("rnti", .int r.rnti.toNat), ("cqi", .int r.cqi.toInt), ("ri", .int r.ri.toInt),
      ("valid", .int r.valid.toNat)]

def macUlPduFields (r : MacUlPduRow) : List (String × Value) :=
  stampFields r.t
    [("sfn", .int r.sfn.toNat), ("slot", .int r.slot.toNat), ("ue_index", .int r.ueIndex.toNat),
      ("rnti", .int r.rnti.toNat), ("harq_id", .int r.harqId.toNat),
      ("pdu_bytes", .int r.pduBytes.toNat)]

def rlcUlFields (r : RlcUlRow) : List (String × Value) :=
  stampFields r.t
    [("ue_index", .int r.ueIndex.toNat), ("rb_is_drb", .int r.rbIsDrb.toNat),
      ("rb_id", .int r.rbId.toNat), ("event", .str (rlcEventName r.event)),
      ("sn", .int r.sn.toInt), ("bytes", .int r.bytes.toNat), ("rx_next", .int r.rxNext.toNat),
      ("rx_highest_status", .int r.rxHighestStatus.toNat)]

def pdcpSduFields (r : PdcpSduRow) : List (String × Value) :=
  stampFields r.t
    [("ue_index", .int r.ueIndex.toNat), ("rb_is_drb", .int r.rbIsDrb.toNat),
      ("rb_id", .int r.rbId.toNat), ("count", .int r.count.toNat),
      ("sdu_bytes", .int r.sduBytes.toNat), ("ip_proto", .int r.ipProto.toNat),
      ("src_ip", .str (dotted r.srcIp)), ("dst_ip", .str (dotted r.dstIp)),
      ("src_port", .int r.srcPort.toNat), ("dst_port", .int r.dstPort.toNat),
      ("rtp_like", .int r.rtpLike.toNat), ("rtp_pt", .int r.rtpPt.toNat),
      ("rtp_seq", .int r.rtpSeq.toNat), ("rtp_ts", .int r.rtpTs.toNat),
      ("rtp_ssrc", .int r.rtpSsrc.toNat), ("rtp_marker", .int r.rtpMarker.toNat)]

def Kind.fields : (k : Kind) → k.Row → List (String × Value)
  | .captureFrame => captureFrameFields
  | .decodedFrame => decodedFrameFields
  | .encodedFrame => encodedFrameFields
  | .rtpPacket => rtpPacketFields
  | .rtcpPacket => rtcpPacketFields
  | .decodedFrameLedger => decodedFrameLedgerFields
  | .bsr => bsrFields
  | .sr => srFields
  | .csi => csiFields
  | .macUlPdu => macUlPduFields
  | .rlcUl => rlcUlFields
  | .pdcpSdu => pdcpSduFields

def text : Value → List Char
  | .int i => decimal i
  | .float s => s
  | .str s => s

instance : (k : Kind) → Inhabited k.Row
  | .captureFrame => inferInstanceAs (Inhabited CaptureFrameRow)
  | .decodedFrame => inferInstanceAs (Inhabited DecodedFrameRow)
  | .encodedFrame => inferInstanceAs (Inhabited EncodedFrameRow)
  | .rtpPacket => inferInstanceAs (Inhabited RtpPacketRow)
  | .rtcpPacket => inferInstanceAs (Inhabited RtcpPacketRow)
  | .decodedFrameLedger => inferInstanceAs (Inhabited DecodedFrameLedgerRow)
  | .bsr => inferInstanceAs (Inhabited BsrRow)
  | .sr => inferInstanceAs (Inhabited SrRow)
  | .csi => inferInstanceAs (Inhabited CsiRow)
  | .macUlPdu => inferInstanceAs (Inhabited MacUlPduRow)
  | .rlcUl => inferInstanceAs (Inhabited RlcUlRow)
  | .pdcpSdu => inferInstanceAs (Inhabited PdcpSduRow)

def Kind.columns (k : Kind) : List (List Char) :=
  (k.fields default).map fun f => f.1.toList

theorem names_eq (k : Kind) (r : k.Row) :
    ((k.fields r).map fun f => f.1.toList) = k.columns := by
  have hnames : (k.fields r).map Prod.fst = (k.fields default).map Prod.fst := by
    cases k <;> rfl
  have hlists := congrArg (List.map String.toList) hnames
  rwa [List.map_map, List.map_map] at hlists

theorem two_le_columns (k : Kind) : 2 ≤ k.columns.length := by
  cases k <;> decide

theorem columns_plain (k : Kind) :
    (k.columns.all fun name => name.all fun c => c ∉ [',', '\n', '\r', '#', '"']) = true := by
  cases k <;> decide +kernel

theorem not_mem_columns (k : Kind) {c : Char} (hc : c ∈ [',', '\n', '\r', '#', '"']) :
    ∀ name ∈ k.columns, c ∉ name := by
  intro name hname hin
  have hplain := List.all_eq_true.mp (columns_plain k) name hname
  exact of_decide_eq_true (List.all_eq_true.mp hplain c hin) hc

theorem header_eq (k : Kind) : k.header = ",".intercalate ((k.fields default).map Prod.fst) := by
  cases k <;> decide +kernel

theorem header_joined (k : Kind) : k.header.toList = [','].intercalate k.columns := by
  rw [header_eq, String.toList_intercalate, List.map_map]
  rfl

/-- The header lists the columns in their order. -/
theorem header_split (k : Kind) : k.header.toList.splitOn ',' = k.columns := by
  rw [header_joined]
  apply List.splitOn_intercalate
  · exact not_mem_columns k (by decide)
  · intro hnil
    have htwo := two_le_columns k
    rw [hnil, List.length_nil] at htwo
    omega

theorem nodup_names (k : Kind) : ((k.fields default).map Prod.fst).Nodup := by
  cases k <;> decide +kernel

/-- No column comes twice. -/
theorem nodup_columns (k : Kind) : k.columns.Nodup := by
  have hcolumns : k.columns = ((k.fields default).map Prod.fst).map String.toList := by
    rw [List.map_map]
    rfl
  rw [hcolumns]
  exact (nodup_names k).map fun _ _ => String.toList_injective

def Kind.cells (k : Kind) (r : k.Row) : List (List Char) := (k.fields r).map fun f => text f.2

theorem toNat_byte (ip : UInt32) (n : Nat) (hn : n < 32) :
    (ip >>> UInt32.ofNat n &&& 0xFF).toNat = ip.toNat / 2 ^ n % 256 := by
  have hmask : (0xFF : UInt32).toNat = 2 ^ 8 - 1 := rfl
  have hshift : (UInt32.ofNat n).toNat = n := by
    rw [UInt32.toNat_ofNat_of_lt' (by simp [UInt32.size]; omega)]
  rw [UInt32.toNat_and, UInt32.toNat_shiftRight, hmask, Nat.and_two_pow_sub_one_eq_mod, hshift,
    Nat.mod_eq_of_lt hn, Nat.shiftRight_eq_div_pow]

theorem dotted_eq (ip : UInt32) : dotted ip =
    decimal (ip >>> 24 &&& 0xFF).toNat ++ '.' :: (decimal (ip >>> 16 &&& 0xFF).toNat ++
      '.' :: (decimal (ip >>> 8 &&& 0xFF).toNat ++ '.' :: decimal (ip &&& 0xFF).toNat)) := by
  have h24 : (ip >>> 24 &&& 0xFF).toNat = ip.toNat / 2 ^ 24 := by
    have hlt := ip.toNat_lt
    exact (toNat_byte ip 24 (by decide)).trans (Nat.mod_eq_of_lt (by omega))
  have h16 : (ip >>> 16 &&& 0xFF).toNat = ip.toNat / 2 ^ 16 % 256 := toNat_byte ip 16 (by decide)
  have h8 : (ip >>> 8 &&& 0xFF).toNat = ip.toNat / 2 ^ 8 % 256 := toNat_byte ip 8 (by decide)
  have h0 : (ip &&& 0xFF).toNat = ip.toNat % 256 := by
    have hmask : (0xFF : UInt32).toNat = 2 ^ 8 - 1 := rfl
    rw [UInt32.toNat_and, hmask, Nat.and_two_pow_sub_one_eq_mod]
  rw [h24, h16, h8, h0, dotted]
  simp

theorem length_rtcpParts (r : RtcpPacketRow) :
    (rtcpParts r).length = min r.numParts.toNat maxRtcpParts := by
  simp [rtcpParts]

/-- The loop body prints the `i`-th part, after a semicolon unless it is the
first. -/
theorem printf_part (r : RtcpPacketRow) (i : Nat) (h : i < r.numParts.toNat ∧ i < maxRtcpParts)
    (hlen : i < (rtcpParts r).length) :
    Printf.printf "%s%u/%u" [.str (if i ≠ 0 then ";".toList else []),
      Printf.uint8 (r.pt.get ⟨i, h.2⟩), Printf.uint8 (r.fmt.get ⟨i, h.2⟩)] =
      (if i ≠ 0 then [';'] else []) ++ partText (rtcpParts r)[i] := by
  have hpart : (rtcpParts r)[i] = (r.pt.get ⟨i, h.2⟩, r.fmt.get ⟨i, h.2⟩) := by
    simp [rtcpParts, Vector.get]
  rw [hpart]
  simp [Printf.printf, Printf.directives, Printf.render, partText]

/-- The parts from the `i`-th on, each after a semicolon. -/
theorem formatParts_of_ne_zero (r : RtcpPacketRow) (i : Nat) (hi : i ≠ 0) :
    formatParts r i = ((rtcpParts r).drop i).flatMap fun p => ';' :: partText p := by
  induction hk : maxRtcpParts - i generalizing i with
  | zero =>
    rw [formatParts, dif_neg (by omega), List.drop_eq_nil_of_le]
    · rfl
    · rw [length_rtcpParts]
      omega
  | succ k ih =>
    rw [formatParts]
    by_cases h : i < r.numParts.toNat ∧ i < maxRtcpParts
    · have hlen : i < (rtcpParts r).length := by
        rw [length_rtcpParts]
        omega
      rw [dif_pos h, printf_part r i h hlen, if_pos hi, ih (i + 1) (by omega) (by omega),
        List.drop_eq_getElem_cons hlen, List.flatMap_cons]
      rfl
    · rw [dif_neg h, List.drop_eq_nil_of_le]
      · rfl
      · rw [length_rtcpParts]
        omega

theorem formatParts_eq (r : RtcpPacketRow) : formatParts r 0 = partsText r := by
  rw [formatParts]
  by_cases h : 0 < r.numParts.toNat ∧ 0 < maxRtcpParts
  · have hlen : 0 < (rtcpParts r).length := by
      rw [length_rtcpParts]
      omega
    have hcons : rtcpParts r = (rtcpParts r)[0] :: (rtcpParts r).drop 1 := by
      rw [← List.drop_eq_getElem_cons hlen, List.drop_zero]
    rw [dif_pos h, printf_part r 0 h hlen, formatParts_of_ne_zero r 1 (by decide), partsText]
    conv => rhs; rw [hcons]
    rw [List.map_cons, intercalate_cons_flatMap, List.flatMap_map]
    rfl
  · have hnil : rtcpParts r = [] := by
      rw [← List.length_eq_zero_iff, length_rtcpParts]
      have hmax : 0 < maxRtcpParts := by decide
      omega
    rw [dif_neg h, partsText, hnil]
    rfl

/-- Every formatter prints its columns in the order of the header. -/
theorem format_eq (k : Kind) (r : k.Row) : k.format r = csvLine (k.cells r) := by
  cases k with
  | rtpPacket =>
    show formatRtpPacketRow r = csvLine ((rtpPacketFields r).map fun f => text f.2)
    simp [formatRtpPacketRow, rtpPacketFields, csvLine, Printf.printf, Printf.directives,
      Printf.render, text]
  | rtcpPacket =>
    show formatRtcpPacketRow r = csvLine ((rtcpPacketFields r).map fun f => text f.2)
    simp [formatRtcpPacketRow, rtcpPacketFields, csvLine, Printf.printf, Printf.directives,
      Printf.render, text]
    exact formatParts_eq r
  | pdcpSdu =>
    show fmtPdcpSdu r = csvLine ((pdcpSduFields r).map fun f => text f.2)
    simp [fmtPdcpSdu, pdcpSduFields, stampFields, csvLine, Printf.printf, Printf.directives,
      Printf.render, text, dotted_eq]
  | _ => rfl

end Trace
end P5G
