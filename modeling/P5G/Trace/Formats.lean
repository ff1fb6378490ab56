import P5G.Text.Printf

/-!
# The rows of the trace files

The row types of the ffmpeg tree (trace_ring.h, rtp_util.h) and of the gNB
tracer (p5g_gnb_tracer.h) whose columns are integers, words, addresses or the
RTCP part list, each with its header and the formatter that prints it.
-/

namespace P5G
namespace Trace

open Printf

structure CaptureFrameRow where
  frameIdx : Int64
  gridSlot : Int64
  srcFrameIdx : Int64
  rtpTs : UInt32
  captureWallNs : Int64
  captureMonoNs : Int64
  width : Int32
  height : Int32
  toEncoder : Int32
  deriving Inhabited

def captureFrameHeader : String :=
  "frame_idx,grid_slot,src_frame_idx,rtp_ts,capture_wall_ns,capture_mono_ns,width,height,to_encoder"

def formatCaptureFrameRow (r : CaptureFrameRow) : List Char :=
  printf "%lld,%lld,%lld,%u,%lld,%lld,%d,%d,%d\n"
    [.longLong r.frameIdx, .longLong r.gridSlot, .longLong r.srcFrameIdx, .uint r.rtpTs,
      .longLong r.captureWallNs, .longLong r.captureMonoNs, .int r.width, .int r.height,
      .int r.toEncoder]

structure DecodedFrameRow where
  frameIdx : Int64
  rtpTs : UInt32
  absCaptureNtpMs : Int64
  senderRtpTsEst : Int64
  wireOffsetEst : Int64
  recvWallNs : Int64
  recvMonoNs : Int64
  width : Int32
  height : Int32
  numPackets : Int32
  firstPktMonoNs : Int64
  lastPktMonoNs : Int64
  ssrc : UInt32
  deriving Inhabited

def decodedFrameHeader : String :=
  "frame_idx,rtp_ts,abs_capture_ntp_ms,sender_rtp_ts_est,wire_offset_est,recv_wall_ns," ++
  "recv_mono_ns,width,height,num_packets,first_pkt_mono_ns,last_pkt_mono_ns,ssrc"

def formatDecodedFrameRow (r : DecodedFrameRow) : List Char :=
  printf "%lld,%u,%lld,%lld,%lld,%lld,%lld,%d,%d,%d,%lld,%lld,%u\n"
    [.longLong r.frameIdx, .uint r.rtpTs, .longLong r.absCaptureNtpMs,
      .longLong r.senderRtpTsEst, .longLong r.wireOffsetEst, .longLong r.recvWallNs,
      .longLong r.recvMonoNs, .int r.width, .int r.height, .int r.numPackets,
      .longLong r.firstPktMonoNs, .longLong r.lastPktMonoNs, .uint r.ssrc]

structure EncodedFrameRow where
  rtpTs : UInt32
  encodeDoneMonoNs : Int64
  encodeDoneWallNs : Int64
  bytes : Int32
  width : Int32
  height : Int32
  frameType : Int32
  qp : Int32
  temporalIdx : Int32
  spatialIdx : Int32
  simulcastIdx : Int32
  captureTimeMs : Int64
  ntpTimeMs : Int64
  codec : Int32
  isIdr : Int32
  atTargetQuality : Int32
  deriving Inhabited

def encodedFrameHeader : String :=
  "rtp_ts,encode_done_mono_ns,encode_done_wall_ns,bytes,width,height,frame_type,qp,temporal_idx," ++
  "spatial_idx,simulcast_idx,capture_time_ms,ntp_time_ms,codec,is_idr,at_target_quality"

def formatEncodedFrameRow (r : EncodedFrameRow) : List Char :=
  printf "%u,%lld,%lld,%d,%d,%d,%d,%d,%d,%d,%d,%lld,%lld,%d,%d,%d\n"
    [.uint r.rtpTs, .longLong r.encodeDoneMonoNs, .longLong r.encodeDoneWallNs, .int r.bytes,
      .int r.width, .int r.height, .int r.frameType, .int r.qp, .int r.temporalIdx,
      .int r.spatialIdx, .int r.simulcastIdx, .longLong r.captureTimeMs, .longLong r.ntpTimeMs,
      .int r.codec, .int r.isIdr, .int r.atTargetQuality]

structure RtpPacketRow where
  logMonoNs : Int64
  logWallNs : Int64
  rtpTs : UInt32
  ssrc : UInt32
  pktBytes : Int32
  hdrBytes : Int32
  padBytes : Int32
  payloadBytes : Int32
  probeClusterId : Int32
  seq : UInt16
  pt : UInt8
  marker : UInt8
  csrcCount : UInt8
  hasExt : UInt8
  dir : UInt8
  deriving Inhabited

/-- `r.dir ? "in" : "out"` -/
def dirName (dir : UInt8) : List Char := if dir ≠ 0 then "in".toList else "out".toList

def rtpPacketHeader : String :=
  "log_mono_ns,log_wall_ns,dir,seq,rtp_ts,ssrc,pt,marker,pkt_bytes,hdr_bytes,pad_bytes," ++
  "payload_bytes,csrc_count,has_ext,probe_cluster_id"

def formatRtpPacketRow (r : RtpPacketRow) : List Char :=
  printf "%lld,%lld,%s,%u,%u,%u,%u,%u,%d,%d,%d,%d,%u,%u,%d\n"
    [.longLong r.logMonoNs, .longLong r.logWallNs, .str (dirName r.dir), uint16 r.seq,
      .uint r.rtpTs, .uint r.ssrc, uint8 r.pt, uint8 r.marker, .int r.pktBytes, .int r.hdrBytes,
      .int r.padBytes, .int r.payloadBytes, uint8 r.csrcCount, uint8 r.hasExt,
      .int r.probeClusterId]

def maxRtcpParts : Nat := 8

structure RtcpPacketRow where
  logMonoNs : Int64
  logWallNs : Int64
  senderSsrc : UInt32
  bytes : Int32
  dir : UInt8
  numParts : UInt8
  pt : Vector UInt8 maxRtcpParts
  fmt : Vector UInt8 maxRtcpParts
  deriving Inhabited

def rtcpPacketHeader : String := "log_mono_ns,log_wall_ns,dir,bytes,sender_ssrc,num_parts,parts"

/-- The loop over the parts, from part `i` on. -/
def formatParts (r : RtcpPacketRow) (i : Nat) : List Char :=
  if h : i < r.numParts.toNat ∧ i < maxRtcpParts then
    printf "%s%u/%u" [.str (if i ≠ 0 then ";".toList else []), uint8 (r.pt.get ⟨i, h.2⟩),
      uint8 (r.fmt.get ⟨i, h.2⟩)] ++ formatParts r (i + 1)
  else []
termination_by maxRtcpParts - i

def formatRtcpPacketRow (r : RtcpPacketRow) : List Char :=
  printf "%lld,%lld,%s,%d,%u,%u,"
    [.longLong r.logMonoNs, .longLong r.logWallNs, .str (dirName r.dir), .int r.bytes,
      .uint r.senderSsrc, uint8 r.numParts] ++ formatParts r 0 ++ ['\n']

structure DecodedFrameLedgerRow where
  rtpTs : UInt32
  decodeStartMonoNs : Int64
  decodeDoneMonoNs : Int64
  decodeDoneWallNs : Int64
  inputBytes : Int32
  frameType : Int32
  renderTimeMs : Int64
  decoderDecodeTimeMs : Int32
  qp : Int32
  width : Int32
  height : Int32
  deriving Inhabited

def decodedFrameLedgerHeader : String :=
  "rtp_ts,decode_start_mono_ns,decode_done_mono_ns,decode_done_wall_ns,input_bytes,frame_type," ++
  "render_time_ms,decoder_decode_time_ms,qp,width,height"

def formatDecodedFrameLedgerRow (r : DecodedFrameLedgerRow) : List Char :=
  printf "%u,%lld,%lld,%lld,%d,%d,%lld,%d,%d,%d,%d\n"
    [.uint r.rtpTs, .longLong r.decodeStartMonoNs, .longLong r.decodeDoneMonoNs,
      .longLong r.decodeDoneWallNs, .int r.inputBytes, .int r.frameType,
      .longLong r.renderTimeMs, .int r.decoderDecodeTimeMs, .int r.qp, .int r.width,
      .int r.height]

structure ClockStamp where
  monoNs : Int64
  wallNs : Int64
  deriving Inhabited

structure BsrRow where
  t : ClockStamp
  sfn : UInt32
  slot : UInt32
  ueIndex : UInt32
  rnti : UInt32
  bsrFormat : UInt32
  lcgId : UInt32
  bufferSizeIndex : UInt32
  bufferBytes : UInt32
  deriving Inhabited

def hdrBsr : String :=
  "mono_ns,wall_ns,sfn,slot,ue_index,rnti,bsr_format,lcg_id,buffer_size_index,buffer_bytes"

def fmtBsr (r : BsrRow) : List Char :=
  printf "%lld,%lld,%u,%u,%u,%u,%u,%u,%u,%u\n"
    [.longLong r.t.monoNs, .longLong r.t.wallNs, .uint r.sfn, .uint r.slot, .uint r.ueIndex,
      .uint r.rnti, .uint r.bsrFormat, .uint r.lcgId, .uint r.bufferSizeIndex,
      .uint r.bufferBytes]

structure SrRow where
  t : ClockStamp
  sfn : UInt32
  slot : UInt32
  ueIndex : UInt32
  rnti : UInt32
  pucchFormat : UInt32
  deriving Inhabited

def hdrSr : String := "mono_ns,wall_ns,sfn,slot,ue_index,rnti,pucch_format"

def fmtSr (r : SrRow) : List Char :=
  printf "%lld,%lld,%u,%u,%u,%u,%u\n"
    [.longLong r.t.monoNs, .longLong r.t.wallNs, .uint r.sfn, .uint r.slot, .uint r.ueIndex,
      .uint r.rnti, .uint r.pucchFormat]

structure CsiRow where
  t : ClockStamp
  sfn : UInt32
  slot : UInt32
  ueIndex : UInt32
  rnti : UInt32
  cqi : Int32
  ri : Int32
  valid : UInt32
  deriving Inhabited

def hdrCsi : String := "mono_ns,wall_ns,sfn,slot,ue_index,rnti,cqi,ri,valid"

def fmtCsi (r : CsiRow) : List Char :=
  printf "%lld,%lld,%u,%u,%u,%u,%d,%d,%u\n"
    [.longLong r.t.monoNs, .longLong r.t.wallNs, .uint r.sfn, .uint r.slot, .uint r.ueIndex,
      .uint r.rnti, .int r.cqi, .int r.ri, .uint r.valid]

structure MacUlPduRow where
  t : ClockStamp
  sfn : UInt32
  slot : UInt32
  ueIndex : UInt32
  rnti : UInt32
  harqId : UInt32
  pduBytes : UInt32
  deriving Inhabited

def hdrMacUlPdu : String := "mono_ns,wall_ns,sfn,slot,ue_index,rnti,harq_id,pdu_bytes"

def fmtMacUlPdu (r : MacUlPduRow) : List Char :=
  printf "%lld,%lld,%u,%u,%u,%u,%u,%u\n"
    [.longLong r.t.monoNs, .longLong r.t.wallNs, .uint r.sfn, .uint r.slot, .uint r.ueIndex,
      .uint r.rnti, .uint r.harqId, .uint r.pduBytes]

structure RlcUlRow where
  t : ClockStamp
  ueIndex : UInt32
  rbIsDrb : UInt32
  rbId : UInt32
  event : UInt32
  sn : Int32
  bytes : UInt32
  rxNext : UInt32
  rxHighestStatus : UInt32
  deriving Inhabited

def hdrRlcUl : String :=
  "mono_ns,wall_ns,ue_index,rb_is_drb,rb_id,event,sn,bytes,rx_next,rx_highest_status"

/-- `names` -/
def rlcEventNames : List String :=
  ["pdu_rx", "sdu_delivered", "reassembly_expired", "status_pdu_rx"]

/-- `r.event < 4 ? names[r.event] : "unknown"` -/
def rlcEventName (event : UInt32) : List Char :=
  (rlcEventNames[event.toNat]?.getD "unknown").toList

def fmtRlcUl (r : RlcUlRow) : List Char :=
  printf "%lld,%lld,%u,%u,%u,%s,%d,%u,%u,%u\n"
    [.longLong r.t.monoNs, .longLong r.t.wallNs, .uint r.ueIndex, .uint r.rbIsDrb, .uint r.rbId,
      .str (rlcEventName r.event), .int r.sn, .uint r.bytes, .uint r.rxNext,
      .uint r.rxHighestStatus]

structure PdcpSduRow where
  t : ClockStamp
  ueIndex : UInt32
  rbIsDrb : UInt32
  rbId : UInt32
  count : UInt32
  sduBytes : UInt32
  ipProto : UInt32
  srcIp : UInt32
  dstIp : UInt32
  srcPort : UInt32
  dstPort : UInt32
  rtpLike : UInt32
  rtpPt : UInt32
  rtpSeq : UInt32
  rtpTs : UInt32
  rtpSsrc : UInt32
  rtpMarker : UInt32
  deriving Inhabited

def hdrPdcpSdu : String :=
  "mono_ns,wall_ns,ue_index,rb_is_drb,rb_id,count,sdu_bytes,ip_proto,src_ip,dst_ip,src_port," ++
  "dst_port,rtp_like,rtp_pt,rtp_seq,rtp_ts,rtp_ssrc,rtp_marker"

def fmtPdcpSdu (r : PdcpSduRow) : List Char :=
  printf
    "%lld,%lld,%u,%u,%u,%u,%u,%u,%u.%u.%u.%u,%u.%u.%u.%u,%u,%u,%u,%u,%u,%u,%u,%u\n"
    [.longLong r.t.monoNs, .longLong r.t.wallNs, .uint r.ueIndex, .uint r.rbIsDrb, .uint r.rbId,
      .uint r.count, .uint r.sduBytes, .uint r.ipProto,
      .uint (r.srcIp >>> 24 &&& 0xFF), .uint (r.srcIp >>> 16 &&& 0xFF),
      .uint (r.srcIp >>> 8 &&& 0xFF), .uint (r.srcIp &&& 0xFF),
      .uint (r.dstIp >>> 24 &&& 0xFF), .uint (r.dstIp >>> 16 &&& 0xFF),
      .uint (r.dstIp >>> 8 &&& 0xFF), .uint (r.dstIp &&& 0xFF),
      .uint r.srcPort, .uint r.dstPort, .uint r.rtpLike, .uint r.rtpPt, .uint r.rtpSeq,
      .uint r.rtpTs, .uint r.rtpSsrc, .uint r.rtpMarker]

end Trace
end P5G
