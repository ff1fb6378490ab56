import P5G.Control.Server

/-!
# The messages of the applications

What video_sender and video_receiver send on the control channel, from their
configuration.
-/

namespace P5G

def Json.ofInt32 (i : Int32) : Json := .num i.toInt

def Json.ofNat (n : Nat) : Json := .num n

namespace Control

structure Rung where
  path : String
  kbps : Int32
  deriving DecidableEq

/-- `SenderConfig`, with what the constructor of `Sender` adds: the frame size
and count of the first rung, the local RTCP port, and the start rung. -/
structure SenderConfig where
  controlHost : String
  session : String
  streamId : String
  receiverId : String
  rungs : List Rung
  curRung : Nat
  fps : Int32
  pt : Int32
  ssrc : UInt32
  phaseSlots : Int32
  contentOrigin : Int32
  width : Int32
  height : Int32
  aus : Nat
  rtcpPortLocal : UInt16

/-- `ReceiverConfig`, with the ports that `OpenSockets` bound. -/
structure ReceiverConfig where
  session : String
  receiverId : String
  advertiseHost : String
  rtpPort : UInt16
  rtcpPort : UInt16

def kVideoClockRate : Nat := 90000

namespace SenderConfig

variable (cfg : SenderConfig)

/-- The start rung; `LoadRungs` ends the process without one. -/
def rung : Rung := cfg.rungs.getD cfg.curRung ⟨"", 0⟩

def register : Fields :=
  [("type", .str "register"), ("role", .str "sender"), ("session", .str cfg.session),
    ("stream", .str cfg.streamId), ("to", .str cfg.receiverId)]

def streamStart : Fields :=
  [("type", .str "stream-start"), ("to", .str cfg.receiverId), ("stream", .str cfg.streamId),
    ("ssrc", .ofNat cfg.ssrc.toNat), ("pt", .ofInt32 cfg.pt),
    ("clock_rate", .ofNat kVideoClockRate), ("rtcp_port_local", .ofNat cfg.rtcpPortLocal.toNat),
    ("width", .ofInt32 cfg.width), ("height", .ofInt32 cfg.height), ("fps", .ofInt32 cfg.fps),
    ("bitrate_kbps", .ofInt32 cfg.rung.kbps),
    ("rungs_kbps", .arr (cfg.rungs.map fun r => .ofInt32 r.kbps)), ("cc", .str "profile"),
    ("transport", .str "ffmpeg"), ("source", .str cfg.rung.path), ("aus", .ofNat cfg.aus),
    ("phase_slots", .ofInt32 cfg.phaseSlots), ("content_origin", .ofInt32 cfg.contentOrigin)]

end SenderConfig

def ReceiverConfig.register (cfg : ReceiverConfig) : Fields :=
  [("type", .str "register"), ("role", .str "receiver"), ("session", .str cfg.session),
    ("receiver", .str cfg.receiverId), ("rtp_port", .ofNat cfg.rtpPort.toNat),
    ("rtcp_port", .ofNat cfg.rtcpPort.toNat)] ++
    if cfg.advertiseHost ≠ "" then [("host", .str cfg.advertiseHost)] else []

def acceptAck (stream : String) (generation : Int32) : Fields :=
  [("type", .str "stream-ack"), ("stream", .str stream), ("generation", .ofInt32 generation),
    ("ok", .bool true)]

def refuseAck (stream : String) (generation : Int32) (serving : String) : Fields :=
  [("type", .str "stream-ack"), ("stream", .str stream), ("generation", .ofInt32 generation),
    ("ok", .bool false), ("reason", .str ("receiver already serves " ++ serving))]

/-! ## A minimal deployment

The configurations the tools start with, for tests on concrete runs. -/

def defaultSender : SenderConfig :=
  { controlHost := "127.0.0.1", session := "s1", streamId := "cam0", receiverId := "recv0",
    rungs := [⟨"a.h264", 2500⟩], curRung := 0, fps := 30, pt := 96, ssrc := 1, phaseSlots := 0,
    contentOrigin := 0, width := 1920, height := 1080, aus := 60, rtcpPortLocal := 40001 }

def defaultReceiver : ReceiverConfig :=
  { session := "s1", receiverId := "recv0", advertiseHost := "", rtpPort := 5000, rtcpPort := 5001 }

instance connections_neZero : NeZero 3 := ⟨by decide⟩

def defaultEnv : Env (Fin 3) := ⟨fun _ => none, fun _ => some "10.0.0.1"⟩

def upToStart : List (Act (Fin 3)) :=
  [.accept 0, .line 0 (.obj defaultReceiver.register), .accept 1,
    .line 1 (.obj defaultSender.register), .resume 1 .stop,
    .line 1 (.obj defaultSender.streamStart), .resume 1 .stop]

end Control
end P5G
