import P5G.Control.Messages

/-!
# The applications on the control channel

`OnMessage` of video_sender and video_receiver.  A message is read with
`value` and `at` of the JSON library; one of another type throws, and the
exception ends the handling of the message where it stands.  `profile` messages
only choose the next rung and are not followed here.
-/

namespace P5G

/-- A number, as a conversion to an integer type takes it. -/
def Json.toInt? : Json → Option Int
  | .num q => some (q.num.tdiv q.den)
  | .bool b => some (if b then 1 else 0)
  | _ => none

namespace Fields

/-- `m.value(name, default)` for a string. -/
def valueStr (m : Fields) (name default : String) : Option String :=
  match m.get? name with
  | none => some default
  | some (.str s) => some s
  | some _ => none

def valueBool (m : Fields) (name : String) (default : Bool) : Option Bool :=
  match m.get? name with
  | none => some default
  | some (.bool b) => some b
  | some _ => none

/-- `m.value(name, default)` for an `int`. -/
def valueInt (m : Fields) (name : String) (default : Int32) : Option Int32 :=
  match m.get? name with
  | none => some default
  | some j => j.toInt?.map Int32.ofInt

/-- `m.value(name, default)` for a `uint32_t`. -/
def valueUInt32 (m : Fields) (name : String) (default : UInt32) : Option UInt32 :=
  match m.get? name with
  | none => some default
  | some j => j.toInt?.map UInt32.ofInt

/-- `(uint16_t)m.at(name).get<int>()` -/
def atPort (m : Fields) (name : String) : Option UInt16 :=
  ((m.get? name).bind Json.toInt?).map fun i => UInt16.ofInt (Int32.ofInt i).toInt

end Fields

namespace Control

/-- What handling a message does: the new state, what is sent, and whether the
process ends. -/
structure Reaction (σ : Type*) where
  state : σ
  sends : List Fields
  exits : Bool

def Reaction.ignore {σ : Type*} (x : σ) : Reaction σ := ⟨x, [], false⟩

structure Sender where
  awaitingAck : Bool
  started : Bool
  rtpDest : UInt16
  rtcpDest : UInt16
  destHost : String

namespace Sender

def init : Sender := ⟨false, false, 0, 0, ""⟩

variable (cfg : SenderConfig) (inetPton : String → Bool) (x : Sender) (m : Fields)

def onReady : Reaction Sender :=
  if m.valueStr "receiver" "" ≠ some cfg.receiverId then .ignore x
  else if x.started || x.awaitingAck then .ignore x
  else
    match m.valueStr "host" cfg.controlHost with
    | none => .ignore x
    | some host =>
      match m.atPort "rtp_port" with
      | none => .ignore { x with rtpDest := 0 }
      | some rtp =>
        match m.atPort "rtcp_port" with
        | none => .ignore { x with rtpDest := rtp, rtcpDest := 0 }
        | some rtcp =>
          let x := { x with rtpDest := rtp, rtcpDest := rtcp }
          if inetPton host then
            ⟨{ x with destHost := host, awaitingAck := true }, [cfg.streamStart], false⟩
          else ⟨x, [], true⟩

def onAck : Reaction Sender :=
  if m.valueStr "stream" "" ≠ some cfg.streamId then .ignore x
  else if x.started || !x.awaitingAck then .ignore x
  else
    let x := { x with awaitingAck := false }
    match m.valueBool "ok" true with
    | none => .ignore x
    | some false => ⟨x, [], true⟩
    | some true => .ignore { x with started := true }

def onMessage : Reaction Sender :=
  match m.valueStr "type" "" with
  | none => .ignore x
  | some type =>
    if type = "receiver-ready" then x.onReady cfg inetPton m
    else if type = "stream-ack" then x.onAck cfg m
    else .ignore x

end Sender

structure Receiver where
  stream : String
  ssrc : UInt32
  pt : UInt8
  deriving DecidableEq

namespace Receiver

def init : Receiver := ⟨"", 0, 96⟩

variable (x : Receiver) (m : Fields)

/-- The fields the log line of an announced stream reads. -/
def logged : Bool :=
  ["width", "height", "fps", "bitrate_kbps", "aus", "rtcp_port_local"].all
      (fun name => (m.valueInt name 0).isSome) && (m.valueStr "sender_host" "?").isSome

/-- The first stream-start: `ssrc_` and `pt_` are taken over. -/
def announced (stream : String) : Reaction Receiver :=
  let x := { x with stream := stream }
  match m.valueUInt32 "ssrc" 0 with
  | none => .ignore x
  | some ssrc =>
    let x := { x with ssrc := ssrc }
    match m.valueInt "pt" 96 with
    | none => .ignore x
    | some pt =>
      let x := { x with pt := UInt8.ofInt pt.toInt }
      if logged m then
        match m.valueInt "generation" 0 with
        | none => .ignore x
        | some g => ⟨x, [acceptAck stream g], false⟩
      else .ignore x

def onMessage : Reaction Receiver :=
  if m.valueStr "type" "" ≠ some "stream-start" then .ignore x
  else
    match m.valueStr "stream" "" with
    | none => .ignore x
    | some stream =>
      if x.stream ≠ "" then
        if stream ≠ x.stream then
          match m.valueInt "generation" 0 with
          | none => .ignore x
          | some g => ⟨x, [refuseAck stream g x.stream], false⟩
        else .ignore x
      else x.announced m stream

end Receiver
end Control
end P5G
