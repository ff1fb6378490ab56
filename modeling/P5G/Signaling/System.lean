import P5G.Signaling.Relay
import P5G.Control.Apps

/-!
# The senders and receivers of the webrtc tree

`OnMessage` and `OnIceGatheringChange` of video_sender.cc and video_receiver.cc,
and the network of the relay and any number of processes, each with one
connection.  What libwebrtc does is left to the schedule: whether it takes a
description, when it has gathered its candidates, and the SDP it has then.
-/

namespace P5G

namespace Fields

/-- `m.at(name).get<std::string>()`; `none` is an exception. -/
def atStr (m : Fields) (name : String) : Option String :=
  match m.get? name with
  | some (.str s) => some s
  | _ => none

end Fields

namespace Signaling

open Control (Act Choice Reaction)

structure SenderConfig where
  session : String
  streamId : String
  receiverId : String

structure ReceiverConfig where
  session : String
  receiverId : String

/-- `SenderPeer`: `offer_sent_`, and the answers given to `SetRemoteDescription`. -/
structure SenderPeer where
  offerSent : Bool
  answers : List String
deriving DecidableEq

structure Sender where
  peers : Dict String SenderPeer

namespace Sender

def init : Sender := ⟨Dict.empty⟩

variable (cfg : SenderConfig) (x : Sender) (rtc : Bool)

/-- `Connect`; `rtc` says whether `Init` succeeds, without which the process ends. -/
def connect (rid : String) : Reaction Sender :=
  if (x.peers.get? rid).isSome then .ignore x
  else if rtc then .ignore ⟨x.peers.set rid ⟨false, []⟩⟩
  else ⟨x, [], true⟩

/-- `SenderPeer::OnAnswer`; `rtc` says whether the SDP parses. -/
def onAnswer (p : SenderPeer) (sdp : String) : SenderPeer :=
  if rtc then { p with answers := p.answers ++ [sdp] } else p

def onMessage (m : Fields) : Reaction Sender :=
  match m.valueStr "type" "" with
  | none => .ignore x
  | some type =>
    if type = "receiver-ready" then
      match m.atStr "receiver" with
      | none => .ignore x
      | some rid => if rid ≠ cfg.receiverId then .ignore x else x.connect rtc rid
    else if type = "answer" then
      match m.atStr "receiver" with
      | none => .ignore x
      | some rid =>
        match x.peers.get? rid with
        | none => .ignore x
        | some p =>
          match m.atStr "sdp" with
          | none => .ignore x
          | some sdp => .ignore ⟨x.peers.set rid (onAnswer rtc p sdp)⟩
    else .ignore x

/-- `OnIceGatheringChange` with the gathering complete; without a local description the process
ends. -/
def onGathered (rid : String) (sdp : Option String) : Reaction Sender :=
  match x.peers.get? rid with
  | none => .ignore x
  | some p =>
    if p.offerSent then .ignore x
    else
      let x : Sender := ⟨x.peers.set rid { p with offerSent := true }⟩
      match sdp with
      | none => ⟨x, [], true⟩
      | some sdp => ⟨x, [offer rid cfg.streamId sdp], false⟩

end Sender

/-- `ReceiverPeer`: `answer_sent_`, and the offer given to `HandleOffer`. -/
structure ReceiverPeer where
  answerSent : Bool
  offer : String
deriving DecidableEq

structure Receiver where
  peers : Dict String ReceiverPeer

namespace Receiver

def init : Receiver := ⟨Dict.empty⟩

variable (x : Receiver) (rtc : Bool)

/-- `rtc` says whether `HandleOffer` succeeds, without which the process ends. -/
def onMessage (m : Fields) : Reaction Receiver :=
  if m.valueStr "type" "" ≠ some "offer" then .ignore x
  else
    match m.atStr "stream", m.atStr "sdp" with
    | some stream, some sdp =>
      if (x.peers.get? stream).isSome then .ignore x
      else if x.peers.size ≠ 0 then .ignore x
      else if rtc then .ignore ⟨x.peers.set stream ⟨false, sdp⟩⟩
      else ⟨x, [], true⟩
    | _, _ => .ignore x

def onGathered (stream : String) (sdp : Option String) : Reaction Receiver :=
  match x.peers.get? stream with
  | none => .ignore x
  | some p =>
    if p.answerSent then .ignore x
    else
      let x : Receiver := ⟨x.peers.set stream { p with answerSent := true }⟩
      match sdp with
      | none => ⟨x, [], true⟩
      | some sdp => ⟨x, [answer stream sdp], false⟩

end Receiver

inductive App where
  | sender (cfg : SenderConfig)
  | receiver (cfg : ReceiverConfig)

inductive Status where
  | absent
  | running
  | exited
  deriving DecidableEq

/-- `said` is what a process has written to its connection and `read` how much of it the relay has
read; `heard` is how much of what the relay has sent it the process has taken. -/
structure Net (Conn : Type*) where
  relay : State Conn
  status : Conn → Status
  said : Conn → List Fields
  read : Conn → Nat
  heard : Conn → Nat
  senders : Conn → Sender
  receivers : Conn → Receiver

inductive NetAct (Conn : Type*) where
  /-- The process starts, connects and registers. -/
  | launch (c : Conn)
  | accept (c : Conn)
  | read (c : Conn)
  | eof (c : Conn)
  | resume (c : Conn) (choice : Choice)
  | sendRaises (c : Conn)
  | hear (c : Conn) (rtc : Bool)
  | gathered (c : Conn) (key : String) (sdp : Option String)
  | exit (c : Conn)

def App.register : App → Fields
  | .sender cfg => senderRegister cfg.session cfg.streamId
  | .receiver cfg => receiverRegister cfg.session cfg.receiverId

variable {Conn : Type*} [DecidableEq Conn]

namespace Net

variable (app : Conn → App) (z : Net Conn) (c : Conn)

def init : Net Conn :=
  ⟨State.init, fun _ => .absent, fun _ => [], fun _ => 0, fun _ => 0, fun _ => Sender.init,
    fun _ => Receiver.init⟩

def inbox : List (Sent Conn) := z.relay.sent.filter fun x => x.dest = c

def say (msgs : List Fields) : Net Conn :=
  { z with said := Function.update z.said c (z.said c ++ msgs) }

def exitIf (exits : Bool) : Net Conn :=
  { z with status := if exits then Function.update z.status c .exited else z.status }

def senderReacts (r : Reaction Sender) : Net Conn :=
  ({ z with senders := Function.update z.senders c r.state }.say c r.sends).exitIf c r.exits

def receiverReacts (r : Reaction Receiver) : Net Conn :=
  ({ z with receivers := Function.update z.receivers c r.state }.say c r.sends).exitIf c r.exits

def hears (rtc : Bool) (x : Sent Conn) : Net Conn :=
  let z := { z with heard := Function.update z.heard c (z.heard c + 1) }
  match app c, x.out.toJson with
  | .sender cfg, .obj m => z.senderReacts c ((z.senders c).onMessage cfg rtc m)
  | .receiver _, .obj m => z.receiverReacts c ((z.receivers c).onMessage rtc m)
  | _, _ => z

def gathers (key : String) (sdp : Option String) : Net Conn :=
  match app c with
  | .sender cfg => z.senderReacts c ((z.senders c).onGathered cfg key sdp)
  | .receiver _ => z.receiverReacts c ((z.receivers c).onGathered key sdp)

def serve (a : Act Conn) : Option (Net Conn) :=
  (z.relay.step a).map fun s => { z with relay := s }

def step : NetAct Conn → Option (Net Conn)
  | .launch c =>
    match z.status c with
    | .absent =>
      some ({ z with status := Function.update z.status c .running }.say c [(app c).register])
    | _ => none
  | .accept c =>
    match z.status c with
    | .absent => none
    | _ => z.serve (.accept c)
  | .read c =>
    match (z.said c)[z.read c]? with
    | none => none
    | some m =>
      { z with read := Function.update z.read c (z.read c + 1) }.serve (.line c (.obj m))
  | .eof c => z.serve (.eof c)
  | .resume c choice => z.serve (.resume c choice)
  | .sendRaises c => z.serve (.sendRaises c)
  | .hear c rtc =>
    match z.status c, (z.inbox c)[z.heard c]? with
    | .running, some x => some (z.hears app c rtc x)
    | _, _ => none
  | .gathered c key sdp =>
    match z.status c with
    | .running => some (z.gathers app c key sdp)
    | _ => none
  | .exit c =>
    match z.status c with
    | .running => some (z.exitIf c true)
    | _ => none

end Net

def signaling (app : Conn → App) : Machine (Net Conn) (NetAct Conn) where
  init := Net.init
  step := Net.step app

end Signaling
end P5G
