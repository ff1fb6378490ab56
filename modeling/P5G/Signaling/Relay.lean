import P5G.Control.Server

/-!
# The signaling relay

`SignalingServer` of signaling_server.py, which relays SDP between the senders
and the receivers of the webrtc tree.  Its handlers run as those of the control
server do, and the two share what a connection can do and how a message is read.
An offer or an answer is routed by the names in the tables; the relay keeps
nothing about the offers it has relayed.
-/

namespace P5G
namespace Signaling

open Control (Role Peer Choice Act)

structure Session (Conn : Type*) where
  senders : Dict Key Conn
  receivers : Dict Key Conn

/-- A message of the relay.  The stream of an answer is the one it was routed
by, and is not sent. -/
inductive Out where
  | ready (rid : Key)
  | offer (stream : Key) (sdp : Json)
  | answer (stream rid : Key) (sdp : Json)

def Out.toJson : Out → Json
  | .ready rid => .obj [("type", .str "receiver-ready"), ("receiver", rid.toJson)]
  | .offer stream sdp => .obj [("type", .str "offer"), ("stream", stream.toJson), ("sdp", sdp)]
  | .answer _ rid sdp => .obj [("type", .str "answer"), ("receiver", rid.toJson), ("sdp", sdp)]

structure Sent (Conn : Type*) where
  origin : Conn
  dest : Conn
  out : Out

inductive LoopKind where
  | hear
  | announce (rid : Key)

structure Loop where
  session : Key
  kind : LoopKind
  pos : Nat
  size : Nat
  edits : Nat

inductive Phase where
  | absent
  | reading
  | sending
  | looping (l : Loop)
  | closed (e : Option PyError)

inductive Next where
  | reading
  | sending
  | looping (l : Loop)
  | raised (e : PyError)

structure State (Conn : Type*) where
  sessions : Key → Session Conn
  peers : Conn → Option Peer
  phases : Conn → Phase
  sent : List (Sent Conn)

variable {Conn : Type*} [DecidableEq Conn]

def Session.empty : Session Conn := ⟨Dict.empty, Dict.empty⟩

def Session.table (x : Session Conn) : Role → Dict Key Conn
  | .sender => x.senders
  | .receiver => x.receivers

def Session.remove (x : Session Conn) (peer : Peer) (c : Conn) : Session Conn :=
  if (x.table peer.role).get? peer.id = some c then
    match peer.role with
    | .sender => { x with senders := x.senders.erase peer.id }
    | .receiver => { x with receivers := x.receivers.erase peer.id }
  else x

namespace State

variable (s : State Conn) (c : Conn)

def init : State Conn := ⟨fun _ => Session.empty, fun _ => none, fun _ => .absent, []⟩

def setSession (name : Key) (f : Session Conn → Session Conn) : State Conn :=
  { s with sessions := Function.update s.sessions name (f (s.sessions name)) }

def setPhase (p : Phase) : State Conn := { s with phases := Function.update s.phases c p }

def setPeer (p : Option Peer) : State Conn := { s with peers := Function.update s.peers c p }

def send (dest : Conn) (out : Out) : State Conn := { s with sent := s.sent ++ [⟨c, dest, out⟩] }

def targets (l : Loop) : List (Conn × Key) :=
  match l.kind with
  | .hear => (s.sessions l.session).receivers.entries.map fun e => (c, e.1)
  | .announce rid => (s.sessions l.session).senders.entries.map fun e => (e.2, rid)

def iterated (l : Loop) : Dict Key Conn :=
  match l.kind with
  | .hear => (s.sessions l.session).receivers
  | .announce _ => (s.sessions l.session).senders

/-- The loop body at position `i`, up to its `await`, or the end of the loop. -/
def visit (l : Loop) (i : Nat) : State Conn × Next :=
  match (s.targets c l)[i]? with
  | none => (s, .reading)
  | some (dest, rid) => (s.send c dest (.ready rid), .looping { l with pos := i + 1 })

def startLoop (name : Key) (kind : LoopKind) : State Conn × Next :=
  let l : Loop := { session := name, kind := kind, pos := 0, size := 0, edits := 0 }
  s.visit c { l with size := (s.iterated l).size, edits := (s.iterated l).edits } 0

/-- The iteration goes on after an `await`.  Without an edit it is at its next
position; a changed size raises; any other edit leaves open what is visited. -/
def resumeLoop (l : Loop) (choice : Choice) : State Conn × Next :=
  if l.edits = (s.iterated l).edits then s.visit c l l.pos
  else if l.size ≠ (s.iterated l).size then (s, .raised .dictChanged)
  else
    match choice with
    | .raise => (s, .raised .dictChanged)
    | .stop => (s, .reading)
    | .visit i => s.visit c l i

def setSender (name stream : Key) : State Conn :=
  (s.setSession name fun x => { x with senders := x.senders.set stream c }).setPeer c
    (some ⟨name, .sender, stream⟩)

def setReceiver (name rid : Key) : State Conn :=
  (s.setSession name fun x => { x with receivers := x.receivers.set rid c }).setPeer c
    (some ⟨name, .receiver, rid⟩)

def register (msg : Fields) : State Conn × Next :=
  match msg.itemKey "session", msg.item "role" with
  | .error e, _ => (s, .raised e)
  | .ok _, .error e => (s, .raised e)
  | .ok name, .ok role =>
    match Control.State.roleOf role with
    | some .sender =>
      match msg.itemKey "stream" with
      | .error e => (s, .raised e)
      | .ok stream => (s.setSender c name stream).startLoop c name .hear
    | some .receiver =>
      match msg.itemKey "receiver" with
      | .error e => (s, .raised e)
      | .ok rid => (s.setReceiver c name rid).startLoop c name (.announce rid)
    | none => (s, .reading)

def routeOffer (msg : Fields) : State Conn × Next :=
  match s.peers c with
  | none => (s, .raised .keyError)
  | some peer =>
    match msg.itemKey "to" with
    | .error e => (s, .raised e)
    | .ok rid =>
      match (s.sessions peer.session).receivers.get? rid with
      | none => (s, .reading)
      | some w =>
        match msg.item "sdp" with
        | .error e => (s, .raised e)
        | .ok sdp => (s.send c w (.offer peer.id sdp), .sending)

def routeAnswer (msg : Fields) : State Conn × Next :=
  match s.peers c with
  | none => (s, .raised .keyError)
  | some peer =>
    match msg.itemKey "stream" with
    | .error e => (s, .raised e)
    | .ok stream =>
      match (s.sessions peer.session).senders.get? stream with
      | none => (s, .reading)
      | some w =>
        match msg.item "sdp" with
        | .error e => (s, .raised e)
        | .ok sdp => (s.send c w (.answer stream peer.id sdp), .sending)

def dispatch (msg : Json) : State Conn × Next :=
  match msg with
  | .obj fields =>
    match Fields.get? fields "type" with
    | some (.str t) =>
      if t = "register" then s.register c fields
      else if t = "offer" then s.routeOffer c fields
      else if t = "answer" then s.routeAnswer c fields
      else (s, .reading)
    | _ => (s, .reading)
  | _ => (s, .raised .attributeError)

def unregister : State Conn :=
  match s.peers c with
  | none => s
  | some peer => (s.setPeer c none).setSession peer.session fun x => x.remove peer c

/-- The `finally` of `handle`. -/
def close (e : Option PyError) : State Conn := (s.unregister c).setPhase c (.closed e)

def finish : State Conn × Next → State Conn
  | (s, .reading) => s.setPhase c .reading
  | (s, .sending) => s.setPhase c .sending
  | (s, .looping l) => s.setPhase c (.looping l)
  | (s, .raised e) => s.close c (some e)

/-- One step.  `eof` is also a read that raises. -/
def step : Act Conn → Option (State Conn)
  | .accept c =>
    match s.phases c with
    | .absent => some (s.setPhase c .reading)
    | _ => none
  | .line c msg =>
    match s.phases c with
    | .reading => some (finish c (s.dispatch c msg))
    | _ => none
  | .badLine c =>
    match s.phases c with
    | .reading => some s
    | _ => none
  | .eof c =>
    match s.phases c with
    | .reading => some (s.close c none)
    | _ => none
  | .resume c choice =>
    match s.phases c with
    | .sending => some (s.setPhase c .reading)
    | .looping l => some (finish c (s.resumeLoop c l choice))
    | _ => none
  | .sendRaises c =>
    match s.phases c with
    | .sending | .looping _ => some (s.close c (some .osError))
    | _ => none

end State

def relay : Machine (State Conn) (Act Conn) where
  init := State.init
  step := State.step

def senderRegister (session stream : String) : Fields :=
  [("type", .str "register"), ("role", .str "sender"), ("session", .str session),
    ("stream", .str stream)]

def receiverRegister (session receiver : String) : Fields :=
  [("type", .str "register"), ("role", .str "receiver"), ("session", .str session),
    ("receiver", .str receiver)]

def offer (receiver stream sdp : String) : Fields :=
  [("type", .str "offer"), ("to", .str receiver), ("stream", .str stream), ("sdp", .str sdp)]

def answer (stream sdp : String) : Fields :=
  [("type", .str "answer"), ("stream", .str stream), ("sdp", .str sdp)]

end Signaling
end P5G
