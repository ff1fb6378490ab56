import P5G.Machine
import P5G.Dict
import P5G.Control.Json
import Mathlib.Logic.Function.Basic

/-!
# The control server

`ControlServer` of control_server.py.  Each connection has a handler; a handler
runs until it has sent something and is then suspended, so between a send and
its handler's next step any other handler may run.  An exception ends the
handler, which unregisters its connection and closes it in the same step.
`send` catches the `ConnectionError` and the `RuntimeError` that `drain` raises
and no other `OSError` of a dead peer, so a send may also end its handler.

`sessions`, `peers` and `pending_ack` are never iterated in an order that
matters and are functions here; `senders` and `receivers` are iterated by
`register` and keep their order.  `sent` is every message the server has tried
to send, oldest first, with the handler that sent it.
-/

namespace P5G
namespace Control

inductive Role where
  | sender
  | receiver
  deriving DecidableEq

structure Info where
  rtpPort : Int
  rtcpPort : Int
  host : Json

/-- A handshake: the connection that was handed the stream-start, the one that
sent it, and its generation. -/
structure Pending (Conn : Type*) where
  receiver : Conn
  sender : Conn
  generation : Nat
  deriving DecidableEq

structure Session (Conn : Type*) where
  senders : Dict Key Conn
  receivers : Dict Key (Conn × Info)
  pendingAck : Key → Option (Pending Conn)
  generation : Nat

structure Peer where
  session : Key
  role : Role
  id : Key
  deriving DecidableEq

/-- A message of the server.  The sessions, and the stream and generation of an
ack, say which entries of the tables it was sent from. -/
inductive Out where
  | ready (rid : Key) (info : Info)
  | start (session stream : Key) (generation : Nat) (host : String) (msg : Fields)
  | ack (session stream : Key) (generation : Nat) (msg : Fields)
  | profile (msg : Fields)
  | pong

def readyMsg (rid : Key) (info : Info) : Json :=
  .obj ([("type", .str "receiver-ready"), ("receiver", rid.toJson), ("rtp_port", .num info.rtpPort),
    ("rtcp_port", .num info.rtcpPort)] ++ if info.host.truthy then [("host", info.host)] else [])

def Out.toJson : Out → Json
  | .ready rid info => readyMsg rid info
  | .start _ stream generation host msg =>
    .obj (((msg.set "stream" stream.toJson).set "sender_host" (.str host)).set "generation"
      (.num generation))
  | .ack _ _ _ msg => .obj msg
  | .profile msg => .obj msg
  | .pong => .obj [("type", .str "pong"), ("server", .str "p5g-ffmpeg-control")]

/-- A send: the connection whose handler sends, and the one it writes to. -/
structure Sent (Conn : Type*) where
  origin : Conn
  dest : Conn
  out : Out

/-- The two loops of `register`: a new sender hears of the receivers, and a new
receiver is announced to the senders. -/
inductive LoopKind where
  | hear
  | announce (rid : Key) (info : Info)

/-- A dict iteration under way: the next position, and the size and the edits
of the dict when it began. -/
structure Loop where
  session : Key
  kind : LoopKind
  pos : Nat
  size : Nat
  edits : Nat

/-- Where a handler stands: before `await reader.readline()`, in the last send
of a dispatch, in a send inside a loop of `register`, or ended. -/
inductive Phase where
  | absent
  | reading
  | sending
  | looping (l : Loop)
  | closed (e : Option PyError)

inductive Next where
  | reading
  | sending
  | looping (l : Loop)
  | raised (e : PyError)

structure State (Conn : Type*) where
  sessions : Key → Session Conn
  peers : Conn → Option Peer
  phases : Conn → Phase
  sent : List (Sent Conn)

/-- What the outside world answers: `int` of a string, and a connection's peer
address. -/
structure Env (Conn : Type*) where
  intOfStr : String → Option Int
  peername : Conn → Option String

/-- What an iteration does when its dict was edited but has its old size. -/
inductive Choice where
  | raise
  | stop
  | visit (i : Nat)

inductive Act (Conn : Type*) where
  | accept (c : Conn)
  | line (c : Conn) (msg : Json)
  | badLine (c : Conn)
  | eof (c : Conn)
  | resume (c : Conn) (choice : Choice)
  | sendRaises (c : Conn)

variable {Conn : Type*} [DecidableEq Conn]

def Session.empty : Session Conn := ⟨Dict.empty, Dict.empty, fun _ => none, 0⟩

def Pending.involves (p : Pending Conn) (c : Conn) : Prop := p.receiver = c ∨ p.sender = c

instance (p : Pending Conn) (c : Conn) : Decidable (p.involves c) :=
  inferInstanceAs (Decidable (_ ∨ _))

def Session.dropPendingOf (x : Session Conn) (c : Conn) : Session Conn :=
  { x with pendingAck := fun st => (x.pendingAck st).filter fun p => ¬ p.involves c }

def Session.remove (x : Session Conn) (peer : Peer) (c : Conn) : Session Conn :=
  match peer.role with
  | .sender =>
    if x.senders.get? peer.id = some c then { x with senders := x.senders.erase peer.id } else x
  | .receiver =>
    if (x.receivers.get? peer.id).map Prod.fst = some c then
      { x with receivers := x.receivers.erase peer.id }
    else x

namespace State

variable (env : Env Conn) (s : State Conn) (c : Conn)

def init : State Conn := ⟨fun _ => Session.empty, fun _ => none, fun _ => .absent, []⟩

def setSession (name : Key) (f : Session Conn → Session Conn) : State Conn :=
  { s with sessions := Function.update s.sessions name (f (s.sessions name)) }

def setPhase (p : Phase) : State Conn := { s with phases := Function.update s.phases c p }

def setPeer (p : Option Peer) : State Conn := { s with peers := Function.update s.peers c p }

def send (dest : Conn) (out : Out) : State Conn := { s with sent := s.sent ++ [⟨c, dest, out⟩] }

/-- `drop_pending_of` on the connection that held an id, if one did. -/
def dropHolder (name : Key) (old : Option Conn) : State Conn :=
  match old with
  | none => s
  | some w => s.setSession name (·.dropPendingOf w)

def targets (l : Loop) : List (Conn × Key × Info) :=
  match l.kind with
  | .hear => (s.sessions l.session).receivers.entries.map fun e => (c, e.1, e.2.2)
  | .announce rid info => (s.sessions l.session).senders.entries.map fun e => (e.2, rid, info)

def tableEdits (l : Loop) : Nat :=
  match l.kind with
  | .hear => (s.sessions l.session).receivers.edits
  | .announce _ _ => (s.sessions l.session).senders.edits

def tableSize (l : Loop) : Nat :=
  match l.kind with
  | .hear => (s.sessions l.session).receivers.size
  | .announce _ _ => (s.sessions l.session).senders.size

/-- The loop body at position `i`, up to its `await`, or the end of the loop. -/
def visit (l : Loop) (i : Nat) : State Conn × Next :=
  match (s.targets c l)[i]? with
  | none => (s, .reading)
  | some (dest, rid, info) => (s.send c dest (.ready rid info), .looping { l with pos := i + 1 })

def startLoop (name : Key) (kind : LoopKind) : State Conn × Next :=
  let l : Loop := { session := name, kind := kind, pos := 0, size := 0, edits := 0 }
  s.visit c { l with size := s.tableSize l, edits := s.tableEdits l } 0

/-- The iteration goes on after an `await`.  Without an edit it is at its next
position; a changed size raises; any other edit leaves open what is visited. -/
def resumeLoop (l : Loop) (choice : Choice) : State Conn × Next :=
  if l.edits = s.tableEdits l then s.visit c l l.pos
  else if l.size ≠ s.tableSize l then (s, .raised .dictChanged)
  else
    match choice with
    | .raise => (s, .raised .dictChanged)
    | .stop => (s, .reading)
    | .visit i => s.visit c l i

def setSender (name stream : Key) : State Conn :=
  (s.setSession name fun x => { x with senders := x.senders.set stream c }).setPeer c
    (some ⟨name, .sender, stream⟩)

def setReceiver (name rid : Key) (info : Info) : State Conn :=
  (s.setSession name fun x => { x with receivers := x.receivers.set rid (c, info) }).setPeer c
    (some ⟨name, .receiver, rid⟩)

end State

def readInfo (env : Env Conn) (msg : Fields) : Except PyError Info := do
  let rtp ← (← msg.item "rtp_port").int env.intOfStr
  let rtcp ← (← msg.item "rtcp_port").int env.intOfStr
  return ⟨rtp, rtcp, (msg.get? "host").getD .null⟩

namespace State

variable (env : Env Conn) (s : State Conn) (c : Conn)

def registerSender (name : Key) (msg : Fields) : State Conn × Next :=
  match msg.itemKey "stream" with
  | .error e => (s, .raised e)
  | .ok stream =>
    ((s.dropHolder name ((s.sessions name).senders.get? stream)).setSender c name stream).startLoop
      c name .hear

def registerReceiver (name : Key) (msg : Fields) : State Conn × Next :=
  match msg.itemKey "receiver" with
  | .error e => (s, .raised e)
  | .ok rid =>
    let s := s.dropHolder name (((s.sessions name).receivers.get? rid).map Prod.fst)
    match readInfo env msg with
    | .error e => (s, .raised e)
    | .ok info => (s.setReceiver c name rid info).startLoop c name (.announce rid info)

/-- The role a register message names; any other value registers nothing. -/
def roleOf (j : Json) : Option Role :=
  match j with
  | .str r => if r = "sender" then some .sender else if r = "receiver" then some .receiver else none
  | _ => none

def register (msg : Fields) : State Conn × Next :=
  match msg.itemKey "session", msg.item "role" with
  | .error e, _ => (s, .raised e)
  | .ok _, .error e => (s, .raised e)
  | .ok name, .ok role =>
    match roleOf role with
    | some .sender => s.registerSender c name msg
    | some .receiver => s.registerReceiver env c name msg
    | none => (s, .reading)

/-- A stream-start is accepted: it gets the next generation, is bound to both
connections, and is handed to the receiver. -/
def handOver (name stream : Key) (recv : Conn) (host : String) (msg : Fields) : State Conn :=
  let g := (s.sessions name).generation + 1
  (s.setSession name fun x =>
    { x with
      generation := g
      pendingAck := Function.update x.pendingAck stream (some ⟨recv, c, g⟩) }).send c recv
    (.start name stream g host msg)

def routeStreamStart (msg : Fields) : State Conn × Next :=
  match s.peers c with
  | none => (s, .raised .keyError)
  | some peer =>
    match msg.itemKey "to" with
    | .error e => (s, .raised e)
    | .ok rid =>
      match (s.sessions peer.session).receivers.get? rid with
      | none => (s, .reading)
      | some (recv, _) =>
        match env.peername c with
        | none => (s, .raised .typeError)
        | some host => (s.handOver c peer.session peer.id recv host msg, .sending)

def answers (peer : Peer) (p : Pending Conn) (msg : Fields) : Prop :=
  peer.role = .receiver ∧ p.receiver = c ∧
    ((msg.get? "generation").getD .null).eqNat p.generation = true

instance (peer : Peer) (p : Pending Conn) (msg : Fields) : Decidable (answers c peer p msg) :=
  inferInstanceAs (Decidable (_ ∧ _ ∧ _))

def popPending (name stream : Key) : State Conn :=
  s.setSession name fun x => { x with pendingAck := Function.update x.pendingAck stream none }

def routeStreamAck (msg : Fields) : State Conn × Next :=
  match s.peers c with
  | none => (s, .reading)
  | some peer =>
    match msg.getKey "stream" with
    | .error e => (s, .raised e)
    | .ok stream =>
      match (s.sessions peer.session).pendingAck stream with
      | none => (s, .reading)
      | some p =>
        if answers c peer p msg then
          let s' := s.popPending peer.session stream
          if (s.sessions peer.session).senders.get? stream = some p.sender then
            (s'.send c p.sender (.ack peer.session stream p.generation msg), .sending)
          else (s', .reading)
        else (s, .reading)

/-- `msg.get("session", self.peers.get(writer, ("s1",))[0])`, used as a key. -/
def profileSession (msg : Fields) : Except PyError Key :=
  match msg.get? "session" with
  | some j => j.key
  | none => .ok (((s.peers c).map Peer.session).getD (.str "s1"))

def routeProfile (msg : Fields) : State Conn × Next :=
  match s.profileSession c msg, msg.getKey "stream" with
  | .error e, _ => (s, .raised e)
  | .ok _, .error e => (s, .raised e)
  | .ok name, .ok stream =>
    match (s.sessions name).senders.get? stream with
    | none => (s, .reading)
    | some w => (s.send c w (.profile msg), .sending)

def dispatchType (t : String) (msg : Fields) : State Conn × Next :=
  if t = "register" then s.register env c msg
  else if t = "stream-start" then s.routeStreamStart env c msg
  else if t = "stream-ack" then s.routeStreamAck c msg
  else if t = "profile" then s.routeProfile c msg
  else if t = "ping" then (s.send c c .pong, .sending)
  else (s, .reading)

def dispatch (msg : Json) : State Conn × Next :=
  match msg with
  | .obj fields =>
    match Fields.get? fields "type" with
    | some (.str t) => s.dispatchType env c t fields
    | _ => (s, .reading)
  | _ => (s, .raised .attributeError)

def unregister : State Conn :=
  match s.peers c with
  | none => s
  | some peer =>
    (s.setPeer c none).setSession peer.session fun x => (x.remove peer c).dropPendingOf c

/-- The `finally` of `handle`. -/
def close (e : Option PyError) : State Conn := (s.unregister c).setPhase c (.closed e)

def finish : State Conn × Next → State Conn
  | (s, .reading) => s.setPhase c .reading
  | (s, .sending) => s.setPhase c .sending
  | (s, .looping l) => s.setPhase c (.looping l)
  | (s, .raised e) => s.close c (some e)

/-- One step.  `eof` is also a read that raises. -/
def step : Act Conn → Option (State Conn)
  | .accept c =>
    match s.phases c with
    | .absent => some (s.setPhase c .reading)
    | _ => none
  | .line c msg =>
    match s.phases c with
    | .reading => some (finish c (s.dispatch env c msg))
    | _ => none
  | .badLine c =>
    match s.phases c with
    | .reading => some s
    | _ => none
  | .eof c =>
    match s.phases c with
    | .reading => some (s.close c none)
    | _ => none
  | .resume c choice =>
    match s.phases c with
    | .sending => some (s.setPhase c .reading)
    | .looping l => some (finish c (s.resumeLoop c l choice))
    | _ => none
  | .sendRaises c =>
    match s.phases c with
    | .sending | .looping _ => some (s.close c (some .osError))
    | _ => none

end State

def server (env : Env Conn) : Machine (State Conn) (Act Conn) where
  init := State.init
  step := State.step env

end Control
end P5G
