import P5G.Control.AckRouting
import P5G.Control.Apps

/-!
# The control channel

The server and any number of processes, each with one connection.  `said` is
what a process has written to its connection and `read` how much of it the
server has read; what the server has sent to a connection is in the server's
state, and `heard` is how much of it the process has taken.  Both directions are
FIFO.  A process may end, and a connection may break, at any time; what was sent
to a process may never be heard.

`starts` records the senders that have started, each with the connection whose
ack it started on.
-/

namespace P5G
namespace Control

/-- A process: a sender, a receiver, or one that only issues profiles. -/
inductive App where
  | sender (cfg : SenderConfig)
  | receiver (cfg : ReceiverConfig)
  | operator

structure Deployment (Conn : Type*) where
  app : Conn → App
  env : Env Conn
  inetPton : String → Bool

inductive Status where
  | absent
  | running
  | exited
  deriving DecidableEq

structure Net (Conn : Type*) where
  server : State Conn
  status : Conn → Status
  said : Conn → List Fields
  read : Conn → Nat
  heard : Conn → Nat
  senders : Conn → Sender
  receivers : Conn → Receiver
  starts : List (Conn × Conn)

inductive NetAct (Conn : Type*) where
  /-- The process starts, connects and registers. -/
  | launch (c : Conn)
  | accept (c : Conn)
  | read (c : Conn)
  | eof (c : Conn)
  | resume (c : Conn) (choice : Choice)
  | sendRaises (c : Conn)
  | hear (c : Conn)
  | command (c : Conn) (msg : Fields)
  | exit (c : Conn)

def App.register : App → List Fields
  | .sender cfg => [cfg.register]
  | .receiver cfg => [cfg.register]
  | .operator => []

variable {Conn : Type*} [DecidableEq Conn]

namespace Net

variable (d : Deployment Conn) (z : Net Conn) (c : Conn)

def init : Net Conn :=
  ⟨State.init, fun _ => .absent, fun _ => [], fun _ => 0, fun _ => 0, fun _ => Sender.init,
    fun _ => Receiver.init, []⟩

def inbox : List (Sent Conn) := z.server.sent.filter fun x => x.dest = c

def say (msgs : List Fields) : Net Conn :=
  { z with said := Function.update z.said c (z.said c ++ msgs) }

def exitIf (exits : Bool) : Net Conn :=
  { z with status := if exits then Function.update z.status c .exited else z.status }

def senderHears (cfg : SenderConfig) (x : Sent Conn) (m : Fields) : Net Conn :=
  let r := (z.senders c).onMessage cfg d.inetPton m
  let starts := if !(z.senders c).started && r.state.started then z.starts ++ [(c, x.origin)]
    else z.starts
  ({ z with senders := Function.update z.senders c r.state, starts := starts }.say c r.sends).exitIf
    c r.exits

def receiverHears (m : Fields) : Net Conn :=
  let r := (z.receivers c).onMessage m
  ({ z with receivers := Function.update z.receivers c r.state }.say c r.sends).exitIf c r.exits

def hears (x : Sent Conn) : Net Conn :=
  let z := { z with heard := Function.update z.heard c (z.heard c + 1) }
  match d.app c, x.out.toJson with
  | .sender cfg, .obj m => z.senderHears d c cfg x m
  | .receiver _, .obj m => z.receiverHears c m
  | _, _ => z

def serve (a : Act Conn) : Option (Net Conn) :=
  (z.server.step d.env a).map fun s => { z with server := s }

def step : NetAct Conn → Option (Net Conn)
  | .launch c =>
    match z.status c with
    | .absent =>
      some ({ z with status := Function.update z.status c .running }.say c (d.app c).register)
    | _ => none
  | .accept c =>
    match z.status c with
    | .absent => none
    | _ => z.serve d (.accept c)
  | .read c =>
    match (z.said c)[z.read c]? with
    | none => none
    | some m =>
      { z with read := Function.update z.read c (z.read c + 1) }.serve d (.line c (.obj m))
  | .eof c => z.serve d (.eof c)
  | .resume c choice => z.serve d (.resume c choice)
  | .sendRaises c => z.serve d (.sendRaises c)
  | .hear c =>
    match z.status c, (z.inbox c)[z.heard c]? with
    | .running, some x => some (z.hears d c x)
    | _, _ => none
  | .command c msg =>
    match d.app c, z.status c, Fields.get? msg "type" with
    | .operator, .running, some (.str t) => if t = "profile" then some (z.say c [msg]) else none
    | _, _, _ => none
  | .exit c =>
    match z.status c with
    | .running => some (z.exitIf c true)
    | _ => none

end Net

def control (d : Deployment Conn) : Machine (Net Conn) (NetAct Conn) where
  init := Net.init
  step := Net.step d

end Control
end P5G
