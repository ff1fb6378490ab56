import P5G.Machine
import P5G.Seqlock
import P5G.Rtp.Header

/-!
# The arrival summary of the gstreamer receiver

`OnRtpIn` and `LookupArrival` of video_receiver.cc, as a machine of the one thread that
records packets and any number of threads that look frames up.  A step is one load or
store; memory is sequentially consistent.  The packet count is unbounded here.
-/

namespace P5G
namespace Gst
namespace Receiver

structure Packet where
  ssrc : UInt32
  ts : UInt32
  mono : Nat
  deriving DecidableEq

/-- The fields of an `Arrival` behind its counter.  `n` is an `int32_t` there: the same for a slot
that counts fewer than 2^31 packets. -/
structure Fields where
  key : UInt64
  first : Nat
  last : Nat
  n : Nat
  deriving DecidableEq

def Fields.init : Fields := ⟨0xffffffffffffffff, 0, 0, 0⟩

def arrivalSlot (ts : UInt32) : Nat := ts.toNat / 90 % 1024

/-- A store of `OnRtpIn` to a field, with the load it is computed from. -/
inductive FieldStore where
  | addN
  | key (ts : UInt32)
  | first (mono : Nat)
  | last (mono : Nat)
  | minFirst (mono : Nat)
  | one
  deriving DecidableEq

def FieldStore.apply (v : Fields) : FieldStore → Fields
  | .addN => { v with n := v.n + 1 }
  | .key ts => { v with key := ts.toUInt64 }
  | .first mono => { v with first := mono }
  | .last mono => { v with last := mono }
  | .minFirst mono => { v with first := if mono < v.first then mono else v.first }
  | .one => { v with n := 1 }

def fieldStores (p : Packet) (sameFrame : Bool) : List FieldStore :=
  if sameFrame then [.addN, .last p.mono, .minFirst p.mono]
  else [.key p.ts, .first p.mono, .last p.mono, .one]

inductive Writer where
  | idle
  | loadKey (p : Packet)
  | loadSeq (p : Packet) (sameFrame : Bool)
  | openSeq (p : Packet) (sameFrame : Bool) (seq0 : UInt32)
  | store (p : Packet) (seq0 : UInt32) (rest : List FieldStore)
  deriving DecidableEq

/-- An `Arrival`, and the packets recorded in it, which the source does not keep. -/
structure Arrival where
  lock : Seqlock Fields
  log : List Packet

def Arrival.init : Arrival := ⟨⟨0, Fields.init, 0⟩, []⟩

/-- An attempt: the timestamp and its number, and what it found of the counter.  How
many writes there had been when the lookup began and the count of the counter's stores
are not in the source. -/
structure Attempt where
  ts : UInt32
  attempt : Nat
  began : Nat
  s0 : UInt32
  since : Nat
  deriving DecidableEq

inductive Reader where
  | idle
  | seq (ts : UInt32) (attempt began : Nat)
  | key (t : Attempt)
  | first (t : Attempt)
  | last (t : Attempt) (first : Nat)
  | n (t : Attempt) (first last : Nat)
  | check (t : Attempt) (first last n : Nat)
  | returned (ts : UInt32) (result : Option (Nat × Nat × Nat))
  deriving DecidableEq

/-- The next attempt, or false behind the fourth. -/
def Reader.retry (ts : UInt32) (attempt began : Nat) : Reader :=
  if attempt + 1 < 4 then .seq ts (attempt + 1) began else .returned ts none

/-- A step of a lookup in its slot. -/
def Reader.step (x : Seqlock Fields) : Reader → Option Reader
  | .idle => none
  | .seq ts attempt began =>
    if x.seq &&& 1 ≠ 0 then some (retry ts attempt began)
    else some (.key ⟨ts, attempt, began, x.seq, x.stores⟩)
  | .key t => if x.val.key ≠ t.ts.toUInt64 then some (.returned t.ts none) else some (.first t)
  | .first t => some (.last t x.val.first)
  | .last t f => some (.n t f x.val.last)
  | .n t f l => some (.check t f l x.val.n)
  | .check t f l k =>
    if x.seq = t.s0 then some (.returned t.ts (some (f, l, k)))
    else some (retry t.ts t.attempt t.began)
  | .returned _ _ => none

def Reader.ts? : Reader → Option UInt32
  | .idle => none
  | .seq ts _ _ | .returned ts _ => some ts
  | .key t | .first t | .last t _ | .n t _ _ | .check t _ _ _ => some t.ts

/-- `clock` is the last reading of the recording thread and `recorded` what it has
recorded in all slots; the source keeps neither. -/
structure State (Thread : Type*) where
  ssrc : UInt32
  clock : Nat
  writer : Writer
  arrivals : Nat → Arrival
  readers : Thread → Reader
  recorded : List Packet

/-- A stream is announced, a packet comes in, the recording thread moves, a thread calls
`LookupArrival`, or moves in it. -/
inductive RecvAct (Thread : Type*) where
  | announce (ssrc : UInt32)
  | packet (p : Packet)
  | write
  | lookup (r : Thread) (ts : UInt32)
  | read (r : Thread)

namespace State

variable {Thread : Type*} (s : State Thread)

def init : State Thread := ⟨0, 0, .idle, fun _ => Arrival.init, fun _ => .idle, []⟩

def slot (ts : UInt32) : Arrival := s.arrivals (arrivalSlot ts)

def setSlot (ts : UInt32) (x : Arrival) : State Thread :=
  { s with arrivals := Function.update s.arrivals (arrivalSlot ts) x }

def setWriter (w : Writer) : State Thread := { s with writer := w }

/-- A step of `OnRtpIn`. -/
def write : Option (State Thread) :=
  match s.writer with
  | .idle => none
  | .loadKey p =>
    some (s.setWriter (.loadSeq p ((s.slot p.ts).lock.val.key = p.ts.toUInt64)))
  | .loadSeq p sameFrame => some (s.setWriter (.openSeq p sameFrame (s.slot p.ts).lock.seq))
  | .openSeq p sameFrame seq0 =>
    let x := s.slot p.ts
    some ((s.setSlot p.ts { x with lock := x.lock.bump (seq0 + 1) }).setWriter
      (.store p seq0 (fieldStores p sameFrame)))
  | .store p seq0 (f :: rest) =>
    let x := s.slot p.ts
    some ((s.setSlot p.ts { x with lock := x.lock.put fun v => f.apply v }).setWriter
      (.store p seq0 rest))
  | .store p seq0 [] =>
    let x := s.slot p.ts
    some { s.setSlot p.ts ⟨x.lock.bump (seq0 + 2), x.log ++ [p]⟩ with
      writer := .idle
      recorded := s.recorded ++ [p] }

def packet (p : Packet) : Option (State Thread) :=
  match s.writer with
  | .idle =>
    if p.mono < s.clock then none
    else if p.ssrc ≠ s.ssrc then some { s with clock := p.mono }
    else some ({ s with clock := p.mono }.setWriter (.loadKey p))
  | _ => none

variable {s} in
@[simp] theorem slot_setSlot (ts : UInt32) (x : Arrival) : (s.setSlot ts x).slot ts = x :=
  Function.update_self _ _ _

variable {s} in
theorem arrivals_setSlot_of_ne {ts : UInt32} {x : Arrival} {i : Nat} (hi : i ≠ arrivalSlot ts) :
    (s.setSlot ts x).arrivals i = s.arrivals i :=
  Function.update_of_ne hi _ _

variable [DecidableEq Thread]

def setReader (r : Thread) (x : Reader) : State Thread :=
  { s with readers := Function.update s.readers r x }

def lookup (r : Thread) (ts : UInt32) : Option (State Thread) :=
  match s.readers r with
  | .idle | .returned _ _ =>
    some (s.setReader r (.seq ts 0 ((s.slot ts).lock.stores / 2)))
  | _ => none

def read (r : Thread) : Option (State Thread) :=
  (s.readers r).ts?.bind fun ts =>
    ((s.readers r).step (s.slot ts).lock).map fun x => s.setReader r x

def step : RecvAct Thread → Option (State Thread)
  | .announce ssrc => some { s with ssrc := ssrc }
  | .packet p => s.packet p
  | .write => s.write
  | .lookup r ts => s.lookup r ts
  | .read r => s.read r

end State

def receiver (Thread : Type*) [DecidableEq Thread] : Machine (State Thread) (RecvAct Thread) :=
  ⟨State.init, fun s => s.step⟩

end Receiver
end Gst
end P5G
