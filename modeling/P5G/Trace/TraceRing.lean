import P5G.Trace.Queue

/-!
# TraceRing of the media applications

`TraceRing::Write`, `FlushOnce`, `FlushLoop` and `Close` of trace_ring.h as one
machine: any number of producer threads, the background flusher and the thread
that calls `Close`.  Each atomic operation and each slot copy is one step, and
every file operation succeeds.
-/

namespace P5G

/-- A line of a trace file.  A footer line holds `key=count` fields and, where
the source prints it, the clock domain. -/
inductive TraceLine (Row : Type*) where
  | header (text : String)
  | row (r : Row)
  | footer (counts : List (String × Nat)) (clockDomain : Option String)
  deriving DecidableEq

namespace TraceRing

open SlotRing

/-- Where a thread stands in `Write`.  `claiming` is the part from the load of
`claimed_` on, whose place the core keeps. -/
inductive CallPc (Row : Type*) where
  | idle
  | loadClosed (r : Row)
  | countLate (r : Row)
  | claiming
  deriving DecidableEq

/-- `FlushLoop`. -/
inductive FlusherPc where
  | loadRunning
  | sleeping
  | flushing
  | exited
  deriving DecidableEq

/-- `Close`, with the last `FlushOnce(true)` and the footer it writes.  The
destructor calls `Close` once more. -/
inductive CloserPc where
  | notCalled
  | exchange
  | stopRunning
  | join
  | loopLoad (i : Nat)
  | loopCompare (i c : Nat)
  | loopFlush (i : Nat)
  | finalFlush
  | loadOverflow (m e : Nat)
  | loadLate (m e ov : Nat)
  | writeFooter (m e ov lt : Nat)
  | returned
  deriving DecidableEq

/-- `begun`, `dropped` and `lateRows` are history: every call of `Write`, those
that counted an overflow and those that found the ring closed. -/
structure State (T Row : Type*) where
  core : Core T Row
  overflow : Nat
  late : Nat
  closed : Bool
  running : Bool
  calls : T → CallPc Row
  flusher : FlusherPc
  closer : CloserPc
  file : List (TraceLine Row)
  sidecar : Option (List (String × Nat))
  begun : List (T × Row)
  dropped : List (T × Row)
  lateRows : List (T × Row)

inductive Act (T Row : Type*) where
  | write (t : T) (r : Row)
  | producer (t : T) (spurious : Bool)
  | flusher
  | close
  | closer

variable {T Row : Type*} [DecidableEq T]

def init (header : String) (memory : Nat → Row) : State T Row where
  core := Core.empty memory
  overflow := 0
  late := 0
  closed := false
  running := true
  calls := fun _ => .idle
  flusher := .loadRunning
  closer := .notCalled
  file := [.header header]
  sidecar := none
  begun := []
  dropped := []
  lateRows := []

namespace State

variable (cap : Capacity) (s : State T Row)

def setCall (t : T) (pc : CallPc Row) : State T Row :=
  { s with calls := Function.update s.calls t pc }

/-- `Write`, one step. -/
def producerStep (t : T) (spurious : Bool) : Option (State T Row) :=
  match s.calls t with
  | .idle => none
  | .loadClosed r =>
    if s.closed then some (s.setCall t (.countLate r))
    else (s.core.step cap (.enter t r)).map fun c => { s.setCall t .claiming with core := c }
  | .countLate r =>
    some { s.setCall t .idle with late := s.late + 1, lateRows := s.lateRows ++ [(t, r)] }
  | .claiming =>
    (s.core.step cap (.writer t spurious)).map fun c =>
      match s.core.writers t with
      | .refused r =>
        { s.setCall t .idle with
          core := c
          overflow := s.overflow + 1
          dropped := s.dropped ++ [(t, r)] }
      | .publish _ _ => { s.setCall t .idle with core := c }
      | _ => { s with core := c }

/-- One step inside `FlushOnce`: the ring's step, and the row line it formats. -/
def passStep (final : Bool) : Option (State T Row) :=
  (s.core.step cap (.pass final)).map fun c =>
    match s.core.drain with
    | .format m _ =>
      { s with core := c, file := s.file ++ [.row (s.core.slots (cap.index m)).row] }
    | _ => { s with core := c }

/-- `FlushLoop`, one step. -/
def flusherStep : Option (State T Row) :=
  match s.flusher with
  | .loadRunning => some { s with flusher := if s.running then .sleeping else .exited }
  | .sleeping =>
    (s.core.step cap .beginPass).map fun c => { s with core := c, flusher := .flushing }
  | .flushing =>
    match s.core.drain with
    | .out => some { s with flusher := .loadRunning }
    | .ended _ _ =>
      (s.core.step cap .endPass).map fun c => { s with core := c, flusher := .loadRunning }
    | _ => s.passStep cap false
  | .exited => none

/-- The lines `FlushOnce(true)` ends the file with. -/
def footer (bootId : String) (written ov lt unpub : Nat) : List (TraceLine Row) :=
  .footer [("rows", written)] (some bootId) ::
    if ov ≠ 0 ∨ lt ≠ 0 ∨ unpub ≠ 0 then
      [.footer [("overflow", ov), ("late", lt), ("unpublished", unpub)] none]
    else []

/-- `Close`, one step. -/
def closerStep (bootId : String) : Option (State T Row) :=
  match s.closer with
  | .notCalled => none
  | .exchange =>
    if s.closed then some { s with closer := .returned }
    else some { s with closed := true, closer := .stopRunning }
  | .stopRunning => some { s with running := false, closer := .join }
  | .join => if s.flusher = .exited then some { s with closer := .loopLoad 0 } else none
  | .loopLoad i =>
    if i < 100 then some { s with closer := .loopCompare i s.core.consumed }
    else (s.core.step cap .beginPass).map fun c => { s with core := c, closer := .finalFlush }
  | .loopCompare i c =>
    (s.core.step cap .beginPass).map fun k =>
      { s with core := k, closer := if c ≠ s.core.claimed then .loopFlush i else .finalFlush }
  | .loopFlush i =>
    match s.core.drain with
    | .out => some { s with closer := .loopLoad (i + 1) }
    | .ended _ _ =>
      (s.core.step cap .endPass).map fun c => { s with core := c, closer := .loopLoad (i + 1) }
    | _ => s.passStep cap false
  | .finalFlush =>
    match s.core.drain with
    | .ended m e =>
      (s.core.step cap .endPass).map fun c => { s with core := c, closer := .loadOverflow m e }
    | _ => s.passStep cap true
  | .loadOverflow m e => some { s with closer := .loadLate m e s.overflow }
  | .loadLate m e ov => some { s with closer := .writeFooter m e ov s.late }
  | .writeFooter m e ov lt =>
    some { s with
      closer := .returned
      file := s.file ++ footer bootId s.core.written ov lt (e - m)
      sidecar :=
        if ov ≠ 0 ∨ lt ≠ 0 ∨ e - m ≠ 0 then
          some [("overflow", ov), ("late", lt), ("unpublished", e - m)]
        else s.sidecar }
  | .returned => none

def step (bootId : String) : Act T Row → Option (State T Row)
  | .write t r =>
    match s.calls t with
    | .idle => some { s.setCall t (.loadClosed r) with begun := s.begun ++ [(t, r)] }
    | _ => none
  | .producer t spurious => s.producerStep cap t spurious
  | .flusher => s.flusherStep cap
  | .close =>
    if s.closer = .notCalled ∨ s.closer = .returned then some { s with closer := .exchange }
    else none
  | .closer => s.closerStep cap bootId

end State

def machine (cfg : Config) (header bootId : String) (memory : Nat → Row) :
    Machine (State T Row) (Act T Row) where
  init := init header memory
  step := fun s a => s.step cfg.cap bootId a

end TraceRing
end P5G
