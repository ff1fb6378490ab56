import P5G.Rtp.Header

/-!
# The RFC 6184 depacketizer

`H264Depacketizer` of rtp_util.h: `Push` with the phases of its body under
names of their own, in the order in which the source runs them.  The three
assembly buffers hold at least `cap` bytes each, and a `memcpy` into one is
`write`, which asks for the bound that `Append` has checked.  Counters are
natural numbers, which is what the `int`s of the source hold until one of them
overflows; IntCounters says for which packets that is.
-/

namespace P5G

/-- The assembly buffers are numbered from 0 and taken in turn. -/
instance assemblyBuffers_neZero : NeZero 3 := ⟨by decide⟩

structure AuBuffers (cap : Nat) where
  bytes : Fin 3 → List UInt8
  room : ∀ k, cap ≤ (bytes k).length

def AuBuffers.zeroed (cap : Nat) : AuBuffers cap where
  bytes _ := List.replicate cap 0
  room _ := by simp

def overwrite (b : List UInt8) (off : Nat) (p : List UInt8) : List UInt8 :=
  b.take off ++ p ++ b.drop (off + p.length)

theorem overwrite_length {b p : List UInt8} {off : Nat} (h : off + p.length ≤ b.length) :
    (overwrite b off p).length = b.length := by
  simp only [overwrite, List.length_append, List.length_take, List.length_drop]
  omega

theorem overwrite_take {b p : List UInt8} {off : Nat} (h : off + p.length ≤ b.length) :
    (overwrite b off p).take (off + p.length) = b.take off ++ p := by
  have hlen : (b.take off ++ p).length = off + p.length := by
    simp only [List.length_append, List.length_take]
    omega
  rw [overwrite, ← hlen, List.take_left]

namespace AuBuffers

variable {cap : Nat}

def write (b : AuBuffers cap) (k : Fin 3) (off : Nat) (p : List UInt8)
    (h : off + p.length ≤ cap) : AuBuffers cap where
  bytes j := if j = k then overwrite (b.bytes k) off p else b.bytes j
  room j := by
    split
    · rw [overwrite_length (Nat.le_trans h (b.room k))]
      exact b.room k
    · exact b.room j

variable {b : AuBuffers cap} {k : Fin 3} {off : Nat} {p : List UInt8}

theorem write_take (h : off + p.length ≤ cap) :
    ((b.write k off p h).bytes k).take (off + p.length) = (b.bytes k).take off ++ p := by
  simp only [write, ↓reduceIte]
  exact overwrite_take (Nat.le_trans h (b.room k))

theorem write_ne {j : Fin 3} (hj : j ≠ k) (h : off + p.length ≤ cap) :
    (b.write k off p h).bytes j = b.bytes j := if_neg hj

end AuBuffers

def maxDropout : Int := 3000

def maxMisorder : Int := 100

def nalType (b : UInt8) : UInt8 := b &&& 0x1f

def startCode : List UInt8 := [0, 0, 0, 1]

structure AuEvent where
  complete : Bool
  rtpTs : UInt32
  bytes : Nat
  packets : Nat
  lostPackets : Nat
  lostFragments : Nat
  isIdr : Bool
  damaged : Bool
  buffer : Fin 3
  firstArrivalNs : Int
  lastArrivalNs : Int

structure Depacketizer (cap : Nat) where
  buf : AuBuffers cap
  cur : Fin 3 := 0
  emittedLen : Fin 3 → Nat := fun _ => 0
  len : Nat := 0
  packets : Nat := 0
  lost : Nat := 0
  lostFrag : Nat := 0
  idr : Bool := false
  fuStart : Nat := 0
  damaged : Bool := false
  pendingGap : Nat := 0
  curTs : UInt32 := 0
  lastSeq : UInt16 := 0
  firstArrival : Int := 0
  lastArrival : Int := 0
  haveTs : Bool := false
  haveSeq : Bool := false
  fuOpen : Bool := false
  orphan : Bool := false
  accepted : Bool := true
  lateOrDup : Nat := 0
  seqResets : Nat := 0

namespace Depacketizer

variable {cap : Nat}

def data (d : Depacketizer cap) (k : Fin 3) : List UInt8 :=
  (d.buf.bytes k).take (d.emittedLen k)

def reset (d : Depacketizer cap) (ts : UInt32) : Depacketizer cap :=
  { d with
    haveTs := true, curTs := ts, len := 0, packets := 0, lost := 0, lostFrag := 0, idr := false
    damaged := false, fuOpen := false, orphan := false }

def append (d : Depacketizer cap) (p : List UInt8) : Depacketizer cap :=
  if h : d.len + p.length ≤ cap then
    { d with buf := d.buf.write d.cur d.len p h, len := d.len + p.length }
  else { d with damaged := true }

theorem append_fuStart (d : Depacketizer cap) (p : List UInt8) :
    (d.append p).fuStart = d.fuStart := by
  rw [append]
  split <;> rfl

def appendStartCode (d : Depacketizer cap) : Depacketizer cap := d.append startCode

def appendNal (d : Depacketizer cap) (p : List UInt8) : Depacketizer cap :=
  let d := d.appendStartCode.append p
  if nalType (byte p 0) = 5 then { d with idr := true } else d

def dropOpenFu (d : Depacketizer cap) : Depacketizer cap := { d with len := d.fuStart }

/-- An open FU-A unit that cannot be finished: counted and discarded. -/
def closeFu (d : Depacketizer cap) : Depacketizer cap :=
  if d.fuOpen then { d.dropOpenFu with lostFrag := d.lostFrag + 1, fuOpen := false } else d

def event (d : Depacketizer cap) (byMarker : Bool) : AuEvent where
  complete := byMarker && d.lost == 0 && d.lostFrag == 0 && !d.damaged && decide (0 < d.len)
  rtpTs := d.curTs
  bytes := d.len
  packets := d.packets
  lostPackets := d.lost
  lostFragments := d.lostFrag
  isIdr := d.idr
  damaged := d.damaged
  buffer := d.cur
  firstArrivalNs := d.firstArrival
  lastArrivalNs := d.lastArrival

def rotate (d : Depacketizer cap) : Depacketizer cap :=
  { d with
    emittedLen := fun k => if k = d.cur then d.len else d.emittedLen k
    cur := d.cur + 1
    len := 0 }

def emit (d : Depacketizer cap) (byMarker : Bool) : Depacketizer cap × Option AuEvent :=
  let d := d.closeFu
  if d.len = 0 ∧ d.packets = 0 ∧ d.lost = 0 then (d, none)
  else (d.rotate, some (d.event byMarker))

/-- The loop over the units of a STAP-A, on the bytes not yet read.  Each round
reads at least three of them, so their number is fuel enough. -/
def stapA : Nat → Depacketizer cap → List UInt8 → Depacketizer cap
  | 0, d, _ => d
  | _ + 1, d, [] => d
  | _ + 1, d, [_] => { d with damaged := true }
  | fuel + 1, d, a :: b :: rest =>
    let sz := (be16 a b).toNat
    if sz = 0 ∨ rest.length < sz then { d with damaged := true }
    else stapA fuel (d.appendNal (rest.take sz)) (rest.drop sz)

def startFu (d : Depacketizer cap) (indicator fu : UInt8) : Depacketizer cap :=
  let d := d.closeFu
  let d := { d with fuStart := d.len, orphan := false }
  let d := d.appendStartCode.append [indicator &&& 0xe0 ||| fu &&& 0x1f]
  { d with fuOpen := true, idr := d.idr || fu &&& 0x1f == 5 }

/-- A fragment after the start.  Without an open unit it is an orphan: its unit
is lost and counted once, and the end fragment closes the run. -/
def continueFu (d : Depacketizer cap) (last : Bool) (fragment : List UInt8) :
    Depacketizer cap :=
  if d.fuOpen then { d.append fragment with fuOpen := !last }
  else { d with orphan := !last, lostFrag := if d.orphan then d.lostFrag else d.lostFrag + 1 }

def fuA (d : Depacketizer cap) (indicator fu : UInt8) (fragment : List UInt8) :
    Depacketizer cap :=
  let d := if fu >>> 7 = 0 then d else d.startFu indicator fu
  d.continueFu (fu >>> 6 &&& 1 != 0) fragment

def payload (d : Depacketizer cap) : List UInt8 → Depacketizer cap
  | [] => d
  | b :: rest =>
    if 1 ≤ nalType b ∧ nalType b ≤ 23 then { d.appendNal (b :: rest) with orphan := false }
    else if nalType b = 24 then stapA rest.length { d with orphan := false } rest
    else if nalType b = 28 then
      match rest with
      | [] => { d with damaged := true }
      | fu :: fragment => d.fuA b fu fragment
    else { d with damaged := true }

/-- The signed 16-bit step from the last accepted sequence number. -/
def seqStep (d : Depacketizer cap) (seq : UInt16) : Int := (seq - d.lastSeq).toInt16.toInt

def late (d : Depacketizer cap) (seq : UInt16) : Bool :=
  d.haveSeq && decide (d.seqStep seq ≤ 0) && decide (-maxMisorder ≤ d.seqStep seq)

/-- Progress within `maxDropout`, or a sequence reset that closes what was open. -/
def advance (d : Depacketizer cap) (seq : UInt16) : Depacketizer cap × Option AuEvent :=
  if !d.haveSeq then (d, none)
  else if 0 < d.seqStep seq ∧ d.seqStep seq ≤ maxDropout then
    ({ d with pendingGap := (d.seqStep seq - 1).toNat }, none)
  else
    let d := { d with seqResets := d.seqResets + 1, pendingGap := 0 }
    let r := if d.haveTs then d.emit false else (d, none)
    ({ r.1 with haveTs := false }, r.2)

def lostTail (d : Depacketizer cap) : Depacketizer cap :=
  { d with lost := d.lost + d.pendingGap, pendingGap := 0 }

/-- A new timestamp while an access unit is open: the gap is its lost tail. -/
def changeTs (d : Depacketizer cap) (ts : UInt32) : Depacketizer cap × Option AuEvent :=
  if d.haveTs ∧ ts ≠ d.curTs then d.lostTail.emit false else (d, none)

def stamp (d : Depacketizer cap) (arrival : Int) : Depacketizer cap :=
  { d with
    firstArrival := if d.packets = 0 then arrival else d.firstArrival
    lastArrival := arrival }

def enter (d : Depacketizer cap) (ts : UInt32) (arrival : Int) : Depacketizer cap :=
  (if !d.haveTs || ts != d.curTs then d.reset ts else d).stamp arrival

/-- A gap inside the access unit.  The surviving continuations of the unit it
interrupts are not counted again. -/
def countGap (d : Depacketizer cap) : Depacketizer cap :=
  if d.pendingGap = 0 then d
  else if d.fuOpen then { d.lostTail.closeFu with orphan := true }
  else d.lostTail

def endByMarker (d : Depacketizer cap) (marker : UInt8) : Depacketizer cap × Option AuEvent :=
  if marker = 0 then (d, none)
  else
    let r := d.emit true
    ({ r.1.reset r.1.curTs with haveTs := false }, r.2)

/-- What one accepted packet adds to the access unit it belongs to. -/
def take (d : Depacketizer cap) (h : RtpHeader) (arrival : Int) : Depacketizer cap :=
  let d := (d.enter h.ts arrival).countGap
  { d with packets := d.packets + 1 }.payload h.payload

def push (d : Depacketizer cap) (h : RtpHeader) (arrival : Int) :
    Depacketizer cap × List AuEvent :=
  if d.late h.seq then ({ d with accepted := false, lateOrDup := d.lateOrDup + 1 }, [])
  else
    let r₁ := { d with accepted := true }.advance h.seq
    let r₂ := { r₁.1 with haveSeq := true, lastSeq := h.seq }.changeTs h.ts
    let r₃ := (r₂.1.take h arrival).endByMarker h.marker
    (r₃.1, r₁.2.toList ++ r₂.2.toList ++ r₃.2.toList)

/-- One packet, and the access units that end with it, each with its bytes as
they stand when `Push` returns. -/
def receive (d : Depacketizer cap) (q : RtpHeader × Int) :
    Depacketizer cap × List (AuEvent × List UInt8) :=
  let r := d.push q.1 q.2
  (r.1, r.2.map fun e => (e, r.1.data e.buffer))

def receiveAll (d : Depacketizer cap) :
    List (RtpHeader × Int) → Depacketizer cap × List (AuEvent × List UInt8)
  | [] => (d, [])
  | q :: qs =>
    let r := d.receive q
    let rest := r.1.receiveAll qs
    (rest.1, r.2 ++ rest.2)

theorem receiveAll_append (d : Depacketizer cap) (ps qs : List (RtpHeader × Int)) :
    d.receiveAll (ps ++ qs) =
      (((d.receiveAll ps).1.receiveAll qs).1,
        (d.receiveAll ps).2 ++ ((d.receiveAll ps).1.receiveAll qs).2) := by
  induction ps generalizing d with
  | nil => rfl
  | cons q ps ih => simp [receiveAll, ih]

theorem enter_same {d : Depacketizer cap} {ts : UInt32} (hts : d.haveTs = true)
    (hcur : ts = d.curTs) (arrival : Int) : d.enter ts arrival = d.stamp arrival := by
  rw [enter, hts, hcur]
  simp

/-- `d'` differs from `d` in the unit being assembled only. -/
structure Beside (d d' : Depacketizer cap) : Prop where
  cur : d'.cur = d.cur
  bytes : ∀ k, k ≠ d.cur → d'.buf.bytes k = d.buf.bytes k
  emittedLen : d'.emittedLen = d.emittedLen
  packets : d'.packets = d.packets
  lost : d'.lost = d.lost
  pendingGap : d'.pendingGap = d.pendingGap
  curTs : d'.curTs = d.curTs
  lastSeq : d'.lastSeq = d.lastSeq
  firstArrival : d'.firstArrival = d.firstArrival
  lastArrival : d'.lastArrival = d.lastArrival
  haveTs : d'.haveTs = d.haveTs
  haveSeq : d'.haveSeq = d.haveSeq
  accepted : d'.accepted = d.accepted
  lateOrDup : d'.lateOrDup = d.lateOrDup
  seqResets : d'.seqResets = d.seqResets

namespace Beside

variable {d d' d'' : Depacketizer cap}

theorem refl (d : Depacketizer cap) : Beside d d := by
  constructor <;> intros <;> rfl

theorem trans (h : Beside d d') (h' : Beside d' d'') : Beside d d'' where
  cur := h'.cur.trans h.cur
  bytes k hk := (h'.bytes k (h.cur ▸ hk)).trans (h.bytes k hk)
  emittedLen := h'.emittedLen.trans h.emittedLen
  packets := h'.packets.trans h.packets
  lost := h'.lost.trans h.lost
  pendingGap := h'.pendingGap.trans h.pendingGap
  curTs := h'.curTs.trans h.curTs
  lastSeq := h'.lastSeq.trans h.lastSeq
  firstArrival := h'.firstArrival.trans h.firstArrival
  lastArrival := h'.lastArrival.trans h.lastArrival
  haveTs := h'.haveTs.trans h.haveTs
  haveSeq := h'.haveSeq.trans h.haveSeq
  accepted := h'.accepted.trans h.accepted
  lateOrDup := h'.lateOrDup.trans h.lateOrDup
  seqResets := h'.seqResets.trans h.seqResets

/-- The fields a payload may set, all at once. -/
theorem set (d : Depacketizer cap) (len lostFrag fuStart : Nat) (idr damaged fuOpen orphan : Bool) :
    Beside d { d with
      len := len, lostFrag := lostFrag, fuStart := fuStart, idr := idr
      damaged := damaged, fuOpen := fuOpen, orphan := orphan } := by
  constructor <;> intros <;> rfl

theorem append (d : Depacketizer cap) (p : List UInt8) : Beside d (d.append p) := by
  rw [Depacketizer.append]
  split
  · next h => exact ⟨rfl, fun _ hk => AuBuffers.write_ne hk h, rfl, rfl, rfl, rfl, rfl, rfl, rfl,
      rfl, rfl, rfl, rfl, rfl, rfl⟩
  · exact set d _ _ _ _ _ _ _

theorem appendNal (d : Depacketizer cap) (p : List UInt8) : Beside d (d.appendNal p) := by
  have h : Beside d (d.appendStartCode.append p) := (append d startCode).trans (append _ p)
  rw [Depacketizer.appendNal]
  split
  · exact h.trans (set _ _ _ _ _ _ _ _)
  · exact h

theorem closeFu (d : Depacketizer cap) : Beside d d.closeFu := by
  rw [Depacketizer.closeFu]
  split
  · exact set d _ _ _ _ _ _ _
  · exact refl d

theorem stapA (fuel : Nat) (d : Depacketizer cap) (p : List UInt8) :
    Beside d (Depacketizer.stapA fuel d p) := by
  fun_induction Depacketizer.stapA fuel d p with
  | case1 | case2 => exact refl _
  | case3 | case4 => exact set _ _ _ _ _ _ _ _
  | case5 fuel d a b rest sz h ih => exact (appendNal d _).trans ih

theorem startFu (d : Depacketizer cap) (indicator fu : UInt8) :
    Beside d (d.startFu indicator fu) :=
  ((closeFu d).trans (set _ _ _ _ _ _ _ _)).trans
    (((append _ _).trans (append _ _)).trans (set _ _ _ _ _ _ _ _))

theorem continueFu (d : Depacketizer cap) (last : Bool) (fragment : List UInt8) :
    Beside d (d.continueFu last fragment) := by
  rw [Depacketizer.continueFu]
  split
  · exact (append d fragment).trans (set _ _ _ _ _ _ _ _)
  · exact set d _ _ _ _ _ _ _

theorem fuA (d : Depacketizer cap) (indicator fu : UInt8) (fragment : List UInt8) :
    Beside d (d.fuA indicator fu fragment) := by
  rw [Depacketizer.fuA]
  refine Beside.trans ?_ (continueFu _ _ _)
  split
  · exact refl d
  · exact startFu d indicator fu

theorem payload (d : Depacketizer cap) (p : List UInt8) : Beside d (d.payload p) := by
  cases p with
  | nil => exact refl d
  | cons b rest =>
    simp only [Depacketizer.payload]
    split
    · exact (appendNal d _).trans (set _ _ _ _ _ _ _ _)
    · split
      · exact (set d _ _ _ _ _ _ _).trans (stapA _ _ _)
      · split
        · cases rest with
          | nil => exact set d _ _ _ _ _ _ _
          | cons fu fragment => exact fuA d b fu fragment
        · exact set d _ _ _ _ _ _ _

end Beside

end Depacketizer

end P5G
