import P5G.Rtp.Depacketizer

/-!
# RFC 6184 packet streams

Access units cut into single NAL unit packets, STAP-A packets and FU-A runs,
the packets of one stream with what the network does to each, and what an
access unit leaves to be reported once some of its packets are lost.
-/

namespace P5G

structure Nal where
  hdr : UInt8
  body : List UInt8
  type_pos : 1 ≤ nalType hdr
  type_le : nalType hdr ≤ 23

def Nal.bytes (n : Nal) : List UInt8 := n.hdr :: n.body

def Nal.annexB (n : Nal) : List UInt8 := startCode ++ n.bytes

def Nal.isIdr (n : Nal) : Bool := nalType n.hdr == 5

def annexB (ns : List Nal) : List UInt8 := ns.flatMap Nal.annexB

theorem annexB_cons (n : Nal) (ns : List Nal) : annexB (n :: ns) = n.annexB ++ annexB ns :=
  List.flatMap_cons

theorem annexB_length (ns : List Nal) :
    (annexB ns).length = (ns.map fun n => 4 + n.bytes.length).sum := by
  induction ns with
  | nil => rfl
  | cons n ns ih =>
    rw [annexB_cons, List.length_append, ih, List.map_cons, List.sum_cons, Nal.annexB,
      List.length_append]
    rfl

theorem annexB_append (ns ms : List Nal) : annexB (ns ++ ms) = annexB ns ++ annexB ms :=
  List.flatMap_append

/-- The NAL units of one STAP-A packet, each short enough for its size field. -/
structure Aggregate where
  indicator : UInt8
  nals : List Nal
  stapA : nalType indicator = 24
  nonempty : nals ≠ []
  sizes : ∀ n ∈ nals, n.bytes.length < 2 ^ 16

structure Fragmented where
  nal : Nal
  first : List UInt8
  middle : List (List UInt8)
  last : List UInt8
  whole : first ++ middle.flatten ++ last = nal.body

inductive Packing
  | single (n : Nal)
  | stapA (a : Aggregate)
  | fuA (f : Fragmented)

def Packing.nals : Packing → List Nal
  | single n => [n]
  | stapA a => a.nals
  | fuA f => [f.nal]

inductive Piece
  | single (n : Nal)
  | stapA (a : Aggregate)
  | fuA (n : Nal) (start last : Bool) (fragment : List UInt8)

def Packing.pieces : Packing → List Piece
  | single n => [.single n]
  | stapA a => [.stapA a]
  | fuA f =>
    .fuA f.nal true false f.first ::
      (f.middle.map (.fuA f.nal false false) ++ [.fuA f.nal false true f.last])

def stapUnit (n : Nal) : List UInt8 :=
  UInt8.ofNat (n.bytes.length / 256) :: UInt8.ofNat n.bytes.length :: n.bytes

def fuIndicator (n : Nal) : UInt8 := n.hdr &&& 0xe0 ||| 28

def fuHeader (n : Nal) (start last : Bool) : UInt8 :=
  (if start then 0x80 else 0) ||| (if last then 0x40 else 0) ||| nalType n.hdr

def Piece.payload : Piece → List UInt8
  | single n => n.bytes
  | stapA a => a.indicator :: a.nals.flatMap stapUnit
  | fuA n start last fragment => fuIndicator n :: fuHeader n start last :: fragment

/-! The depacketizer's reading of these headers, checked on every byte. -/

theorem forall_byte {P : UInt8 → Prop} (h : ∀ i : Fin 256, P (UInt8.ofNat i)) (b : UInt8) :
    P b := by
  have hb := h ⟨b.toNat, b.toNat_lt⟩
  rwa [UInt8.ofNat_toNat] at hb

theorem nalType_fuIndicator (n : Nal) : nalType (fuIndicator n) = 28 := by
  refine forall_byte (P := fun b => nalType (b &&& 0xe0 ||| 28) = 28) ?_ n.hdr
  decide +kernel

theorem fuIndicator_hdr (n : Nal) : fuIndicator n &&& 0xe0 ||| nalType n.hdr = n.hdr := by
  refine forall_byte (P := fun b => (b &&& 0xe0 ||| 28) &&& 0xe0 ||| nalType b = b) ?_ n.hdr
  decide +kernel

theorem fuHeader_type (n : Nal) (start last : Bool) :
    fuHeader n start last &&& 0x1f = nalType n.hdr := by
  refine forall_byte (P := fun b => ∀ s e : Bool,
    ((if s then 0x80 else 0) ||| (if e then 0x40 else 0) ||| nalType b) &&& 0x1f = nalType b)
    ?_ n.hdr start last
  decide +kernel

theorem fuHeader_start (n : Nal) (start last : Bool) :
    fuHeader n start last >>> 7 = 0 ↔ start = false := by
  refine forall_byte (P := fun b => ∀ s e : Bool,
    ((if s then 0x80 else 0) ||| (if e then 0x40 else 0) ||| nalType b) >>> 7 = 0 ↔ s = false)
    ?_ n.hdr start last
  decide +kernel

theorem fuHeader_last (n : Nal) (start last : Bool) :
    (fuHeader n start last >>> 6 &&& 1 != 0) = last := by
  refine forall_byte (P := fun b => ∀ s e : Bool,
    (((if s then 0x80 else 0) ||| (if e then 0x40 else 0) ||| nalType b) >>> 6 &&& 1 != 0) = e)
    ?_ n.hdr start last
  decide +kernel

theorem be16_size {k : Nat} (h : k < 2 ^ 16) :
    (be16 (UInt8.ofNat (k / 256)) (UInt8.ofNat k)).toNat = k := by
  rw [be16_toNat, UInt8.toNat_ofNat', UInt8.toNat_ofNat']
  omega

def Piece.startsIdr : Piece → Bool
  | single n => n.isIdr
  | stapA a => a.nals.any Nal.isIdr
  | fuA n start _ _ => start && n.isIdr

def Piece.size : Piece → Nat
  | single n => n.annexB.length
  | stapA a => (annexB a.nals).length
  | fuA _ start _ fragment => (if start then 5 else 0) + fragment.length

/-- Whole packets and fragments add up to the Annex B form. -/
theorem Packing.size_pieces (k : Packing) :
    (k.pieces.map Piece.size).sum = (annexB k.nals).length := by
  cases k with
  | single n => simp [pieces, nals, Piece.size, annexB]
  | stapA a => simp [pieces, nals, Piece.size]
  | fuA f =>
    have hmiddle : (f.middle.map (Piece.size ∘ .fuA f.nal false false)).sum =
        f.middle.flatten.length := by
      simp [Function.comp_def, Piece.size, List.length_flatten]
    have hbody := congrArg List.length f.whole
    simp only [List.length_append] at hbody
    simp only [pieces, nals, List.map_cons, List.map_append, List.map_map, List.sum_cons,
      List.sum_append, hmiddle, annexB, List.flatMap_cons, List.flatMap_nil,
      Nal.annexB, Nal.bytes, startCode, Piece.size, List.length_append, List.length_cons,
      List.length_nil, List.map_nil, List.sum_nil, ↓reduceIte, Bool.false_eq_true]
    omega

/-- A packet that arrives, and what arrives after it before the next one that
is not behind it. -/
structure Received where
  arrival : Int
  stale : List (RtpHeader × Int)

structure Sent where
  piece : Piece
  header : RtpHeader
  fate : Option Received
  carries : header.payload = piece.payload
  behind : ∀ r ∈ fate, ∀ q ∈ r.stale, ∃ k ≤ 100, q.1.seq = header.seq - UInt16.ofNat k

namespace Sent

def lost (p : Sent) : Bool := p.fate.isNone

def arrivals (p : Sent) : List (RtpHeader × Int) :=
  match p.fate with
  | none => []
  | some r => (p.header, r.arrival) :: r.stale

def staleCount (p : Sent) : Nat :=
  match p.fate with
  | none => 0
  | some r => r.stale.length

theorem lost_none {p : Sent} (h : p.fate = none) : p.lost = true := by rw [lost, h]; rfl

theorem lost_some {p : Sent} {r : Received} (h : p.fate = some r) : p.lost = false := by
  rw [lost, h]
  rfl

theorem arrivals_none {p : Sent} (h : p.fate = none) : p.arrivals = [] := by rw [arrivals, h]

theorem staleCount_none {p : Sent} (h : p.fate = none) : p.staleCount = 0 := by
  rw [staleCount, h]

end Sent

def Marked : List Sent → Prop
  | [] => True
  | p :: ps => (p.header.marker = 0 ↔ ps ≠ []) ∧ Marked ps

def Marked.decide : (ps : List Sent) → Decidable (Marked ps)
  | [] => .isTrue trivial
  | p :: ps =>
    have := Marked.decide ps
    inferInstanceAs (Decidable ((p.header.marker = 0 ↔ ps ≠ []) ∧ Marked ps))

instance : DecidablePred Marked := Marked.decide

def Consecutive : UInt16 → List Sent → Prop
  | _, [] => True
  | seq, p :: ps => p.header.seq = seq ∧ Consecutive (seq + 1) ps

def Consecutive.decide : (seq : UInt16) → (ps : List Sent) → Decidable (Consecutive seq ps)
  | _, [] => .isTrue trivial
  | seq, p :: ps =>
    have := Consecutive.decide (seq + 1) ps
    inferInstanceAs (Decidable (p.header.seq = seq ∧ Consecutive (seq + 1) ps))

instance (seq : UInt16) : DecidablePred (Consecutive seq) := Consecutive.decide seq

structure SentUnit where
  packing : Packing
  packets : List Sent
  cut : packets.map Sent.piece = packing.pieces

structure SentAu where
  ts : UInt32
  units : List SentUnit
  nonempty : units ≠ []
  stamped : ∀ p ∈ units.flatMap SentUnit.packets, p.header.ts = ts
  marked : Marked (units.flatMap SentUnit.packets)

def SentAu.packets (au : SentAu) : List Sent := au.units.flatMap SentUnit.packets

def SentAu.nals (au : SentAu) : List Nal := au.units.flatMap fun u => u.packing.nals

structure SentStream where
  aus : List SentAu
  seq : UInt16
  consecutive : Consecutive seq (aus.flatMap SentAu.packets)
  stamps : aus.IsChain fun a b => a.ts ≠ b.ts

/-- What the pieces add up to is the Annex B form of the access unit. -/
theorem SentAu.size_packets (au : SentAu) :
    (au.packets.map fun p => p.piece.size).sum =
      (au.nals.map fun n => 4 + n.bytes.length).sum := by
  rw [← annexB_length, packets, nals]
  induction au.units with
  | nil => rfl
  | cons u us ih =>
    have hu : (u.packets.map fun p => p.piece.size) = u.packing.pieces.map Piece.size := by
      rw [← u.cut, List.map_map]
      rfl
    rw [List.flatMap_cons, List.flatMap_cons, List.map_append, List.sum_append, ih, annexB_append,
      List.length_append, hu, Packing.size_pieces]

def SentStream.packets (s : SentStream) : List Sent := s.aus.flatMap SentAu.packets

/-- What the receiver reads, in order of arrival. -/
def SentStream.arrivals (s : SentStream) : List (RtpHeader × Int) :=
  s.packets.flatMap Sent.arrivals

def SentAu.firstLost (au : SentAu) : Bool := au.packets.head?.any Sent.lost

def SentAu.lastLost (au : SentAu) : Bool := au.packets.getLast?.any Sent.lost

/-- The first packet of the stream is received, and every run of lost packets
stays inside one access unit, short of the whole of it and of `maxDropout`. -/
structure ShortLosses (aus : List SentAu) : Prop where
  first : ∀ au ∈ aus.head?, au.firstLost = false
  inside : aus.IsChain fun a b => ¬(a.lastLost = true ∧ b.firstLost = true)
  survives : ∀ au ∈ aus, ∃ p ∈ au.packets, p.lost = false
  short : ∀ au ∈ aus, ∀ run, run <:+: au.packets → (∀ p ∈ run, p.lost = true) →
    run.length ≤ 2999

namespace SentUnit

def whole (u : SentUnit) : Bool := u.packets.all fun p => !p.lost

def broken (u : SentUnit) : Bool := (u.packets.any fun p => !p.lost) && u.packets.any Sent.lost

end SentUnit

namespace SentAu

def delivered (au : SentAu) : List Nal :=
  (au.units.filter SentUnit.whole).flatMap fun u => u.packing.nals

def arrived (au : SentAu) : List Received := au.packets.filterMap Sent.fate

/-- An access unit is over when its marker or the next access unit arrives. -/
def ended : List SentAu → List SentAu
  | [] => []
  | [au] => if au.lastLost then [] else [au]
  | au :: rest => au :: ended rest

end SentAu

/-- The event and the bytes that an access unit with these losses is owed. -/
structure Reports (au : SentAu) (x : AuEvent × List UInt8) : Prop where
  data : x.2 = annexB au.delivered
  bytes : x.1.bytes = x.2.length
  rtpTs : x.1.rtpTs = au.ts
  complete : x.1.complete = true ↔ ∀ p ∈ au.packets, p.lost = false
  packets : x.1.packets = au.arrived.length
  lostPackets : x.1.lostPackets = au.packets.countP Sent.lost
  lostFragments_le : x.1.lostFragments ≤ au.units.countP SentUnit.broken
  lostFragments_pos : 0 < x.1.lostFragments ↔ ∃ u ∈ au.units, u.broken = true
  isIdr : x.1.isIdr = true ↔ ∃ p ∈ au.packets, p.lost = false ∧ p.piece.startsIdr = true
  damaged : x.1.damaged = false
  firstArrival : au.arrived.head?.map Received.arrival = some x.1.firstArrivalNs
  lastArrival : au.arrived.getLast?.map Received.arrival = some x.1.lastArrivalNs

end P5G
