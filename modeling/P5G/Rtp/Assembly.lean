import P5G.Rtp.Packetization

/-!
# The assembly of one access unit

An `Assembly` is what the depacketizer knows of the access unit it is
building, without buffers, capacities or payload formats: the bytes of its
finished NAL units, the bytes of the FU-A unit that is open, and the counts.
The depacketizer's state holds one, and each piece it takes moves the two
together as long as the buffer has room.
-/

namespace P5G

structure Assembly where
  whole : List UInt8 := []
  fu : Option (List UInt8) := none
  orphan : Bool := false
  lostFrag : Nat := 0
  idr : Bool := false
  packets : Nat := 0
  lost : Nat := 0
  firstArrival : Int := 0
  lastArrival : Int := 0

namespace Assembly

def bytes (a : Assembly) : List UInt8 := a.whole ++ a.fu.getD []

def append (a : Assembly) (p : List UInt8) : Assembly :=
  match a.fu with
  | none => { a with whole := a.whole ++ p }
  | some o => { a with fu := some (o ++ p) }

def nal (a : Assembly) (n : Nal) : Assembly :=
  { a.append n.annexB with idr := a.idr || n.isIdr }

def closeFu (a : Assembly) : Assembly :=
  match a.fu with
  | none => a
  | some _ => { a with fu := none, lostFrag := a.lostFrag + 1 }

def startFu (a : Assembly) (n : Nal) : Assembly :=
  { a.closeFu with fu := some (startCode ++ [n.hdr]), orphan := false, idr := a.idr || n.isIdr }

def continueFu (a : Assembly) (last : Bool) (fragment : List UInt8) : Assembly :=
  match a.fu with
  | some o =>
    if last then { a with whole := a.whole ++ (o ++ fragment), fu := none }
    else { a with fu := some (o ++ fragment) }
  | none =>
    { a with orphan := !last, lostFrag := if a.orphan then a.lostFrag else a.lostFrag + 1 }

def piece (a : Assembly) : Piece → Assembly
  | .single n => { a.nal n with orphan := false }
  | .stapA g => g.nals.foldl nal { a with orphan := false }
  | .fuA n start last fragment =>
    (if start then a.startFu n else a).continueFu last fragment

def stamp (a : Assembly) (arrival : Int) : Assembly :=
  { a with
    firstArrival := if a.packets = 0 then arrival else a.firstArrival
    lastArrival := arrival }

def miss (a : Assembly) (g : Nat) : Assembly :=
  if g = 0 then a
  else
    match a.fu with
    | none => { a with lost := a.lost + g }
    | some _ => { { a with lost := a.lost + g }.closeFu with orphan := true }

def arrive (a : Assembly) (g : Nat) (arrival : Int) : Assembly :=
  let a := (a.stamp arrival).miss g
  { a with packets := a.packets + 1 }

def take (a : Assembly) (g : Nat) (arrival : Int) (p : Piece) : Assembly :=
  (a.arrive g arrival).piece p

theorem append_none {a : Assembly} (h : a.fu = none) (p : List UInt8) :
    a.append p = { a with whole := a.whole ++ p } := by
  rw [append, h]

theorem append_some {a : Assembly} {o : List UInt8} (h : a.fu = some o) (p : List UInt8) :
    a.append p = { a with fu := some (o ++ p) } := by
  rw [append, h]

theorem closeFu_none {a : Assembly} (h : a.fu = none) : a.closeFu = a := by
  rw [closeFu, h]

theorem closeFu_some {a : Assembly} {o : List UInt8} (h : a.fu = some o) :
    a.closeFu = { a with fu := none, lostFrag := a.lostFrag + 1 } := by
  rw [closeFu, h]

theorem continueFu_none {a : Assembly} (h : a.fu = none) (last : Bool) (fragment : List UInt8) :
    a.continueFu last fragment =
      { a with
        orphan := !last, lostFrag := if a.orphan then a.lostFrag else a.lostFrag + 1 } := by
  rw [continueFu, h]

theorem continueFu_some {a : Assembly} {o : List UInt8} (h : a.fu = some o) (last : Bool)
    (fragment : List UInt8) :
    a.continueFu last fragment =
      if last then { a with whole := a.whole ++ (o ++ fragment), fu := none }
      else { a with fu := some (o ++ fragment) } := by
  rw [continueFu, h]

theorem miss_zero (a : Assembly) : a.miss 0 = a := if_pos rfl

theorem miss_none {a : Assembly} (h : a.fu = none) (g : Nat) :
    a.miss g = { a with lost := a.lost + g } := by
  rw [miss]
  split
  · next hg => rw [hg]; rfl
  · rw [h]

theorem miss_some {a : Assembly} {o : List UInt8} (h : a.fu = some o) {g : Nat} (hg : g ≠ 0) :
    a.miss g =
      { a with lost := a.lost + g, fu := none, lostFrag := a.lostFrag + 1, orphan := true } := by
  rw [miss, h, if_neg hg]
  rfl

theorem closeFu_idr (a : Assembly) : a.closeFu.idr = a.idr := by
  rw [closeFu]
  split <;> rfl

theorem closeFu_fu (a : Assembly) : a.closeFu.fu = none := by
  rw [closeFu]
  split
  · assumption
  · rfl

theorem append_append (a : Assembly) (p q : List UInt8) :
    (a.append p).append q = a.append (p ++ q) := by
  obtain ⟨whole, fu, -⟩ := a
  cases fu <;> simp [append]

theorem append_bytes (a : Assembly) (p : List UInt8) : (a.append p).bytes = a.bytes ++ p := by
  obtain ⟨whole, fu, -⟩ := a
  cases fu <;> simp [append, bytes]

theorem append_idr (a : Assembly) (p : List UInt8) : (a.append p).idr = a.idr := by
  rw [append]
  split <;> rfl

theorem append_length (a : Assembly) (p : List UInt8) :
    (a.append p).bytes.length = a.bytes.length + p.length := by
  rw [append_bytes, List.length_append]

theorem nal_length (a : Assembly) (n : Nal) :
    (a.nal n).bytes.length = a.bytes.length + n.annexB.length :=
  a.append_length n.annexB

theorem closeFu_length (a : Assembly) : a.closeFu.bytes.length ≤ a.bytes.length := by
  rw [closeFu]
  split
  · exact Nat.le_refl _
  · simp [bytes]

theorem continueFu_length (a : Assembly) (last : Bool) (fragment : List UInt8) :
    (a.continueFu last fragment).bytes.length ≤ a.bytes.length + fragment.length := by
  rw [continueFu]
  split
  · next o h => cases last <;> simp [bytes, h, Nat.add_assoc]
  · next h => simp [bytes, h]

theorem startFu_length (a : Assembly) (n : Nal) :
    (a.startFu n).bytes.length ≤ a.bytes.length + 5 := by
  have h : a.closeFu.whole.length ≤ a.bytes.length := by
    refine Nat.le_trans ?_ a.closeFu_length
    simp [bytes]
  simp only [startFu, bytes, startCode, Option.getD_some, List.length_append, List.length_cons,
    List.length_nil] at h ⊢
  omega

theorem nals_length (ns : List Nal) (a : Assembly) :
    (ns.foldl nal a).bytes.length = a.bytes.length + (annexB ns).length := by
  induction ns generalizing a with
  | nil => rfl
  | cons n ns ih =>
    rw [List.foldl_cons, ih, nal_length, annexB_cons, List.length_append, Nat.add_assoc]

theorem piece_length (a : Assembly) (p : Piece) :
    (a.piece p).bytes.length ≤ a.bytes.length + p.size := by
  cases p with
  | single n => exact Nat.le_of_eq (a.nal_length n)
  | stapA g => exact Nat.le_of_eq (nals_length g.nals { a with orphan := false })
  | fuA n start last fragment =>
    refine Nat.le_trans (continueFu_length _ last fragment) ?_
    cases start with
    | false => simp [Piece.size]
    | true =>
      have h := a.startFu_length n
      simp only [Piece.size, ↓reduceIte]
      omega

theorem miss_length (a : Assembly) (g : Nat) : (a.miss g).bytes.length ≤ a.bytes.length := by
  rw [miss]
  split
  · exact Nat.le_refl _
  · split
    · exact Nat.le_refl _
    · exact closeFu_length { a with lost := a.lost + g }

theorem take_length (a : Assembly) (g : Nat) (arrival : Int) (p : Piece) :
    (a.take g arrival p).bytes.length ≤ a.bytes.length + p.size :=
  Nat.le_trans (piece_length _ p)
    (Nat.add_le_add_right (miss_length (a.stamp arrival) g) p.size)

end Assembly

/-! ## The depacketizer holds an assembly -/

namespace Depacketizer

variable {cap : Nat}

structure Holds (d : Depacketizer cap) (a : Assembly) : Prop where
  bytes : (d.buf.bytes d.cur).take d.len = a.bytes
  len : d.len = a.bytes.length
  fuOpen : d.fuOpen = a.fu.isSome
  fuStart : a.fu.isSome = true → d.fuStart = a.whole.length
  orphan : d.orphan = a.orphan
  lostFrag : d.lostFrag = a.lostFrag
  idr : d.idr = a.idr
  packets : d.packets = a.packets
  lost : d.lost = a.lost
  firstArrival : d.firstArrival = a.firstArrival
  lastArrival : d.lastArrival = a.lastArrival
  damaged : d.damaged = false

namespace Holds

variable {d : Depacketizer cap} {a : Assembly}

theorem reset (d : Depacketizer cap) (ts : UInt32) :
    Holds (d.reset ts) { firstArrival := d.firstArrival, lastArrival := d.lastArrival } := by
  constructor <;> intros <;> first | rfl | contradiction

theorem setOrphan (h : Holds d a) (b : Bool) :
    Holds { d with orphan := b } { a with orphan := b } :=
  { h with orphan := rfl }

theorem append (h : Holds d a) {p : List UInt8} (hroom : d.len + p.length ≤ cap) :
    Holds (d.append p) (a.append p) := by
  have hbytes := a.append_bytes p
  have htake : ((d.buf.write d.cur d.len p hroom).bytes d.cur).take (d.len + p.length) =
      (a.append p).bytes := by
    rw [AuBuffers.write_take, h.bytes, hbytes]
  have hlen : d.len + p.length = (a.append p).bytes.length := by
    rw [hbytes, List.length_append, ← h.len]
  rw [Depacketizer.append, dif_pos hroom]
  cases hfu : a.fu with
  | none =>
    rw [Assembly.append_none hfu] at htake hlen ⊢
    exact { h with bytes := htake, len := hlen, fuStart := fun ho => by simp [hfu] at ho }
  | some o =>
    rw [Assembly.append_some hfu] at htake hlen ⊢
    exact { h with
      bytes := htake
      len := hlen
      fuOpen := by rw [h.fuOpen, hfu]; rfl
      fuStart := fun _ => h.fuStart (by rw [hfu]; rfl) }

theorem append_append (h : Holds d a) {p q : List UInt8}
    (hroom : d.len + (p ++ q).length ≤ cap) :
    Holds ((d.append p).append q) (a.append (p ++ q)) := by
  rw [List.length_append] at hroom
  have hp : Holds (d.append p) (a.append p) := h.append (by omega)
  rw [← Assembly.append_append]
  refine hp.append ?_
  rw [hp.len, Assembly.append_length, ← h.len]
  omega

theorem nal (h : Holds d a) {n : Nal} (hroom : d.len + n.annexB.length ≤ cap) :
    Holds (d.appendNal n.bytes) (a.nal n) := by
  have hnal : Holds (d.appendStartCode.append n.bytes) (a.append n.annexB) :=
    h.append_append hroom
  have hidr : (d.appendStartCode.append n.bytes).idr = a.idr :=
    hnal.idr.trans (a.append_idr n.annexB)
  have hbyte : byte n.bytes 0 = n.hdr := rfl
  rw [Depacketizer.appendNal, hbyte]
  by_cases h5 : nalType n.hdr = 5
  · rw [if_pos h5]
    exact { hnal with idr := by simp [Assembly.nal, Nal.isIdr, h5] }
  · rw [if_neg h5]
    exact { hnal with idr := by simp [Assembly.nal, Nal.isIdr, h5, hidr] }

theorem closeFu (h : Holds d a) : Holds d.closeFu a.closeFu := by
  have hopen := h.fuOpen
  cases hfu : a.fu with
  | none =>
    rw [hfu] at hopen
    rw [Depacketizer.closeFu, hopen, Assembly.closeFu_none hfu]
    exact h
  | some o =>
    have hstart : d.fuStart = a.whole.length := h.fuStart (by rw [hfu]; rfl)
    have hle : d.fuStart ≤ d.len := by
      rw [h.len, hstart, Assembly.bytes, List.length_append]
      omega
    have hcut := congrArg (List.take d.fuStart) h.bytes
    rw [List.take_take, Nat.min_eq_left hle, Assembly.bytes, hstart, List.take_left] at hcut
    rw [hfu] at hopen
    rw [Depacketizer.closeFu, hopen, Assembly.closeFu_some hfu]
    exact { h with
      bytes := by simpa [Assembly.bytes, dropOpenFu, hstart] using hcut
      len := by simpa [Assembly.bytes, dropOpenFu] using hstart
      fuOpen := rfl
      fuStart := fun ho => by cases ho
      lostFrag := congrArg (· + 1) h.lostFrag }

/-- The bytes appended after `fu_start_` was set are those of the open unit. -/
theorem openFu (h : Holds d a) (hfu : a.fu = none) (hstart : d.fuStart = d.len) {p q : List UInt8}
    (hroom : d.len + (p ++ q).length ≤ cap) (idr : Bool) :
    Holds { (d.append p).append q with fuOpen := true, idr := idr }
      { a with fu := some (p ++ q), idr := idr } := by
  have happ := h.append_append hroom
  rw [Assembly.append_none hfu] at happ
  have hbytes : ({ a with whole := a.whole ++ (p ++ q) } : Assembly).bytes =
      ({ a with fu := some (p ++ q), idr := idr } : Assembly).bytes := by
    simp [Assembly.bytes, hfu]
  exact { happ with
    bytes := happ.bytes.trans hbytes
    len := happ.len.trans (congrArg List.length hbytes)
    fuOpen := rfl
    fuStart := fun _ => by
      rw [append_fuStart, append_fuStart, hstart, h.len]
      simp [Assembly.bytes, hfu]
    idr := rfl }

theorem startFu (h : Holds d a) {n : Nal} {fu : UInt8} (htype : fu &&& 0x1f = nalType n.hdr)
    (hhdr : fuIndicator n &&& 0xe0 ||| nalType n.hdr = n.hdr) (hroom : d.len + 5 ≤ cap) :
    Holds (d.startFu (fuIndicator n) fu) (a.startFu n) := by
  have hclose := h.closeFu
  have hle : d.closeFu.len ≤ d.len := by
    rw [hclose.len, h.len]
    exact a.closeFu_length
  have hclosed : Holds { d.closeFu with fuStart := d.closeFu.len, orphan := false }
      { a.closeFu with orphan := false } :=
    { hclose with
      fuStart := fun ho => by simp [a.closeFu_fu] at ho
      orphan := rfl }
  have hroom' : d.closeFu.len + (startCode ++ [n.hdr]).length ≤ cap := Nat.le_trans
    (Nat.add_le_add_right hle 5) hroom
  have hidr := (hclosed.append_append hroom').idr
  rw [Assembly.append_idr] at hidr
  have hfu := hclosed.openFu a.closeFu_fu rfl hroom' (a.idr || n.isIdr)
  rw [Depacketizer.startFu, htype, hhdr]
  simp only [appendStartCode, hidr, a.closeFu_idr]
  exact hfu

theorem continueFu (h : Holds d a) {last : Bool} {fragment : List UInt8}
    (hroom : d.len + fragment.length ≤ cap) :
    Holds (d.continueFu last fragment) (a.continueFu last fragment) := by
  cases hfu : a.fu with
  | none =>
    have hopen : ¬d.fuOpen = true := by simp [h.fuOpen, hfu]
    rw [Depacketizer.continueFu, if_neg hopen, Assembly.continueFu_none hfu]
    exact { h with
      orphan := rfl
      lostFrag := by simp only [h.orphan, h.lostFrag] }
  | some o =>
    have happ := h.append hroom
    rw [Assembly.append_some hfu] at happ
    have hopen : d.fuOpen = true := by simp [h.fuOpen, hfu]
    rw [Depacketizer.continueFu, if_pos hopen, Assembly.continueFu_some hfu]
    cases last with
    | false => exact { happ with fuOpen := rfl }
    | true =>
      have hbytes : ({ a with fu := some (o ++ fragment) } : Assembly).bytes =
          ({ a with whole := a.whole ++ (o ++ fragment), fu := none } : Assembly).bytes := by
        simp [Assembly.bytes]
      exact { happ with
        bytes := happ.bytes.trans hbytes
        len := happ.len.trans (congrArg List.length hbytes)
        fuOpen := rfl
        fuStart := fun ho => by cases ho }

theorem stapA (ns : List Nal) (hsizes : ∀ n ∈ ns, n.bytes.length < 2 ^ 16) {fuel : Nat}
    (hfuel : (ns.flatMap stapUnit).length ≤ fuel) (h : Holds d a)
    (hroom : d.len + (annexB ns).length ≤ cap) :
    Holds (Depacketizer.stapA fuel d (ns.flatMap stapUnit)) (ns.foldl Assembly.nal a) := by
  induction ns generalizing d a fuel with
  | nil =>
    cases fuel with
    | zero => exact h
    | succ fuel => exact h
  | cons n ns ih =>
    have hunit : (n :: ns).flatMap stapUnit = UInt8.ofNat (n.bytes.length / 256) ::
        UInt8.ofNat n.bytes.length :: (n.bytes ++ ns.flatMap stapUnit) := rfl
    rw [annexB_cons, List.length_append] at hroom
    rw [hunit] at hfuel ⊢
    cases fuel with
    | zero => simp at hfuel
    | succ fuel =>
      have hpos : n.bytes.length ≠ 0 := by simp [Nal.bytes]
      have hnal : Holds (d.appendNal n.bytes) (a.nal n) := h.nal (by omega)
      rw [Depacketizer.stapA]
      simp only [be16_size (hsizes n List.mem_cons_self), hpos, List.length_append, false_or,
        Nat.not_lt.mpr (Nat.le_add_right _ _), ↓reduceIte, List.take_left, List.drop_left]
      refine ih (fun m hm => hsizes m (List.mem_cons_of_mem n hm)) ?_ hnal ?_
      · simp only [List.length_cons, List.length_append] at hfuel
        omega
      · rw [hnal.len, Assembly.nal_length, ← h.len]
        omega

theorem fuA (h : Holds d a) {n : Nal} {start last : Bool} {fragment : List UInt8}
    (hroom : d.len + (Piece.fuA n start last fragment).size ≤ cap) :
    Holds (d.fuA (fuIndicator n) (fuHeader n start last) fragment)
      (a.piece (.fuA n start last fragment)) := by
  rw [Depacketizer.fuA, fuHeader_last, Assembly.piece]
  cases start with
  | false =>
    rw [if_pos ((fuHeader_start n false last).mpr rfl)]
    exact h.continueFu (by simpa [Piece.size] using hroom)
  | true =>
    have hsize : d.len + 5 + fragment.length ≤ cap := by
      simpa [Piece.size, Nat.add_assoc] using hroom
    have hs := h.startFu (fuHeader_type n true last) (fuIndicator_hdr n) (by omega)
    rw [if_neg (by simp [fuHeader_start])]
    refine hs.continueFu ?_
    have hle := a.startFu_length n
    rw [hs.len]
    rw [← h.len] at hle
    omega

/-- One payload, given room for what it carries. -/
theorem piece (h : Holds d a) (p : Piece) (hroom : d.len + p.size ≤ cap) :
    Holds (d.payload p.payload) (a.piece p) := by
  cases p with
  | single n =>
    simp only [Piece.payload, Nal.bytes, Depacketizer.payload, n.type_pos, n.type_le, and_self,
      ↓reduceIte]
    exact (h.nal hroom).setOrphan false
  | stapA g =>
    have hdec : ¬(1 ≤ (24 : UInt8) ∧ (24 : UInt8) ≤ 23) := by decide
    simp only [Piece.payload, Depacketizer.payload, g.stapA, hdec, ↓reduceIte]
    exact stapA g.nals g.sizes (Nat.le_refl _) (h.setOrphan false) hroom
  | fuA n start last fragment =>
    have hdec : ¬(1 ≤ (28 : UInt8) ∧ (28 : UInt8) ≤ 23) := by decide
    have hne : (28 : UInt8) ≠ 24 := by decide
    simp only [Piece.payload, Depacketizer.payload, nalType_fuIndicator, hdec, hne, ↓reduceIte]
    exact h.fuA hroom

theorem countGap (h : Holds d a) : Holds d.countGap (a.miss d.pendingGap) := by
  have htail : Holds d.lostTail { a with lost := a.lost + d.pendingGap } :=
    { h with lost := by simp only [lostTail, h.lost] }
  rw [Depacketizer.countGap]
  split
  · next hg =>
    rw [hg, Assembly.miss_zero]
    exact h
  · next hg =>
    cases hfu : a.fu with
    | none =>
      rw [if_neg (by simp [h.fuOpen, hfu]), Assembly.miss_none hfu]
      exact htail
    | some o =>
      rw [if_pos (by simp [h.fuOpen, hfu]), Assembly.miss_some hfu hg]
      have hs : ({ a with lost := a.lost + d.pendingGap } : Assembly).fu = some o := hfu
      have hclose := htail.closeFu.setOrphan true
      rw [Assembly.closeFu_some hs] at hclose
      exact hclose

theorem take (h : Holds d a) {q : RtpHeader} {p : Piece} (hq : q.payload = p.payload)
    (hts : d.haveTs = true) (hcur : q.ts = d.curTs) (arrival : Int)
    (hroom : d.len + p.size ≤ cap) :
    Holds (d.take q arrival) (a.take d.pendingGap arrival p) := by
  have hstamp : Holds (d.stamp arrival) (a.stamp arrival) :=
    { h with
      firstArrival := by simp only [Depacketizer.stamp, Assembly.stamp, h.packets, h.firstArrival]
      lastArrival := rfl }
  have hgap : Holds (d.stamp arrival).countGap ((a.stamp arrival).miss d.pendingGap) :=
    hstamp.countGap
  rw [Depacketizer.take, enter_same hts hcur, hq, Assembly.take]
  have hcount : Holds
      { (d.stamp arrival).countGap with packets := (d.stamp arrival).countGap.packets + 1 }
      (a.arrive d.pendingGap arrival) :=
    { hgap with packets := congrArg (· + 1) hgap.packets }
  refine hcount.piece p ?_
  have hle := (a.stamp arrival).miss_length d.pendingGap
  show (d.stamp arrival).countGap.len + p.size ≤ cap
  rw [hgap.len]
  have hlen : (a.stamp arrival).bytes.length = d.len := h.len.symm
  omega

end Holds

end Depacketizer

end P5G
