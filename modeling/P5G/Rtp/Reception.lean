import P5G.Rtp.Losses

/-!
# Packets in sequence

What `Push` does with the next packet of a stream, with a stale one, and with
one that ends the access unit before it.
-/

namespace P5G

namespace Depacketizer

variable {cap : Nat}

theorem toInt16_toInt (u : UInt16) :
    u.toInt16.toInt = if 2 * u.toNat < 65536 then (u.toNat : Int) else u.toNat - 65536 :=
  BitVec.toInt_eq_toNat_cond u.toBitVec

/-- The step to a packet that comes after a gap. -/
theorem toInt16_ahead {l seq : UInt16} {g : Nat} (h : l + 1 + UInt16.ofNat g = seq)
    (hg : g ≤ 2999) : (seq - l).toInt16.toInt = g + 1 := by
  have hsub : (seq - l).toNat = g + 1 := by
    have hlt := l.toNat_lt
    rw [← h, UInt16.toNat_sub, UInt16.toNat_add, UInt16.toNat_add, UInt16.toNat_ofNat',
      UInt16.toNat_one]
    omega
  rw [toInt16_toInt, hsub]
  split <;> omega

/-- The step back to a stale packet. -/
theorem toInt16_behind (l : UInt16) {k : Nat} (hk : k ≤ 100) :
    (l - UInt16.ofNat k - l).toInt16.toInt = -k := by
  have hsub : (l - UInt16.ofNat k - l).toNat = (65536 - k) % 65536 := by
    have hlt := l.toNat_lt
    rw [UInt16.toNat_sub, UInt16.toNat_sub, UInt16.toNat_ofNat']
    omega
  rw [toInt16_toInt, hsub]
  split <;> omega

theorem seqStep_ahead {d : Depacketizer cap} {seq : UInt16} {g : Nat}
    (h : d.lastSeq + 1 + UInt16.ofNat g = seq) (hg : g ≤ 2999) : d.seqStep seq = g + 1 :=
  toInt16_ahead h hg

theorem seqStep_behind {d : Depacketizer cap} {k : Nat} (hk : k ≤ 100) :
    d.seqStep (d.lastSeq - UInt16.ofNat k) = -k :=
  toInt16_behind d.lastSeq hk

/-- `d` has accepted every packet before `next` but the last `g`, and has
dropped `stale` packets. -/
structure InSequence (d : Depacketizer cap) (next : UInt16) (g stale : Nat) : Prop where
  haveSeq : d.haveSeq = true
  next : d.lastSeq + 1 + UInt16.ofNat g = next
  lateOrDup : d.lateOrDup = stale
  seqResets : d.seqResets = 0

namespace InSequence

variable {d : Depacketizer cap} {next : UInt16} {g stale : Nat}

theorem lost (h : InSequence d next g stale) : InSequence d (next + 1) (g + 1) stale where
  haveSeq := h.haveSeq
  next := by
    rw [← h.next, UInt16.ofNat_add, ← UInt16.add_assoc]
    rfl
  lateOrDup := h.lateOrDup
  seqResets := h.seqResets

theorem not_late (h : InSequence d next g stale) (hg : g ≤ 2999) : d.late next = false := by
  have hstep := seqStep_ahead h.next hg
  rw [late, hstep, decide_eq_false (show ¬((g : Int) + 1 ≤ 0) by omega), Bool.and_false,
    Bool.false_and]

theorem advance (h : InSequence d next g stale) (hg : g ≤ 2999) :
    d.advance next = ({ d with pendingGap := g }, none) := by
  have hstep := seqStep_ahead h.next hg
  have hin : 0 < d.seqStep next ∧ d.seqStep next ≤ maxDropout := by
    rw [hstep, maxDropout]
    omega
  have hgap : (d.seqStep next - 1).toNat = g := by
    rw [hstep]
    omega
  rw [Depacketizer.advance, h.haveSeq, if_neg (by decide), if_pos hin, hgap]

end InSequence

/-- The event and the bytes of an assembly that ends with `g` packets missing
at its end. -/
structure Owed (ts : UInt32) (byMarker : Bool) (a : Assembly) (g : Nat)
    (x : AuEvent × List UInt8) : Prop where
  data : x.2 = a.whole
  bytes : x.1.bytes = a.whole.length
  complete : x.1.complete =
    (byMarker && a.lost + g == 0 && a.partials == 0 && decide (0 < a.whole.length))
  rtpTs : x.1.rtpTs = ts
  packets : x.1.packets = a.packets
  lostPackets : x.1.lostPackets = a.lost + g
  lostFragments : x.1.lostFragments = a.partials
  isIdr : x.1.isIdr = a.idr
  damaged : x.1.damaged = false
  firstArrival : x.1.firstArrivalNs = a.firstArrival
  lastArrival : x.1.lastArrivalNs = a.lastArrival

theorem rotate_data (d : Depacketizer cap) :
    d.rotate.data d.cur = (d.buf.bytes d.cur).take d.len := by
  simp [data, rotate]

theorem rotate_data_ne {d : Depacketizer cap} {k : Fin 3} (hk : k ≠ d.cur) :
    d.rotate.data k = d.data k := by
  simp [data, rotate, hk]

theorem Beside.data {d d' : Depacketizer cap} (h : Beside d d') {k : Fin 3} (hk : k ≠ d.cur) :
    d'.data k = d.data k := by
  rw [Depacketizer.data, Depacketizer.data, h.bytes k hk, h.emittedLen]

theorem Holds.emit {d : Depacketizer cap} {a : Assembly} (h : Holds d a) (hp : a.packets ≠ 0)
    (byMarker : Bool) :
    d.emit byMarker = (d.closeFu.rotate, some (d.closeFu.event byMarker)) ∧
      Owed d.curTs byMarker a 0 (d.closeFu.event byMarker, d.closeFu.rotate.data d.cur) := by
  have hclose := h.closeFu
  have hbeside := Beside.closeFu d
  have hcounts := a.closeFu_counts
  simp only [Assembly.counts, Prod.mk.injEq] at hcounts
  obtain ⟨hpackets, hlost, hfirst, hlast⟩ := hcounts
  have hlen : d.closeFu.len = a.whole.length := by rw [hclose.len, a.closeFu_bytes]
  refine ⟨?_, ?_⟩
  · rw [Depacketizer.emit]
    exact if_neg fun hn => hp (hpackets ▸ hclose.packets ▸ hn.2.1)
  · have hdata : d.closeFu.rotate.data d.cur = a.whole := by
      rw [← hbeside.cur, rotate_data, hclose.bytes, a.closeFu_bytes]
    exact {
      data := hdata
      bytes := hlen
      complete := by
        simp only [event, hclose.lost, hlost, hclose.lostFrag, a.closeFu_lostFrag, hclose.damaged,
          hlen, Bool.not_false, Bool.and_true, Nat.add_zero]
      rtpTs := hbeside.curTs
      packets := hclose.packets.trans hpackets
      lostPackets := hclose.lost.trans hlost
      lostFragments := hclose.lostFrag.trans a.closeFu_lostFrag
      isIdr := hclose.idr.trans a.closeFu_idr
      damaged := hclose.damaged
      firstArrival := hclose.firstArrival.trans hfirst
      lastArrival := hclose.lastArrival.trans hlast }

structure Inside (d : Depacketizer cap) (ts : UInt32) (next : UInt16) (a : Assembly)
    (g stale : Nat) : Prop where
  seq : InSequence d next g stale
  haveTs : d.haveTs = true
  curTs : d.curTs = ts
  holds : Holds d a

structure Outside (d : Depacketizer cap) (next : UInt16) (g stale : Nat) : Prop where
  seq : InSequence d next g stale
  haveTs : d.haveTs = false

theorem countGap_beside (d : Depacketizer cap) : Beside d.lostTail d.countGap := by
  rw [countGap]
  split
  · next hg => exact { Beside.refl d with lost := by simp [lostTail, hg], pendingGap := hg }
  · split
    · exact (Beside.closeFu _).trans (Beside.set _ _ _ _ _ _ _ _)
    · exact Beside.refl _

theorem take_beside {d : Depacketizer cap} {q : RtpHeader} (hts : d.haveTs = true)
    (hcur : q.ts = d.curTs) (arrival : Int) :
    Beside { (d.stamp arrival).lostTail with packets := d.packets + 1 } (d.take q arrival) := by
  have hgap := countGap_beside (d.stamp arrival)
  rw [take, enter_same hts hcur]
  refine Beside.trans ?_ (Beside.payload _ _)
  exact { hgap with packets := congrArg (· + 1) hgap.packets }

/-- `d` once `Push` has accepted sequence number `seq` after a gap of `g`. -/
def accept (d : Depacketizer cap) (seq : UInt16) (g : Nat) : Depacketizer cap :=
  { d with accepted := true, pendingGap := g, haveSeq := true, lastSeq := seq }

theorem push_accept {d : Depacketizer cap} {next : UInt16} {g stale : Nat}
    (h : InSequence d next g stale) (hg : g ≤ 2999) {q : RtpHeader} (hseq : q.seq = next)
    (arrival : Int) :
    d.push q arrival =
      let r₂ := (d.accept next g).changeTs q.ts
      let r₃ := (r₂.1.take q arrival).endByMarker q.marker
      (r₃.1, r₂.2.toList ++ r₃.2.toList) := by
  have hseq' : InSequence { d with accepted := true } next g stale :=
    ⟨h.haveSeq, h.next, h.lateOrDup, h.seqResets⟩
  rw [push, hseq, h.not_late hg, hseq'.advance hg, if_neg Bool.false_ne_true]
  rfl

theorem InSequence.accept {d : Depacketizer cap} {next : UInt16} {g stale : Nat}
    (h : InSequence d next g stale) : InSequence (d.accept next g) (next + 1) 0 stale :=
  ⟨rfl, UInt16.add_zero _, h.lateOrDup, h.seqResets⟩

theorem Beside.inSequence {d d' : Depacketizer cap} (hb : Beside d d') {next : UInt16}
    {g stale : Nat} (h : InSequence d next g stale) : InSequence d' next g stale where
  haveSeq := hb.haveSeq.trans h.haveSeq
  next := by rw [hb.lastSeq, h.next]
  lateOrDup := hb.lateOrDup.trans h.lateOrDup
  seqResets := hb.seqResets.trans h.seqResets

/-- The next packet of the access unit that is open. -/
theorem push_inside {d : Depacketizer cap} {ts : UInt32} {next : UInt16} {a : Assembly}
    {g stale : Nat} (h : Inside d ts next a g stale) (hg : g ≤ 2999) {q : RtpHeader} {p : Piece}
    (hseq : q.seq = next) (hts : q.ts = ts) (hq : q.payload = p.payload)
    (hroom : a.bytes.length + p.size ≤ cap) (arrival : Int) :
    ∃ d', d.push q arrival =
        ((d'.endByMarker q.marker).1, (d'.endByMarker q.marker).2.toList) ∧
      Inside d' ts (next + 1) (a.take g arrival p) 0 stale ∧ d'.cur = d.cur ∧
      ∀ k, k ≠ d.cur → d'.data k = d.data k := by
  have hcur : q.ts = (d.accept next g).curTs := hts.trans h.curTs.symm
  have hchange : (d.accept next g).changeTs q.ts = (d.accept next g, none) :=
    if_neg fun hn => hn.2 hcur
  have hholds : Holds (d.accept next g) a := { h.holds with }
  have hbeside := take_beside (d := d.accept next g) h.haveTs hcur arrival
  refine ⟨(d.accept next g).take q arrival, ?_, ⟨?_, ?_, ?_, ?_⟩, hbeside.cur, ?_⟩
  · rw [push_accept h.seq hg hseq, hchange]
    rfl
  · have hstart := h.seq.accept
    exact hbeside.inSequence
      ⟨hstart.haveSeq, hstart.next, hstart.lateOrDup, hstart.seqResets⟩
  · exact hbeside.haveTs.trans h.haveTs
  · exact hbeside.curTs.trans h.curTs
  · refine hholds.take hq h.haveTs hcur arrival ?_
    rw [hholds.len]
    exact hroom
  · exact fun k hk => hbeside.data hk

theorem take_congr {d d' : Depacketizer cap} {q : RtpHeader} {arrival : Int}
    (h : d.enter q.ts arrival = d'.enter q.ts arrival) :
    d.take q arrival = d'.take q arrival := by
  simp only [take, h]

/-- The first packet of an access unit finds an empty one. -/
theorem push_outside {d : Depacketizer cap} {next : UInt16} {g stale : Nat}
    (h : Outside d next g stale) (hg : g ≤ 2999) {q : RtpHeader} (hseq : q.seq = next)
    (arrival : Int) :
    d.push q arrival = (d.reset q.ts).push q arrival ∧
      Inside (d.reset q.ts) q.ts next
        { firstArrival := d.firstArrival, lastArrival := d.lastArrival } g stale := by
  have hreset : InSequence (d.reset q.ts) next g stale := { h.seq with }
  refine ⟨?_, ⟨hreset, rfl, rfl, Holds.reset d q.ts⟩⟩
  have hchange : (d.accept next g).changeTs q.ts = (d.accept next g, none) :=
    if_neg fun hn => by simp [accept, h.haveTs] at hn
  have hchange' : ((d.reset q.ts).accept next g).changeTs q.ts =
      ((d.reset q.ts).accept next g, none) :=
    if_neg fun hn => hn.2 rfl
  have henter : (d.accept next g).enter q.ts arrival =
      ((d.reset q.ts).accept next g).enter q.ts arrival := by
    have hsame : ((d.reset q.ts).accept next g).enter q.ts arrival =
        ((d.reset q.ts).accept next g).stamp arrival := enter_same rfl rfl arrival
    rw [hsame, enter]
    simp [accept, h.haveTs, reset]
  rw [push_accept h.seq hg hseq, push_accept hreset hg hseq, hchange, hchange']
  simp only [take_congr henter]

theorem ne_next : ∀ k : Fin 3, k ≠ k + 1 := by decide

/-- `d` as it stands before packet `next`, with the access unit it had open gone. -/
def reopen (d : Depacketizer cap) (next : UInt16) : Depacketizer cap :=
  { d with haveTs := false, lastSeq := next - 1 }

theorem enter_reopen {d : Depacketizer cap} {next : UInt16} {ts : UInt32}
    (hhave : d.haveSeq = true) (hlast : d.lastSeq = next) (hacc : d.accepted = true)
    (hgap : d.pendingGap = 0) (hts : ts ≠ d.curTs) (arrival : Int) :
    d.enter ts arrival = ((d.reopen next).accept next 0).enter ts arrival := by
  cases d
  simp_all [enter, reopen, accept, reset, stamp]

/-- The first packet of a new access unit ends the one that is open. -/
theorem push_next {d : Depacketizer cap} {ts : UInt32} {next : UInt16} {a : Assembly}
    {g stale : Nat} (h : Inside d ts next a g stale) (hg : g ≤ 2999) (hpackets : a.packets ≠ 0)
    {q : RtpHeader} (hseq : q.seq = next) (hts : q.ts ≠ ts) (arrival : Int) :
    ∃ d' ev, d.push q arrival = ((d'.push q arrival).1, ev :: (d'.push q arrival).2) ∧
      Outside d' next 0 stale ∧ Owed ts false a g (ev, d'.data ev.buffer) ∧
      ev.buffer ≠ d'.cur := by
  have hcur : (d.accept next g).haveTs ∧ q.ts ≠ (d.accept next g).curTs :=
    ⟨h.haveTs, fun hn => hts (hn.trans h.curTs)⟩
  have htail : Holds (d.accept next g).lostTail { a with lost := a.lost + g } :=
    { h.holds with lost := congrArg (· + g) h.holds.lost }
  obtain ⟨hemit, howed⟩ := htail.emit hpackets false
  have hchange : (d.accept next g).changeTs q.ts = _ := (if_pos hcur).trans hemit
  have hbeside := Beside.closeFu (d.accept next g).lostTail
  generalize (d.accept next g).lostTail.closeFu = e at hbeside hemit howed hchange
  have hseq' : InSequence (e.rotate.reopen next) next 0 stale :=
    ⟨hbeside.haveSeq, by simp [reopen], hbeside.lateOrDup.trans h.seq.lateOrDup,
      hbeside.seqResets.trans h.seq.seqResets⟩
  have hchange' : ((e.rotate.reopen next).accept next 0).changeTs q.ts =
      ((e.rotate.reopen next).accept next 0, none) :=
    if_neg fun hn => by simp [accept, reopen] at hn
  have hne : q.ts ≠ e.rotate.curTs := fun hn => hcur.2 (hn.trans hbeside.curTs)
  have henter := enter_reopen (d := e.rotate) hbeside.haveSeq hbeside.lastSeq hbeside.accepted
    hbeside.pendingGap hne arrival
  refine ⟨e.rotate.reopen next, e.event false, ?_, ⟨hseq', rfl⟩, ?_, ?_⟩
  · rw [push_accept h.seq hg hseq, push_accept hseq' (Nat.zero_le _) hseq, hchange, hchange']
    simp only [take_congr henter]
    rfl
  · rw [← hbeside.cur] at howed
    exact { howed with rtpTs := howed.rtpTs.trans h.curTs }
  · exact ne_next e.cur

/-- The marker ends the access unit. -/
theorem endByMarker_inside {d : Depacketizer cap} {ts : UInt32} {next : UInt16} {a : Assembly}
    {g stale : Nat} (h : Inside d ts next a g stale) (hpackets : a.packets ≠ 0) {marker : UInt8}
    (hmarker : marker ≠ 0) :
    ∃ d' ev, d.endByMarker marker = (d', some ev) ∧ Outside d' next g stale ∧
      Owed ts true a 0 (ev, d'.data ev.buffer) ∧
      ∀ k, k ≠ d.cur → d'.data k = d.data k := by
  obtain ⟨hemit, howed⟩ := h.holds.emit hpackets true
  have hbeside := Beside.closeFu d
  rw [endByMarker, if_neg hmarker, hemit]
  generalize d.closeFu = e at hbeside howed
  refine ⟨_, _, rfl, ⟨?_, rfl⟩, ?_, fun k hk => ?_⟩
  · exact { hbeside.inSequence h.seq with }
  · rw [← hbeside.cur] at howed
    exact { howed with rtpTs := howed.rtpTs.trans h.curTs }
  · have hk' : k ≠ e.cur := hbeside.cur ▸ hk
    exact (rotate_data_ne hk').trans (hbeside.data hk)

theorem push_outside_data {d : Depacketizer cap} {next : UInt16} {stale : Nat}
    (h : Outside d next 0 stale) {q : RtpHeader} {p : Piece} (hseq : q.seq = next)
    (hq : q.payload = p.payload) (hroom : p.size ≤ cap) (arrival : Int) {k : Fin 3}
    (hk : k ≠ d.cur) : (d.push q arrival).1.data k = d.data k := by
  obtain ⟨hpush, hin⟩ := push_outside h (Nat.zero_le _) hseq arrival
  obtain ⟨d', hpush', hin', hcur, hdata⟩ := push_inside hin (Nat.zero_le _) hseq rfl hq
    (by simpa [Assembly.bytes] using hroom) arrival
  rw [hpush, hpush']
  have hd' : d'.data k = d.data k := hdata k hk
  by_cases hm : q.marker = 0
  · rw [endByMarker, if_pos hm]
    exact hd'
  · have hpackets : ((({ firstArrival := d.firstArrival, lastArrival := d.lastArrival } :
        Assembly).take 0 arrival p)).packets ≠ 0 := by
      have hc := ({} : Assembly).take_counts 0 arrival p
      simp only [Assembly.counts, Prod.mk.injEq] at hc
      rw [Assembly.take_fresh, hc.1]
      exact Nat.succ_ne_zero _
    obtain ⟨e, ev, hend, -, -, hkeep⟩ := endByMarker_inside hin' hpackets hm
    rw [hend]
    exact (hkeep k (hcur ▸ hk)).trans hd'

/-- The bytes of the ended access unit are read after the packet that ended it
has gone into the next buffer. -/
theorem receive_next {d : Depacketizer cap} {ts : UInt32} {next : UInt16} {a : Assembly}
    {g stale : Nat} (h : Inside d ts next a g stale) (hg : g ≤ 2999) (hpackets : a.packets ≠ 0)
    {q : RtpHeader} {p : Piece} (hseq : q.seq = next) (hts : q.ts ≠ ts)
    (hq : q.payload = p.payload) (hroom : p.size ≤ cap) (arrival : Int) :
    ∃ d' x, d.receive (q, arrival) =
        ((d'.receive (q, arrival)).1, x :: (d'.receive (q, arrival)).2) ∧
      Outside d' next 0 stale ∧ Owed ts false a g x := by
  obtain ⟨d', ev, hpush, hout, howed, hne⟩ := push_next h hg hpackets hseq hts arrival
  refine ⟨d', (ev, d'.data ev.buffer), ?_, hout, howed⟩
  rw [receive, hpush, List.map_cons, push_outside_data hout hseq hq hroom arrival hne]
  rfl

theorem push_stale {d : Depacketizer cap} {seq : UInt16} {stale : Nat}
    (h : InSequence d (seq + 1) 0 stale) {q : RtpHeader} {k : Nat} (hk : k ≤ 100)
    (hq : q.seq = seq - UInt16.ofNat k) (arrival : Int) :
    d.push q arrival = ({ d with accepted := false, lateOrDup := d.lateOrDup + 1 }, []) := by
  have hlast : d.lastSeq = seq := by
    have hn : d.lastSeq + 1 + 0 = seq + 1 := h.next
    rw [UInt16.add_zero] at hn
    exact (UInt16.add_left_inj 1).mp hn
  have hstep : d.seqStep q.seq = -k := by
    rw [hq, ← hlast]
    exact seqStep_behind hk
  have hlate : d.late q.seq = true := by
    rw [late, h.haveSeq, hstep, maxMisorder]
    simp only [Bool.true_and, Bool.and_eq_true, decide_eq_true_eq]
    omega
  rw [push, if_pos hlate]

/-- Stale packets are dropped and counted, and nothing else changes. -/
theorem receiveAll_stale {seq : UInt16} (qs : List (RtpHeader × Int))
    (hqs : ∀ q ∈ qs, ∃ k ≤ 100, q.1.seq = seq - UInt16.ofNat k) {d : Depacketizer cap}
    {stale : Nat} (h : InSequence d (seq + 1) 0 stale) :
    ∃ accepted, d.receiveAll qs =
      ({ d with accepted := accepted, lateOrDup := d.lateOrDup + qs.length }, []) := by
  induction qs generalizing d stale with
  | nil => exact ⟨d.accepted, rfl⟩
  | cons q qs ih =>
    obtain ⟨k, hk, hq⟩ := hqs q List.mem_cons_self
    have hpush := push_stale h hk hq q.2
    have hd : InSequence { d with accepted := false, lateOrDup := d.lateOrDup + 1 } (seq + 1) 0
        (stale + 1) :=
      { h with lateOrDup := congrArg (· + 1) h.lateOrDup }
    obtain ⟨accepted, hrest⟩ := ih (fun r hr => hqs r (List.mem_cons_of_mem q hr)) hd
    refine ⟨accepted, ?_⟩
    rw [receiveAll, receive, hpush, hrest, List.length_cons, Nat.add_comm qs.length 1,
      ← Nat.add_assoc]
    rfl

theorem InSequence.stale {d : Depacketizer cap} {next : UInt16} {g stale : Nat}
    (h : InSequence d next g stale) (accepted : Bool) (n : Nat) :
    InSequence { d with accepted := accepted, lateOrDup := d.lateOrDup + n } next g (stale + n) :=
  { h with lateOrDup := congrArg (· + n) h.lateOrDup }

theorem Inside.stale {d : Depacketizer cap} {ts : UInt32} {next : UInt16} {a : Assembly}
    {g stale : Nat} (h : Inside d ts next a g stale) (accepted : Bool) (n : Nat) :
    Inside { d with accepted := accepted, lateOrDup := d.lateOrDup + n } ts next a g (stale + n) :=
  ⟨h.seq.stale accepted n, h.haveTs, h.curTs, { h.holds with }⟩

theorem Outside.stale {d : Depacketizer cap} {next : UInt16} {g stale : Nat}
    (h : Outside d next g stale) (accepted : Bool) (n : Nat) :
    Outside { d with accepted := accepted, lateOrDup := d.lateOrDup + n } next g (stale + n) :=
  ⟨h.seq.stale accepted n, h.haveTs⟩

end Depacketizer

end P5G
