import P5G.Rtp.Reception
import P5G.Rtp.Payload

/-!
# Grouping packets into access units

What `Push` does with a sequence of packets before it looks at their payloads,
without buffers and counters: which packets it accepts, into which access unit
each goes, where an access unit ends, and against which one a gap counts.  The
depacketizer follows this grouping whatever is said of the contents, and each
of its events is about one group.
-/

namespace P5G

/-- An accepted packet, with the packets missing right before it that count
against its own access unit. -/
structure Entry where
  packet : RtpHeader
  arrival : Int
  gap : Nat

/-- An access unit that has ended, with the packets missing after its last one
that count against it. -/
structure Group where
  ts : UInt32
  entries : List Entry
  tail : Nat
  byMarker : Bool

inductive Verdict
  | stale
  | progress (gap : Nat)
  | restart

/-- A packet judged by its step from the last accepted one. -/
def judge (last : Option UInt16) (seq : UInt16) : Verdict :=
  match last with
  | none => .progress 0
  | some l =>
    let step := (seq - l).toInt16.toInt
    if step ≤ 0 ∧ -maxMisorder ≤ step then .stale
    else if 0 < step ∧ step ≤ maxDropout then .progress (step - 1).toNat
    else .restart

theorem judge_ahead {l seq : UInt16} {g : Nat} (h : l + 1 + UInt16.ofNat g = seq)
    (hg : g ≤ 2999) : judge (some l) seq = .progress g := by
  have hstep := Depacketizer.toInt16_ahead h hg
  simp only [judge, hstep, maxDropout]
  rw [if_neg (by omega), if_pos (by omega)]
  congr 1
  omega

structure Grouping where
  last : Option UInt16 := none
  current : Option (UInt32 × List Entry) := none

/-- Where an accepted packet goes: the access unit that ends before it, the
entries of the one that it joins, and its own entry. -/
structure Intake where
  ended : List Group
  entries : List Entry
  entry : Entry

namespace Grouping

def entries (r : Grouping) : List Entry :=
  match r.current with
  | none => []
  | some x => x.2

def cut (r : Grouping) (tail : Nat) : List Group :=
  match r.current with
  | none => []
  | some x => [⟨x.1, x.2, tail, false⟩]

/-- A gap before a new timestamp is the lost tail of the access unit that is open. -/
def intake (r : Grouping) (q : RtpHeader × Int) : Option Intake :=
  match judge r.last q.1.seq with
  | .stale => none
  | .restart => some ⟨r.cut 0, [], ⟨q.1, q.2, 0⟩⟩
  | .progress g =>
    match r.current with
    | none => some ⟨[], [], ⟨q.1, q.2, g⟩⟩
    | some x =>
      if q.1.ts = x.1 then some ⟨[], x.2, ⟨q.1, q.2, g⟩⟩ else some ⟨r.cut g, [], ⟨q.1, q.2, 0⟩⟩

def after (x : Entry) (es : List Entry) : Grouping :=
  ⟨some x.packet.seq, if x.packet.marker = 0 then some (x.packet.ts, es) else none⟩

def endedBy (x : Entry) (es : List Entry) : List Group :=
  if x.packet.marker = 0 then [] else [⟨x.packet.ts, es, 0, true⟩]

def receive (r : Grouping) (q : RtpHeader × Int) : Grouping × List Group :=
  match r.intake q with
  | none => (r, [])
  | some i =>
    (after i.entry (i.entries ++ [i.entry]), i.ended ++ endedBy i.entry (i.entries ++ [i.entry]))

def receiveAll (r : Grouping) : List (RtpHeader × Int) → Grouping × List Group
  | [] => (r, [])
  | q :: qs => (((r.receive q).1.receiveAll qs).1, (r.receive q).2 ++ ((r.receive q).1.receiveAll qs).2)

theorem receiveAll_append (r : Grouping) (ps qs : List (RtpHeader × Int)) :
    r.receiveAll (ps ++ qs) =
      (((r.receiveAll ps).1.receiveAll qs).1,
        (r.receiveAll ps).2 ++ ((r.receiveAll ps).1.receiveAll qs).2) := by
  induction ps generalizing r with
  | nil => rfl
  | cons q ps ih => simp [receiveAll, ih]

/-- The entry of an accepted packet is the packet itself. -/
theorem intake_entry {r : Grouping} {q : RtpHeader × Int} {i : Intake} (h : r.intake q = some i) :
    i.entry.packet = q.1 ∧ i.entry.arrival = q.2 := by
  rw [intake] at h
  split at h
  · cases h
  · cases h
    exact ⟨rfl, rfl⟩
  · split at h
    · cases h
      exact ⟨rfl, rfl⟩
    · split at h <;> cases h <;> exact ⟨rfl, rfl⟩

end Grouping

namespace Depacketizer

variable {cap : Nat}

def outside (d : Depacketizer cap) (haveTs : Bool) (curTs : UInt32) (haveSeq : Bool)
    (lastSeq : UInt16) (accepted : Bool) (pendingGap lateOrDup seqResets : Nat) :
    Depacketizer cap :=
  { d with
    haveTs := haveTs, curTs := curTs, haveSeq := haveSeq, lastSeq := lastSeq
    accepted := accepted, pendingGap := pendingGap, lateOrDup := lateOrDup
    seqResets := seqResets }

/-- `R d es` says of the unit being assembled that its packets were `es`. -/
structure Content (R : Depacketizer cap → List Entry → Prop) : Prop where
  packets : ∀ {d : Depacketizer cap} {es}, R d es → d.packets = es.length
  outside : ∀ {d : Depacketizer cap} {es} haveTs curTs haveSeq lastSeq accepted pendingGap lateOrDup seqResets,
    R d es →
    R (d.outside haveTs curTs haveSeq lastSeq accepted pendingGap lateOrDup seqResets) es
  reset : ∀ (d : Depacketizer cap) ts, R (d.reset ts) []
  take : ∀ {d : Depacketizer cap} {es x}, R d es → d.haveTs = true → x.packet.ts = d.curTs → d.pendingGap = x.gap →
    R (d.take x.packet x.arrival) (es ++ [x])

structure Follows (R : Depacketizer cap → List Entry → Prop) (d : Depacketizer cap)
    (r : Grouping) : Prop where
  haveSeq : d.haveSeq = r.last.isSome
  lastSeq : ∀ l ∈ r.last, d.lastSeq = l
  haveTs : d.haveTs = r.current.isSome
  curTs : ∀ x ∈ r.current, d.curTs = x.1
  content : R d r.entries
  nonempty : ∀ x ∈ r.current, x.2 ≠ []
  pendingGap : d.pendingGap = 0

/-- The event and the bytes of a group: those of a unit with these packets. -/
def Tells (R : Depacketizer cap → List Entry → Prop) (g : Group) (x : AuEvent × List UInt8) : Prop :=
  ∃ d, R d g.entries ∧ d.curTs = g.ts ∧ g.entries ≠ [] ∧
    x.1 = ({ d with lost := d.lost + g.tail }).closeFu.event g.byMarker ∧
    x.2 = (d.closeFu.buf.bytes d.cur).take d.closeFu.len

variable {R : Depacketizer cap → List Entry → Prop}

theorem closeFu_cur (d : Depacketizer cap) : d.closeFu.cur = d.cur := (Beside.closeFu d).cur

theorem closeFu_lost (d : Depacketizer cap) (n : Nat) :
    ({ d with lost := n } : Depacketizer cap).closeFu = { d.closeFu with lost := n } := by
  rw [closeFu, closeFu]
  split <;> rfl

/-- A unit with packets is emitted from its buffer, which the next one leaves alone. -/
theorem emit_packets {d : Depacketizer cap} (h : d.packets ≠ 0) (byMarker : Bool) :
    d.emit byMarker = (d.closeFu.rotate, some (d.closeFu.event byMarker)) := by
  rw [emit]
  refine if_neg fun hn => h ?_
  rw [← (Beside.closeFu d).packets]
  exact hn.2.1

theorem emitted_data (d : Depacketizer cap) :
    d.closeFu.rotate.data d.cur = (d.closeFu.buf.bytes d.cur).take d.closeFu.len := by
  rw [← closeFu_cur, rotate_data]

theorem emitted_data_ne {d : Depacketizer cap} {k : Fin 3} (hk : k ≠ d.cur) :
    d.closeFu.rotate.data k = d.data k := by
  rw [rotate_data_ne (by rw [closeFu_cur]; exact hk)]
  exact (Beside.closeFu d).data hk

/-! ## One packet -/

/-- The packet goes into the unit that is open, and the marker ends it. -/
theorem landing (hR : Content R) {d : Depacketizer cap} {es : List Entry} {x : Entry}
    (hd : R d es) (hts : d.haveTs = true) (hcur : x.packet.ts = d.curTs)
    (hgap : d.pendingGap = x.gap) (hseq : d.haveSeq = true)
    (hlast : d.lastSeq = x.packet.seq) :
    let r := (d.take x.packet x.arrival).endByMarker x.packet.marker
    Follows R r.1 (Grouping.after x (es ++ [x])) ∧
      List.Forall₂ (Tells R) (Grouping.endedBy x (es ++ [x]))
        (r.2.toList.map fun e => (e, r.1.data e.buffer)) ∧
      ∀ k, k ≠ d.cur → r.1.data k = d.data k := by
  have hb := take_beside hts hcur x.arrival
  have htake := hR.take hd hts hcur hgap
  have hdata : ∀ k, k ≠ d.cur → (d.take x.packet x.arrival).data k = d.data k :=
    fun k hk => hb.data hk
  generalize d.take x.packet x.arrival = e at hb htake hdata
  have hecur : e.cur = d.cur := hb.cur
  have hets : e.curTs = x.packet.ts := hb.curTs.trans hcur.symm
  have heSeq : e.haveSeq = true := hb.haveSeq.trans hseq
  have heLast : e.lastSeq = x.packet.seq := hb.lastSeq.trans hlast
  by_cases hm : x.packet.marker = 0
  · rw [Grouping.after, Grouping.endedBy, if_pos hm, if_pos hm, endByMarker, if_pos hm]
    refine ⟨⟨heSeq, ?_, hb.haveTs.trans hts, ?_, htake, ?_, hb.pendingGap⟩, .nil, hdata⟩
    · rintro l ⟨rfl⟩
      exact heLast
    · rintro y ⟨rfl⟩
      exact hets
    · rintro y ⟨rfl⟩
      simp
  · have hne : e.packets ≠ 0 := by
      rw [hR.packets htake]
      simp
    rw [Grouping.after, Grouping.endedBy, if_neg hm, if_neg hm, endByMarker, if_neg hm,
      emit_packets hne]
    have hclose := Beside.closeFu e
    have hempty := hR.outside false e.closeFu.rotate.curTs e.closeFu.haveSeq e.closeFu.lastSeq
      e.closeFu.accepted e.closeFu.pendingGap e.closeFu.lateOrDup e.closeFu.seqResets
      (hR.reset e.closeFu.rotate e.closeFu.rotate.curTs)
    refine ⟨⟨hclose.haveSeq.trans heSeq, ?_, rfl, ?_, hempty, ?_,
      hclose.pendingGap.trans hb.pendingGap⟩, ?_, fun k hk => ?_⟩
    · rintro l ⟨rfl⟩
      exact hclose.lastSeq.trans heLast
    · rintro y ⟨⟩
    · rintro y ⟨⟩
    · refine .cons ⟨e, htake, hets, by simp, rfl, ?_⟩ .nil
      show e.closeFu.rotate.data e.closeFu.cur = _
      rw [closeFu_cur]
      exact emitted_data e
    · exact (emitted_data_ne (d := e) (hecur ▸ hk)).trans (hdata k hk)

def admitted (d : Depacketizer cap) (ts : UInt32) : Depacketizer cap :=
  if !d.haveTs || ts != d.curTs then d.reset ts else d

theorem admitted_open (d : Depacketizer cap) (ts : UInt32) :
    (d.admitted ts).haveTs = true ∧ ts = (d.admitted ts).curTs := by
  rw [admitted]
  split
  · exact ⟨rfl, rfl⟩
  · next h =>
    rw [Bool.not_eq_true, Bool.or_eq_false_iff] at h
    exact ⟨by simpa using h.1, by simpa using h.2⟩

theorem take_admitted (d : Depacketizer cap) (q : RtpHeader) (arrival : Int) :
    d.take q arrival = (d.admitted q.ts).take q arrival := by
  refine take_congr ?_
  rw [enter_same (d.admitted_open q.ts).1 (d.admitted_open q.ts).2]
  rfl

theorem admitted_beside (d : Depacketizer cap) (ts : UInt32) :
    (d.admitted ts).cur = d.cur ∧ (d.admitted ts).haveSeq = d.haveSeq ∧
      (d.admitted ts).lastSeq = d.lastSeq ∧ (d.admitted ts).pendingGap = d.pendingGap ∧
      ∀ k, (d.admitted ts).data k = d.data k := by
  rw [admitted]
  split
  · exact ⟨rfl, rfl, rfl, rfl, fun _ => rfl⟩
  · exact ⟨rfl, rfl, rfl, rfl, fun _ => rfl⟩

theorem admitted_reset {d : Depacketizer cap} (ts : UInt32) (h : ¬(d.haveTs = true ∧ ts = d.curTs)) :
    d.admitted ts = d.reset ts := by
  refine if_pos ?_
  by_contra hn
  rw [Bool.not_eq_true, Bool.or_eq_false_iff] at hn
  exact h ⟨by simpa using hn.1, by simpa using hn.2⟩

/-- What the verdict means for the state. -/
theorem judged {d : Depacketizer cap} {r : Grouping} (h : Follows R d r) (seq : UInt16) :
    match judge r.last seq with
    | .stale => d.late seq = true
    | .progress g => d.late seq = false ∧ ({ d with accepted := true } : Depacketizer cap).advance
        seq = ({ d with accepted := true, pendingGap := g }, none)
    | .restart => d.late seq = false ∧ d.haveSeq = true ∧
        ¬(0 < d.seqStep seq ∧ d.seqStep seq ≤ maxDropout) := by
  have hhave := h.haveSeq
  have hgap := h.pendingGap
  cases hl : r.last with
  | none =>
    rw [hl] at hhave
    refine ⟨by rw [late, hhave]; rfl, ?_⟩
    rw [advance, hhave, ← hgap]
    rfl
  | some l =>
    rw [hl] at hhave
    have hlast : d.lastSeq = l := h.lastSeq l hl
    have hstep : (seq - l).toInt16.toInt = d.seqStep seq := by rw [seqStep, hlast]
    have hlate : d.late seq = (decide (d.seqStep seq ≤ 0) && decide (-maxMisorder ≤ d.seqStep seq)) := by
      rw [late, hhave]
      rfl
    simp only [judge, hstep]
    by_cases hs : d.seqStep seq ≤ 0 ∧ -maxMisorder ≤ d.seqStep seq
    · rw [if_pos hs]
      show d.late seq = true
      rw [hlate, decide_eq_true hs.1, decide_eq_true hs.2]
      rfl
    · have hlate' : d.late seq = false := by
        rw [hlate, ← Bool.decide_and, decide_eq_false hs]
      rw [if_neg hs]
      by_cases hp : 0 < d.seqStep seq ∧ d.seqStep seq ≤ maxDropout
      · rw [if_pos hp]
        refine ⟨hlate', ?_⟩
        rw [advance, if_neg (by simp [hhave])]
        exact if_pos hp
      · rw [if_neg hp]
        exact ⟨hlate', hhave, hp⟩

/-- The unit that is open ends, and the packet finds an empty one in the next buffer. -/
theorem handover (hR : Content R) {d : Depacketizer cap} {es : List Entry} (hd : R d es)
    (hne : es ≠ []) (tail : Nat) {x : Entry} (hgap : x.gap = 0)
    {e : Depacketizer cap} (hcur : e.cur = d.cur + 1)
    (hdata : e.data d.cur =
      ({ d with lost := d.lost + tail } : Depacketizer cap).closeFu.rotate.data d.cur)
    (hseq : e.haveSeq = true) (hlast : e.lastSeq = x.packet.seq) (hpending : e.pendingGap = 0)
    (hnew : ¬(e.haveTs = true ∧ x.packet.ts = e.curTs)) :
    let ev := ({ d with lost := d.lost + tail } : Depacketizer cap).closeFu.event false
    let r := (e.take x.packet x.arrival).endByMarker x.packet.marker
    Follows R r.1 (Grouping.after x [x]) ∧
      List.Forall₂ (Tells R) (⟨d.curTs, es, tail, false⟩ :: Grouping.endedBy x [x])
        ((ev :: r.2.toList).map fun e => (e, r.1.data e.buffer)) := by
  intro ev r
  have hreset : e.admitted x.packet.ts = e.reset x.packet.ts := admitted_reset _ hnew
  have hland := landing hR (hR.reset e x.packet.ts) (x := x) rfl rfl (hpending.trans hgap.symm)
    hseq hlast
  rw [← hreset, ← take_admitted, List.nil_append] at hland
  obtain ⟨hfollows, hevents, hkeep⟩ := hland
  refine ⟨hfollows, .cons ⟨d, hd, rfl, hne, rfl, ?_⟩ hevents⟩
  have hbuffer : ev.buffer = d.cur := closeFu_cur _
  have hother : d.cur ≠ (e.reset x.packet.ts).cur := by
    rw [show (e.reset x.packet.ts).cur = d.cur + 1 from hcur]
    exact ne_next d.cur
  show r.1.data ev.buffer = _
  rw [hbuffer, hkeep d.cur (hreset ▸ hother), (admitted_beside e _).2.2.2.2, hdata]
  have hlost := closeFu_lost d (d.lost + tail)
  rw [hlost]
  have hself := emitted_data d
  exact hself

/-- A packet at or behind the last one is dropped. -/
theorem Follows.stale (hR : Content R) {d : Depacketizer cap} {r : Grouping}
    (h : Follows R d r) (q : RtpHeader × Int) (hv : judge r.last q.1.seq = .stale) :
    Follows R (d.receive q).1 (r.receive q).1 ∧
      List.Forall₂ (Tells R) (r.receive q).2 (d.receive q).2 := by
  have hlate : d.late q.1.seq = true := by
    have hjudged := judged h q.1.seq
    rwa [hv] at hjudged
  have hin : r.intake q = none := by rw [Grouping.intake, hv]
  rw [Grouping.receive, hin, Depacketizer.receive, push, if_pos hlate]
  have hcontent := hR.outside d.haveTs d.curTs d.haveSeq d.lastSeq false d.pendingGap
    (d.lateOrDup + 1) d.seqResets h.content
  exact ⟨⟨h.haveSeq, h.lastSeq, h.haveTs, h.curTs, hcontent, h.nonempty, h.pendingGap⟩, .nil⟩

/-- A packet ahead of the last one, `g` numbers between them. -/
theorem push_progress {d : Depacketizer cap} {r : Grouping} (h : Follows R d r)
    {q : RtpHeader × Int} {g : Nat} (hv : judge r.last q.1.seq = .progress g) :
    d.push q.1 q.2 =
      let r₂ := (d.accept q.1.seq g).changeTs q.1.ts
      let r₃ := (r₂.1.take q.1 q.2).endByMarker q.1.marker
      (r₃.1, r₂.2.toList ++ r₃.2.toList) := by
  have hjudged := judged h q.1.seq
  rw [hv] at hjudged
  obtain ⟨hlate, hadvance⟩ := hjudged
  rw [push, if_neg (by simp [hlate]), hadvance]
  rfl

/-- It is the first of a unit, and no unit is open. -/
theorem Follows.opens (hR : Content R) {d : Depacketizer cap} {r : Grouping}
    (h : Follows R d r) (q : RtpHeader × Int) {g : Nat} (hv : judge r.last q.1.seq = .progress g)
    (hcur : r.current = none) :
    Follows R (d.receive q).1 (r.receive q).1 ∧
      List.Forall₂ (Tells R) (r.receive q).2 (d.receive q).2 := by
  have hts : d.haveTs = false := by rw [h.haveTs, hcur]; rfl
  have hin : r.intake q = some ⟨[], [], ⟨q.1, q.2, g⟩⟩ := by
    rw [Grouping.intake, hv]
    simp only [hcur]
  have hchange : (d.accept q.1.seq g).changeTs q.1.ts = (d.accept q.1.seq g, none) :=
    if_neg fun hn => by simp [accept, hts] at hn
  have hreset : (d.accept q.1.seq g).admitted q.1.ts = (d.accept q.1.seq g).reset q.1.ts :=
    admitted_reset _ fun hn => by simp [accept, hts] at hn
  have hland := landing hR (hR.reset (d.accept q.1.seq g) q.1.ts) (x := ⟨q.1, q.2, g⟩) rfl rfl
    rfl rfl rfl
  rw [← hreset, ← take_admitted] at hland
  rw [Grouping.receive, hin, Depacketizer.receive, push_progress h hv, hchange]
  exact ⟨hland.1, hland.2.1⟩

/-- It is of the unit that is open, or the first of the next. -/
theorem Follows.continues (hR : Content R) {d : Depacketizer cap} {r : Grouping}
    (h : Follows R d r) (q : RtpHeader × Int) {g : Nat} (hv : judge r.last q.1.seq = .progress g)
    {x : UInt32 × List Entry} (hcur : r.current = some x) :
    Follows R (d.receive q).1 (r.receive q).1 ∧
      List.Forall₂ (Tells R) (r.receive q).2 (d.receive q).2 := by
  have hts : d.haveTs = true := by rw [h.haveTs, hcur]; rfl
  have hx : d.curTs = x.1 := h.curTs x hcur
  have hes : r.entries = x.2 := by rw [Grouping.entries, hcur]
  have hd : R (d.accept q.1.seq g) x.2 :=
    hR.outside d.haveTs d.curTs true q.1.seq true g d.lateOrDup d.seqResets (hes ▸ h.content)
  by_cases hsame : q.1.ts = x.1
  · have hin : r.intake q = some ⟨[], x.2, ⟨q.1, q.2, g⟩⟩ := by
      rw [Grouping.intake, hv]
      simp only [hcur, if_pos hsame]
    have hcurTs : q.1.ts = (d.accept q.1.seq g).curTs := hsame.trans hx.symm
    have hchange : (d.accept q.1.seq g).changeTs q.1.ts = (d.accept q.1.seq g, none) :=
      if_neg fun hn => hn.2 hcurTs
    have hland := landing hR hd (x := ⟨q.1, q.2, g⟩) hts hcurTs rfl rfl rfl
    rw [Grouping.receive, hin, Depacketizer.receive, push_progress h hv, hchange]
    exact ⟨hland.1, hland.2.1⟩
  · have hin : r.intake q = some ⟨r.cut g, [], ⟨q.1, q.2, 0⟩⟩ := by
      rw [Grouping.intake, hv]
      simp only [hcur, if_neg hsame]
    have hne : x.2 ≠ [] := h.nonempty x hcur
    have hnew : q.1.ts ≠ (d.accept q.1.seq g).curTs := fun hn => hsame (hn.trans hx)
    have hd₀ : R { d.accept q.1.seq g with pendingGap := 0 } x.2 :=
      hR.outside d.haveTs d.curTs true q.1.seq true 0 d.lateOrDup d.seqResets hd
    have hpackets : (d.accept q.1.seq g).lostTail.packets ≠ 0 := by
      show d.packets ≠ 0
      rw [← hes] at hne
      rw [hR.packets h.content]
      simpa using hne
    have hchange : (d.accept q.1.seq g).changeTs q.1.ts =
        ((d.accept q.1.seq g).lostTail.closeFu.rotate,
          some ((d.accept q.1.seq g).lostTail.closeFu.event false)) :=
      (if_pos ⟨hts, hnew⟩).trans (emit_packets hpackets false)
    have hb := Beside.closeFu (d.accept q.1.seq g).lostTail
    have hhand := handover hR hd₀ hne g (x := ⟨q.1, q.2, 0⟩) rfl
      (e := (d.accept q.1.seq g).lostTail.closeFu.rotate)
      (congrArg (· + 1) hb.cur) rfl hb.haveSeq hb.lastSeq hb.pendingGap
      (fun hn => hnew (hn.2.trans hb.curTs))
    rw [Grouping.receive, hin, Depacketizer.receive, push_progress h hv, hchange, Grouping.cut, hcur]
    show _ ∧ List.Forall₂ (Tells R) (⟨x.1, x.2, g, false⟩ :: _) _
    rw [← hx]
    exact hhand

/-- A packet far from the last one begins a new sequence. -/
theorem Follows.restart (hR : Content R) {d : Depacketizer cap} {r : Grouping}
    (h : Follows R d r) (q : RtpHeader × Int) (hv : judge r.last q.1.seq = .restart) :
    Follows R (d.receive q).1 (r.receive q).1 ∧
      List.Forall₂ (Tells R) (r.receive q).2 (d.receive q).2 := by
  have hjudged := judged h q.1.seq
  rw [hv] at hjudged
  obtain ⟨hlate, hhave, hfar⟩ := hjudged
  have hin : r.intake q = some ⟨r.cut 0, [], ⟨q.1, q.2, 0⟩⟩ := by rw [Grouping.intake, hv]
  let d₀ : Depacketizer cap :=
    { d with accepted := true, seqResets := d.seqResets + 1, pendingGap := 0 }
  have hadvance : ({ d with accepted := true } : Depacketizer cap).advance q.1.seq =
      ({ (if d.haveTs then d₀.emit false else (d₀, none)).1 with haveTs := false },
        (if d.haveTs then d₀.emit false else (d₀, none)).2) := by
    rw [advance, if_neg (by simp [hhave])]
    exact if_neg hfar
  cases hcur : r.current with
  | none =>
    have hts : d.haveTs = false := by rw [h.haveTs, hcur]; rfl
    let e : Depacketizer cap := { d₀ with haveTs := false, haveSeq := true, lastSeq := q.1.seq }
    have hpush : d.push q.1 q.2 =
        (((e.take q.1 q.2).endByMarker q.1.marker).1,
          ((e.take q.1 q.2).endByMarker q.1.marker).2.toList) := by
      rw [push, if_neg (by simp [hlate]), hadvance, hts, if_neg Bool.false_ne_true]
      rfl
    have hreset : e.admitted q.1.ts = e.reset q.1.ts := admitted_reset _ fun hn => by simp [e] at hn
    have hland := landing hR (hR.reset e q.1.ts) (x := ⟨q.1, q.2, 0⟩) rfl rfl rfl rfl rfl
    rw [← hreset, ← take_admitted] at hland
    rw [Grouping.receive, hin, Depacketizer.receive, hpush, Grouping.cut, hcur]
    exact ⟨hland.1, hland.2.1⟩
  | some x =>
    have hts : d.haveTs = true := by rw [h.haveTs, hcur]; rfl
    have hx : d.curTs = x.1 := h.curTs x hcur
    have hes : r.entries = x.2 := by rw [Grouping.entries, hcur]
    have hne : x.2 ≠ [] := h.nonempty x hcur
    have hd₀ : R d₀ x.2 :=
      hR.outside d.haveTs d.curTs d.haveSeq d.lastSeq true 0 d.lateOrDup (d.seqResets + 1)
        (hes ▸ h.content)
    have hpackets : d₀.packets ≠ 0 := by
      rw [hR.packets hd₀]
      simpa using hne
    let e : Depacketizer cap :=
      { d₀.closeFu.rotate with haveTs := false, haveSeq := true, lastSeq := q.1.seq }
    have hb := Beside.closeFu d₀
    have hpush : d.push q.1 q.2 =
        (((e.take q.1 q.2).endByMarker q.1.marker).1,
          d₀.closeFu.event false :: ((e.take q.1 q.2).endByMarker q.1.marker).2.toList) := by
      rw [push, if_neg (by simp [hlate]), hadvance, hts, if_pos rfl, emit_packets hpackets]
      rfl
    have hhand := handover hR hd₀ hne 0 (x := ⟨q.1, q.2, 0⟩) rfl (e := e)
      (congrArg (· + 1) hb.cur) rfl rfl rfl hb.pendingGap (fun hn => by simp [e] at hn)
    rw [Grouping.receive, hin, Depacketizer.receive, hpush, Grouping.cut, hcur]
    show _ ∧ List.Forall₂ (Tells R) (⟨x.1, x.2, 0, false⟩ :: _) _
    rw [← hx]
    exact hhand

/-- One packet keeps the depacketizer with the grouping. -/
theorem Follows.receive (hR : Content R) {d : Depacketizer cap} {r : Grouping}
    (h : Follows R d r) (q : RtpHeader × Int) :
    Follows R (d.receive q).1 (r.receive q).1 ∧
      List.Forall₂ (Tells R) (r.receive q).2 (d.receive q).2 := by
  cases hv : judge r.last q.1.seq with
  | stale => exact h.stale hR q hv
  | progress g =>
    cases hcur : r.current with
    | none => exact h.opens hR q hv hcur
    | some x => exact h.continues hR q hv hcur
  | restart => exact h.restart hR q hv

/-- A fresh depacketizer follows the empty grouping. -/
theorem follows_fresh (hR : Content R) (bufs : AuBuffers cap) :
    Follows R ({ buf := bufs } : Depacketizer cap) {} where
  haveSeq := rfl
  lastSeq := by rintro l ⟨⟩
  haveTs := rfl
  curTs := by rintro l ⟨⟩
  content := hR.outside false 0 false 0 true 0 0 0 (hR.reset { buf := bufs } 0)
  nonempty := by rintro l ⟨⟩
  pendingGap := rfl

/-- A whole run. -/
theorem Follows.receiveAll (hR : Content R) (qs : List (RtpHeader × Int))
    {d : Depacketizer cap} {r : Grouping} (h : Follows R d r) :
    Follows R (d.receiveAll qs).1 (r.receiveAll qs).1 ∧
      List.Forall₂ (Tells R) (r.receiveAll qs).2 (d.receiveAll qs).2 := by
  induction qs generalizing d r with
  | nil => exact ⟨h, .nil⟩
  | cons q qs ih =>
    obtain ⟨hfollows, htells⟩ := h.receive hR q
    obtain ⟨hfollows', htells'⟩ := ih hfollows
    exact ⟨hfollows', List.rel_append htells htells'⟩

end Depacketizer

end P5G
