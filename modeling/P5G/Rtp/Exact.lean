import P5G.Rtp.Reception

/-!
# Exactness of the depacketizer

Every stream of access units, packetized in any way RFC 6184 allows and short
of any packets that leave a part of every access unit and no two neighbouring
ends missing, is reported access unit by access unit: one event each, with
exactly the NAL units that were received whole.
-/

namespace P5G

/-- No gap exceeds what counts as progress, the first one being `g` already. -/
def Gapped : Nat → List Sent → Prop
  | g, [] => g ≤ 2999
  | g, p :: ps => if p.lost then Gapped (g + 1) ps else g ≤ 2999 ∧ Gapped 0 ps

theorem gapped_of_runs {ps pre : List Sent} (hpre : ∀ p ∈ pre, p.lost = true)
    (h : ∀ run, run <:+: pre ++ ps → (∀ p ∈ run, p.lost = true) → run.length ≤ 2999) :
    Gapped pre.length ps := by
  have hpre' : pre.length ≤ 2999 := h pre (List.infix_append' [] pre ps) hpre
  induction ps generalizing pre with
  | nil => exact hpre'
  | cons p ps ih =>
    rw [Gapped]
    split
    · next hp =>
      have hlen : (pre ++ [p]).length = pre.length + 1 := List.length_append
      have hall : ∀ q ∈ pre ++ [p], q.lost = true := by
        intro q hq
        rcases List.mem_append.mp hq with hq | hq
        · exact hpre q hq
        · exact List.mem_singleton.mp hq ▸ hp
      rw [← hlen]
      refine ih hall (fun run hrun => h run ?_) (h (pre ++ [p]) ⟨[], ps, by simp⟩ hall)
      rwa [List.append_assoc] at hrun
    · have hinfix : ps <:+: pre ++ p :: ps := ⟨pre ++ [p], [], by simp⟩
      exact ⟨hpre', @ih [] (fun _ hq => by cases hq)
        (fun run hrun => h run (List.IsInfix.trans hrun hinfix)) (Nat.zero_le _)⟩

theorem gapped_feed {ps : List Sent} {a : Assembly} {g : Nat} (h : Gapped g ps) :
    (Assembly.feed (a, g) ps).2 ≤ 2999 := by
  induction ps generalizing a g with
  | nil => exact h
  | cons p ps ih =>
    rw [Gapped] at h
    rw [Assembly.feed_cons]
    cases hp : p.fate with
    | none =>
      rw [Assembly.step_none hp]
      rw [if_pos (Sent.lost_none hp)] at h
      exact ih h
    | some r =>
      rw [Assembly.step_some hp]
      rw [if_neg (by simp [Sent.lost, hp])] at h
      exact ih h.2

theorem add_ofNat_succ (s : UInt16) (n : Nat) :
    s + UInt16.ofNat (n + 1) = s + 1 + UInt16.ofNat n := by
  rw [Nat.add_comm, UInt16.ofNat_add, ← UInt16.add_assoc]
  rfl

theorem consecutive_append {s : UInt16} {ps qs : List Sent} (h : Consecutive s (ps ++ qs)) :
    Consecutive s ps ∧ Consecutive (s + UInt16.ofNat ps.length) qs := by
  induction ps generalizing s with
  | nil => exact ⟨trivial, by simpa using h⟩
  | cons p ps ih =>
    obtain ⟨hps, hqs⟩ := ih h.2
    refine ⟨⟨h.1, hps⟩, ?_⟩
    rw [List.length_cons, add_ofNat_succ]
    exact hqs

namespace Depacketizer

variable {cap : Nat}

/-! ## The packets of one access unit -/

theorem receiveAll_arrivals {p : Sent} {r : Received} (hp : p.fate = some r)
    {d d' : Depacketizer cap} {xs : List (AuEvent × List UInt8)}
    (hfirst : d.receive (p.header, r.arrival) = (d', xs)) {stale : Nat}
    (h : InSequence d' (p.header.seq + 1) 0 stale) :
    ∃ accepted, d.receiveAll p.arrivals =
      ({ d' with accepted := accepted, lateOrDup := d'.lateOrDup + p.staleCount }, xs) := by
  obtain ⟨accepted, hstale⟩ := receiveAll_stale r.stale (p.behind r hp) h
  refine ⟨accepted, ?_⟩
  rw [Sent.arrivals, Sent.staleCount, hp]
  simp only [receiveAll, hfirst, hstale, List.append_nil]

/-- A packet that is not the last of its access unit, with its stale ones. -/
theorem receive_middle {d : Depacketizer cap} {ts : UInt32} {s : UInt16} {a : Assembly}
    {g stale : Nat} (h : Inside d ts s a g stale) {p : Sent} {r : Received}
    (hp : p.fate = some r) (hg : g ≤ 2999) (hseq : p.header.seq = s) (hts : p.header.ts = ts)
    (hmarker : p.header.marker = 0) (hroom : a.bytes.length + p.piece.size ≤ cap) :
    ∃ d', d.receiveAll p.arrivals = (d', []) ∧
      Inside d' ts (s + 1) (a.take g r.arrival p.piece) 0 (stale + p.staleCount) := by
  obtain ⟨d', hpush, hin, -, -⟩ := push_inside h hg hseq hts p.carries hroom r.arrival
  rw [hmarker] at hpush
  have hfirst : d.receive (p.header, r.arrival) = (d', []) := by rw [receive, hpush]; rfl
  obtain ⟨accepted, hall⟩ := receiveAll_arrivals hp hfirst (hseq ▸ hin.seq)
  exact ⟨_, hall, hin.stale accepted p.staleCount⟩

/-- The last packet of an access unit, with its stale ones. -/
theorem receive_last {d : Depacketizer cap} {ts : UInt32} {s : UInt16} {a : Assembly}
    {g stale : Nat} (h : Inside d ts s a g stale) {p : Sent} {r : Received}
    (hp : p.fate = some r) (hg : g ≤ 2999) (hseq : p.header.seq = s) (hts : p.header.ts = ts)
    (hmarker : p.header.marker ≠ 0) (hroom : a.bytes.length + p.piece.size ≤ cap) :
    ∃ d' y, d.receiveAll p.arrivals = (d', [y]) ∧
      Owed ts true (a.take g r.arrival p.piece) 0 y ∧
      Outside d' (s + 1) 0 (stale + p.staleCount) := by
  obtain ⟨d', hpush, hin, -, -⟩ := push_inside h hg hseq hts p.carries hroom r.arrival
  have hpackets : (a.take g r.arrival p.piece).packets ≠ 0 := by
    have hc := a.take_counts g r.arrival p.piece
    simp only [Assembly.counts, Prod.mk.injEq] at hc
    rw [hc.1]
    exact Nat.succ_ne_zero _
  obtain ⟨e, ev, hend, hout, howed, -⟩ := endByMarker_inside hin hpackets hmarker
  have hfirst : d.receive (p.header, r.arrival) = (e, [(ev, e.data ev.buffer)]) := by
    rw [receive, hpush, hend]
    rfl
  obtain ⟨accepted, hall⟩ := receiveAll_arrivals hp hfirst (hseq ▸ hout.seq)
  exact ⟨_, _, hall, howed, hout.stale accepted p.staleCount⟩

/-- What the packets of an access unit leave behind them: the access unit still
open if the last one is lost, and its event otherwise. -/
structure Left (r : Depacketizer cap × List (AuEvent × List UInt8)) (ts : UInt32) (next : UInt16)
    (x : Assembly × Nat) (stale : Nat) (lost : Bool) : Prop where
  opened : lost = true → r.2 = [] ∧ Inside r.1 ts next x.1 x.2 stale
  closed : lost = false → (∃ y, r.2 = [y] ∧ Owed ts true x.1 x.2 y) ∧ Outside r.1 next 0 stale

theorem run_inside {ps : List Sent} (hne : ps ≠ []) {d : Depacketizer cap} {ts : UInt32}
    {s : UInt16} {a : Assembly} {g stale : Nat} (h : Inside d ts s a g stale)
    (hmark : Marked ps) (hts : ∀ p ∈ ps, p.header.ts = ts) (hseq : Consecutive s ps)
    (hgap : Gapped g ps)
    (hroom : a.bytes.length + (ps.map fun p => p.piece.size).sum ≤ cap) :
    Left (d.receiveAll (ps.flatMap Sent.arrivals)) ts (s + UInt16.ofNat ps.length)
      (Assembly.feed (a, g) ps) (stale + (ps.map Sent.staleCount).sum)
      (ps.getLast?.any Sent.lost) := by
  induction ps generalizing d s a g stale with
  | nil => exact absurd rfl hne
  | cons p ps ih =>
    have hnext : s + UInt16.ofNat (p :: ps).length = s + 1 + UInt16.ofNat ps.length :=
      add_ofNat_succ s ps.length
    have hpts := hts p List.mem_cons_self
    have hrest : ∀ q ∈ ps, q.header.ts = ts := fun q hq => hts q (List.mem_cons_of_mem p hq)
    rw [List.map_cons, List.sum_cons] at hroom
    rw [Gapped] at hgap
    rw [hnext, List.flatMap_cons, Assembly.feed_cons, List.map_cons, List.sum_cons,
      ← Nat.add_assoc, receiveAll_append]
    cases hp : p.fate with
    | none =>
      have hlost : p.lost = true := Sent.lost_none hp
      rw [if_pos hlost] at hgap
      have hin : Inside d ts (s + 1) a (g + 1) stale := { h with seq := h.seq.lost }
      have harr : p.arrivals = [] := Sent.arrivals_none hp
      have hstale : p.staleCount = 0 := Sent.staleCount_none hp
      rw [harr, hstale, Assembly.step_none hp, receiveAll]
      cases ps with
      | nil =>
        refine ⟨fun _ => ⟨rfl, by simpa [receiveAll, Assembly.feed] using hin⟩, fun hl => ?_⟩
        rw [List.getLast?_singleton, Option.any_some, hlost] at hl
        cases hl
      | cons q ps =>
        rw [List.getLast?_cons_cons]
        exact ih (List.cons_ne_nil q ps) hin hmark.2 hrest hseq.2 hgap (by omega)
    | some r =>
      have hlost : p.lost = false := Sent.lost_some hp
      rw [if_neg (by simp [hlost])] at hgap
      rw [Assembly.step_some hp]
      cases ps with
      | nil =>
        have hmarker : p.header.marker ≠ 0 := fun hm => hmark.1.mp hm rfl
        obtain ⟨d', y, hrec, howed, hout⟩ :=
          receive_last h hp hgap.1 hseq.1 hpts hmarker (by omega)
        rw [hrec]
        refine ⟨fun hl => ?_, fun _ => ⟨⟨y, rfl, howed⟩, ?_⟩⟩
        · rw [List.getLast?_singleton, Option.any_some, hlost] at hl
          cases hl
        · simpa [receiveAll] using hout
      | cons q ps =>
        have hmarker : p.header.marker = 0 := hmark.1.mpr (List.cons_ne_nil q ps)
        obtain ⟨d', hrec, hin⟩ := receive_middle h hp hgap.1 hseq.1 hpts hmarker (by omega)
        have hlen := a.take_length g r.arrival p.piece
        rw [hrec, List.getLast?_cons_cons]
        exact ih (List.cons_ne_nil q ps) hin hmark.2 hrest hseq.2 hgap.2 (by omega)

/-- The same from between two access units: packets lost before the first one
that is received are a gap when it is. -/
theorem run_outside {ps : List Sent} (hrec : ∃ p ∈ ps, p.lost = false) {d : Depacketizer cap}
    {ts : UInt32} {s : UInt16} {g stale : Nat} (h : Outside d s g stale)
    (hmark : Marked ps) (hts : ∀ p ∈ ps, p.header.ts = ts) (hseq : Consecutive s ps)
    (hgap : Gapped g ps) (hroom : (ps.map fun p => p.piece.size).sum ≤ cap) :
    Left (d.receiveAll (ps.flatMap Sent.arrivals)) ts (s + UInt16.ofNat ps.length)
      (Assembly.feed ({}, g) ps) (stale + (ps.map Sent.staleCount).sum)
      (ps.getLast?.any Sent.lost) := by
  induction ps generalizing d s g with
  | nil => obtain ⟨p, hp, -⟩ := hrec; cases hp
  | cons p ps ih =>
    cases hp : p.fate with
    | none =>
      have hlost : p.lost = true := Sent.lost_none hp
      have hrest : ∃ q ∈ ps, q.lost = false := by simpa [hlost] using hrec
      have hnext : s + UInt16.ofNat (p :: ps).length = s + 1 + UInt16.ofNat ps.length :=
        add_ofNat_succ s ps.length
      have harr : p.arrivals = [] := Sent.arrivals_none hp
      have hstale : p.staleCount = 0 := Sent.staleCount_none hp
      rw [List.map_cons, List.sum_cons] at hroom
      rw [Gapped, if_pos hlost] at hgap
      rw [hnext, List.flatMap_cons, harr, List.map_cons, List.sum_cons, hstale, Nat.zero_add,
        Assembly.feed_cons, Assembly.step_none hp]
      have hout : Outside d (s + 1) (g + 1) stale := { h with seq := h.seq.lost }
      obtain ⟨q, ps, rfl⟩ := List.exists_cons_of_ne_nil (l := ps) (by
        rintro rfl
        simp at hrest)
      rw [List.getLast?_cons_cons]
      exact ih hrest hout hmark.2 (fun r hr => hts r (List.mem_cons_of_mem p hr)) hseq.2 hgap
        (by omega)
    | some r =>
      have hgap' := hgap
      rw [Gapped, if_neg (by simp [Sent.lost, hp])] at hgap'
      obtain ⟨hpush, hin⟩ := push_outside h hgap'.1 (q := p.header) hseq.1 r.arrival
      have hsame : d.receiveAll ((p :: ps).flatMap Sent.arrivals) =
          (d.reset p.header.ts).receiveAll ((p :: ps).flatMap Sent.arrivals) := by
        have hfirst : d.receive (p.header, r.arrival) =
            (d.reset p.header.ts).receive (p.header, r.arrival) := by
          rw [receive, receive, hpush]
        rw [List.flatMap_cons, Sent.arrivals, hp, List.cons_append, receiveAll, receiveAll, hfirst]
      have hfeed : Assembly.feed
          ({ firstArrival := d.firstArrival, lastArrival := d.lastArrival }, g) (p :: ps) =
          Assembly.feed ({}, g) (p :: ps) := by
        rw [Assembly.feed_cons, Assembly.feed_cons, Assembly.step_some hp, Assembly.step_some hp,
          Assembly.take_fresh]
      have hpts := hts p List.mem_cons_self
      have hrun := run_inside (List.cons_ne_nil p ps) hin hmark
        (fun q hq => (hts q hq).trans hpts.symm) hseq hgap (by simpa [Assembly.bytes] using hroom)
      rw [hsame, ← hfeed, ← hpts]
      exact hrun

end Depacketizer

theorem delivered_whole {au : SentAu} (h : ∀ p ∈ au.packets, p.lost = false) :
    annexB au.delivered = annexB au.nals := by
  have hall : au.units.filter SentUnit.whole = au.units := by
    refine List.filter_eq_self.mpr fun u hu => List.all_eq_true.mpr fun p hp => ?_
    rw [h p (List.mem_flatMap.mpr ⟨u, hu, hp⟩)]
    rfl
  rw [SentAu.delivered, hall, SentAu.nals]

theorem nals_ne_nil (k : Packing) : k.nals ≠ [] := by
  cases k with
  | single n => simp [Packing.nals]
  | stapA a => exact a.nonempty
  | fuA f => simp [Packing.nals]

theorem annexB_pos (au : SentAu) : 0 < (annexB au.nals).length := by
  obtain ⟨u, us, hu⟩ := List.exists_cons_of_ne_nil au.nonempty
  obtain ⟨n, ns, hn⟩ := List.exists_cons_of_ne_nil (nals_ne_nil u.packing)
  rw [SentAu.nals, hu, List.flatMap_cons, hn, List.cons_append, annexB_cons, List.length_append,
    Nal.annexB, List.length_append]
  exact Nat.lt_of_lt_of_le (by decide : 0 < startCode.length) (by omega)

theorem reports {au : SentAu} (hsurv : ∃ p ∈ au.packets, p.lost = false)
    {y : AuEvent × List UInt8}
    (h : Depacketizer.Owed au.ts (!au.lastLost) (Assembly.feed ({}, 0) au.packets).1
      (Assembly.feed ({}, 0) au.packets).2 y) : Reports au y := by
  obtain ⟨hwhole, -, -, hbound, hpos⟩ := Assembly.feed_units au.units Assembly.counted_empty
  have hdata : y.2 = annexB au.delivered := h.data.trans hwhole
  have hlost := Assembly.feed_lost au.packets {} 0
  rw [Nat.zero_add] at hlost
  have hlostPackets : y.1.lostPackets = au.packets.countP Sent.lost := h.lostPackets.trans hlost
  have hfrag : y.1.lostFragments ≤ au.units.countP SentUnit.broken := by
    rw [h.lostFragments]
    exact Nat.le_trans hbound (Nat.le_of_eq (Nat.zero_add _))
  obtain ⟨p, hp, hrec⟩ := hsurv
  obtain ⟨r, hr⟩ : ∃ r, p.fate = some r := by
    cases hf : p.fate with
    | none => rw [Sent.lost_none hf] at hrec; cases hrec
    | some r => exact ⟨r, rfl⟩
  have hmem : r ∈ au.arrived := List.mem_filterMap.mpr ⟨p, hp, hr⟩
  have hne : au.arrived ≠ [] := List.ne_nil_of_mem hmem
  exact {
    data := hdata
    bytes := by rw [hdata, h.bytes, ← h.data, hdata]
    rtpTs := h.rtpTs
    complete := by
      rw [h.complete, hlost]
      refine ⟨fun hc q hq => ?_, fun hall => ?_⟩
      · simp only [Bool.and_eq_true, beq_iff_eq] at hc
        exact Bool.eq_false_iff.mpr (List.countP_eq_zero.mp hc.1.1.2 q hq)
      · have hcount : au.packets.countP Sent.lost = 0 :=
          List.countP_eq_zero.mpr fun q hq => by simp [hall q hq]
        have hbroken : au.units.countP SentUnit.broken = 0 := by
          refine List.countP_eq_zero.mpr fun u hu => ?_
          have hu' : u.packets.any Sent.lost = false := List.any_eq_false.mpr fun q hq => by
            simp [hall q (List.mem_flatMap.mpr ⟨u, hu, hq⟩)]
          simp [SentUnit.broken, hu']
        have hlast : au.lastLost = false := by
          rw [SentAu.lastLost, List.getLast?_eq_some_getLast (List.ne_nil_of_mem hp)]
          exact hall _ (List.getLast_mem _)
        have hpartials : (Assembly.feed ({}, 0) au.packets).1.partials = 0 := by
          rw [← h.lostFragments]
          omega
        have hlen : 0 < (Assembly.feed ({}, 0) au.packets).1.whole.length := by
          rw [← h.data, hdata, delivered_whole hall]
          exact annexB_pos au
        rw [hlast, hcount, hpartials, decide_eq_true hlen]
        rfl
    packets := by rw [h.packets, Assembly.feed_packets]; exact Nat.zero_add _
    lostPackets := hlostPackets
    lostFragments_le := hfrag
    lostFragments_pos := by
      refine ⟨fun hpos' => ?_, fun hb => ?_⟩
      · exact List.countP_pos_iff.mp (Nat.lt_of_lt_of_le hpos' hfrag)
      · rw [h.lostFragments]
        exact hpos hb
    isIdr := by
      rw [h.isIdr, Assembly.feed_idr]
      simp
    damaged := h.damaged
    firstArrival := by
      rw [h.firstArrival, Assembly.feed_firstArrival, if_pos rfl, ← SentAu.arrived,
        List.head?_eq_some_head hne]
      rfl
    lastArrival := by
      rw [h.lastArrival, Assembly.feed_lastArrival, ← SentAu.arrived,
        List.getLast?_eq_some_getLast hne]
      rfl }

/-! ## The stream -/

namespace SentAu

theorem ended_cons {au : SentAu} (h : au.lastLost = false) (rest : List SentAu) :
    ended (au :: rest) = au :: ended rest := by
  cases rest with
  | nil => simp [ended, h]
  | cons b rest => rfl

theorem ended_lost {au : SentAu} (h : au.lastLost = true) : ended [au] = [] := by
  simp [ended, h]

end SentAu

def Follows (a b : SentAu) : Prop :=
  a.ts ≠ b.ts ∧ ¬(a.lastLost = true ∧ b.firstLost = true)

theorem follows_of_chains {aus : List SentAu} (hts : aus.IsChain fun a b => a.ts ≠ b.ts)
    (hends : aus.IsChain fun a b => ¬(a.lastLost = true ∧ b.firstLost = true)) :
    aus.IsChain Follows := by
  rw [List.isChain_iff_getElem] at hts hends ⊢
  exact fun i hi => ⟨hts i hi, hends i hi⟩

/-- What one access unit must satisfy for its report to be exact. -/
structure Receivable (cap : Nat) (au : SentAu) : Prop where
  survives : ∃ p ∈ au.packets, p.lost = false
  gaps : Gapped 0 au.packets
  room : (au.packets.map fun p => p.piece.size).sum ≤ cap

namespace Depacketizer

variable {cap : Nat}

theorem feed_survives {ps : List Sent} (h : ∃ p ∈ ps, p.lost = false) :
    (Assembly.feed ({}, 0) ps).1.packets ≠ 0 := by
  obtain ⟨p, hp, hrec⟩ := h
  rw [Assembly.feed_packets, Nat.zero_add]
  intro hn
  have hnil := List.length_eq_zero_iff.mp hn
  have hf : p.fate = none := List.filterMap_eq_nil_iff.mp hnil p hp
  rw [Sent.lost_none hf] at hrec
  cases hrec

/-- Before the next access unit: none is open, or the one whose end was lost. -/
inductive Between (d : Depacketizer cap) (next : UInt16) (stale : Nat) : List SentAu → Prop
  | closed (h : Outside d next 0 stale) : Between d next stale []
  | opened {au : SentAu} (hau : Receivable cap au) (hlost : au.lastLost = true)
      (h : Inside d au.ts next (Assembly.feed ({}, 0) au.packets).1
        (Assembly.feed ({}, 0) au.packets).2 stale) : Between d next stale [au]

/-- Every access unit that is over has its report, and nothing else was emitted. -/
structure Reported (r : Depacketizer cap × List (AuEvent × List UInt8)) (aus : List SentAu)
    (stale : Nat) : Prop where
  events : List.Forall₂ Reports (SentAu.ended aus) r.2
  lateOrDup : r.1.lateOrDup = stale
  seqResets : r.1.seqResets = 0

/-- One more access unit, from where none is open. -/
theorem between_outside {d : Depacketizer cap} {s : UInt16} {stale : Nat} (h : Outside d s 0 stale)
    {au : SentAu} (hau : Receivable cap au) (hseq : Consecutive s au.packets) :
    ∃ d' xs prev, d.receiveAll (au.packets.flatMap Sent.arrivals) = (d', xs) ∧
      Between d' (s + UInt16.ofNat au.packets.length)
        (stale + (au.packets.map Sent.staleCount).sum) prev ∧
      (prev = [] ∨ prev = [au]) ∧
      ∀ rest ys, List.Forall₂ Reports (SentAu.ended (prev ++ rest)) ys →
        List.Forall₂ Reports (SentAu.ended (au :: rest)) (xs ++ ys) := by
  have hleft := run_outside hau.survives h au.marked au.stamped hseq hau.gaps hau.room
  cases hlost : au.lastLost with
  | true =>
    obtain ⟨hxs, hin⟩ := hleft.opened hlost
    exact ⟨_, _, [au], rfl, .opened hau hlost hin, .inr rfl, fun rest ys hys => by
      rw [hxs]
      exact hys⟩
  | false =>
    obtain ⟨⟨y, hxs, howed⟩, hout⟩ := hleft.closed hlost
    refine ⟨_, _, [], rfl, .closed hout, .inl rfl, fun rest ys hys => ?_⟩
    rw [hxs, SentAu.ended_cons hlost]
    exact .cons (reports hau.survives (by rw [hlost]; exact howed)) hys

/-- The first packet of an access unit, where the end of the one before is lost. -/
theorem receiveAll_next {d : Depacketizer cap} {prev au : SentAu} {s : UInt16} {stale : Nat}
    (hprev : Receivable cap prev) (hlost : prev.lastLost = true)
    (h : Inside d prev.ts s (Assembly.feed ({}, 0) prev.packets).1
      (Assembly.feed ({}, 0) prev.packets).2 stale)
    (hau : Receivable cap au) (hfollows : Follows prev au) (hseq : Consecutive s au.packets) :
    ∃ d' x, Outside d' s 0 stale ∧ Reports prev x ∧
      ∀ qs, d.receiveAll (au.packets.flatMap Sent.arrivals ++ qs) =
        ((d'.receiveAll (au.packets.flatMap Sent.arrivals ++ qs)).1,
          x :: (d'.receiveAll (au.packets.flatMap Sent.arrivals ++ qs)).2) := by
  obtain ⟨p, ps, hps⟩ : ∃ p ps, au.packets = p :: ps := by
    obtain ⟨p, hp, -⟩ := hau.survives
    exact List.exists_cons_of_ne_nil (List.ne_nil_of_mem hp)
  have hfirst : p.lost = false := by
    have hf : au.firstLost = false := by simpa [hlost] using hfollows.2
    rw [SentAu.firstLost, hps] at hf
    exact hf
  obtain ⟨r, hr⟩ : ∃ r, p.fate = some r := by
    cases hf : p.fate with
    | none => rw [Sent.lost_none hf] at hfirst; cases hfirst
    | some r => exact ⟨r, rfl⟩
  have hts : p.header.ts = au.ts := au.stamped p (by
    show p ∈ au.packets
    rw [hps]
    exact List.mem_cons_self)
  have hroom := hau.room
  rw [hps, List.map_cons, List.sum_cons] at hroom
  rw [hps] at hseq ⊢
  obtain ⟨d', x, hrec, hout, howed⟩ := receive_next h (gapped_feed hprev.gaps)
    (feed_survives hprev.survives) hseq.1 (fun hn => hfollows.1 (hn.symm.trans hts)) p.carries
    (by omega) r.arrival
  refine ⟨d', x, hout, reports hprev.survives (by rw [hlost]; exact howed), fun qs => ?_⟩
  rw [List.flatMap_cons, Sent.arrivals, hr]
  simp only [List.cons_append, receiveAll, hrec]

theorem run_stream (aus : List SentAu) {prev : List SentAu} {d : Depacketizer cap} {s : UInt16}
    {stale : Nat} (h : Between d s stale prev) (hau : ∀ au ∈ aus, Receivable cap au)
    (hchain : (prev ++ aus).IsChain Follows) (hseq : Consecutive s (aus.flatMap SentAu.packets)) :
    Reported (d.receiveAll ((aus.flatMap SentAu.packets).flatMap Sent.arrivals)) (prev ++ aus)
      (stale + ((aus.flatMap SentAu.packets).map Sent.staleCount).sum) := by
  induction aus generalizing prev d s stale with
  | nil =>
    cases h with
    | closed h => exact ⟨.nil, h.seq.lateOrDup, h.seq.seqResets⟩
    | opened hau hlost h =>
      refine ⟨?_, h.seq.lateOrDup, h.seq.seqResets⟩
      rw [List.append_nil, SentAu.ended_lost hlost]
      exact .nil
  | cons au rest ih =>
    rw [List.flatMap_cons] at hseq ⊢
    obtain ⟨hseq, hseq'⟩ := consecutive_append hseq
    have hau' := hau au List.mem_cons_self
    rw [List.flatMap_append, List.map_append, List.sum_append, ← Nat.add_assoc]
    -- where no access unit is open
    have houtside : ∀ {d : Depacketizer cap}, Outside d s 0 stale → (au :: rest).IsChain Follows →
        Reported (d.receiveAll (au.packets.flatMap Sent.arrivals ++
          (rest.flatMap SentAu.packets).flatMap Sent.arrivals)) (au :: rest)
          (stale + (au.packets.map Sent.staleCount).sum +
            ((rest.flatMap SentAu.packets).map Sent.staleCount).sum) := by
      intro d hd hchain
      obtain ⟨d', xs, prev, hrec, hbetween, hprev, hreports⟩ := between_outside hd hau' hseq
      have hchain' : (prev ++ rest).IsChain Follows := by
        rcases hprev with rfl | rfl
        · exact hchain.tail
        · exact hchain
      have hrest := ih hbetween (fun b hb => hau b (List.mem_cons_of_mem au hb)) hchain' hseq'
      rw [receiveAll_append, hrec]
      exact ⟨hreports rest _ hrest.events, hrest.lateOrDup, hrest.seqResets⟩
    cases h with
    | closed h => exact houtside h hchain
    | opened hprev hlost h =>
      obtain ⟨hfollows, hchain⟩ := List.isChain_cons_cons.mp hchain
      obtain ⟨d', x, hout, hreport, hrec⟩ := receiveAll_next hprev hlost h hau' hfollows hseq
      have hrest := houtside hout hchain
      rw [hrec]
      exact ⟨.cons hreport hrest.events, hrest.lateOrDup, hrest.seqResets⟩

/-! ## The first packet -/

theorem push_first (bufs : AuBuffers cap) (q : RtpHeader) (arrival : Int) :
    ({ buf := bufs } : Depacketizer cap).push q arrival =
      ({ buf := bufs, haveSeq := true, lastSeq := q.seq - 1 } : Depacketizer cap).push q
        arrival := by
  have hseq : InSequence ({ buf := bufs, haveSeq := true, lastSeq := q.seq - 1 } :
      Depacketizer cap) q.seq 0 0 := ⟨rfl, by simp, rfl, rfl⟩
  rw [push_accept hseq (Nat.zero_le _) rfl]
  rfl

theorem receiveAll_first (bufs : AuBuffers cap) {s : SentStream} {au : SentAu}
    {rest : List SentAu} (haus : s.aus = au :: rest) (hau : ∃ p ∈ au.packets, p.lost = false)
    (hfirst : au.firstLost = false) :
    ({ buf := bufs } : Depacketizer cap).receiveAll s.arrivals =
      ({ buf := bufs, haveSeq := true, lastSeq := s.seq - 1 } : Depacketizer cap).receiveAll
        s.arrivals := by
  obtain ⟨p, ps, hps⟩ : ∃ p ps, au.packets = p :: ps := by
    obtain ⟨p, hp, -⟩ := hau
    exact List.exists_cons_of_ne_nil (List.ne_nil_of_mem hp)
  rw [SentAu.firstLost, hps] at hfirst
  obtain ⟨r, hr⟩ : ∃ r, p.fate = some r := by
    cases hf : p.fate with
    | none => rw [List.head?_cons, Option.any_some, Sent.lost_none hf] at hfirst; cases hfirst
    | some r => exact ⟨r, rfl⟩
  have hseq := s.consecutive
  rw [haus, List.flatMap_cons, hps, List.cons_append] at hseq
  rw [SentStream.arrivals, SentStream.packets, haus, List.flatMap_cons, hps, List.cons_append,
    List.flatMap_cons, Sent.arrivals, hr, List.cons_append, receiveAll, receiveAll, receive,
    receive, push_first, hseq.1]

/-- The events of a stream are those of its access units, whatever is lost of
each and whatever stale packets arrive in between. -/
theorem depacketizer_exact (bufs : AuBuffers cap) (s : SentStream) (hloss : ShortLosses s.aus)
    (hfit : ∀ au ∈ s.aus, (au.nals.map fun n => 4 + n.bytes.length).sum ≤ cap) :
    let r := ({ buf := bufs } : Depacketizer cap).receiveAll s.arrivals
    List.Forall₂ Reports (SentAu.ended s.aus) r.2 ∧
      r.1.lateOrDup = (s.packets.map Sent.staleCount).sum ∧ r.1.seqResets = 0 := by
  have hau : ∀ au ∈ s.aus, Receivable cap au := fun au hau =>
    { survives := hloss.survives au hau
      gaps := @gapped_of_runs au.packets [] (fun _ hp => by cases hp) (hloss.short au hau)
      room := by rw [au.size_packets]; exact hfit au hau }
  have hchain : s.aus.IsChain Follows := follows_of_chains s.stamps hloss.inside
  cases haus : s.aus with
  | nil =>
    have harr : s.arrivals = [] := by rw [SentStream.arrivals, SentStream.packets, haus]; rfl
    have hpackets : s.packets = [] := by rw [SentStream.packets, haus]; rfl
    rw [harr, hpackets]
    exact ⟨.nil, rfl, rfl⟩
  | cons au rest =>
    have hmem : au ∈ s.aus := by rw [haus]; exact List.mem_cons_self
    have hfirst : au.firstLost = false := hloss.first au (by rw [haus]; rfl)
    have hstart : Between ({ buf := bufs, haveSeq := true, lastSeq := s.seq - 1 } :
        Depacketizer cap) s.seq 0 [] := .closed ⟨⟨rfl, by simp, rfl, rfl⟩, rfl⟩
    have hrun := run_stream s.aus hstart hau hchain s.consecutive
    rw [Nat.zero_add, List.nil_append] at hrun
    rw [receiveAll_first bufs haus (hau au hmem).survives hfirst, ← haus]
    exact ⟨hrun.events, hrun.lateOrDup, hrun.seqResets⟩

end Depacketizer

/-! A stream of three access units: a fragment of the first and the end of the
second are lost, and the first packet arrives twice. -/

def packet (piece : Piece) (seq : UInt16) (ts : UInt32) (marker : UInt8) (arrival : Option Int) :
    Sent where
  piece := piece
  header :=
    { pt := 96, marker := marker, cc := 0, x := 0, p := 0, seq := seq, ts := ts, ssrc := 1
      hdrLen := 12, padLen := 0, payload := piece.payload }
  fate := arrival.map fun t => ⟨t, []⟩
  carries := rfl
  behind r hr q hq := by
    cases arrival with
    | none => cases hr
    | some t => cases hr; cases hq

def twice (p : Sent) (arrival again : Int) : Sent where
  piece := p.piece
  header := p.header
  fate := some ⟨arrival, [(p.header, again)]⟩
  carries := p.carries
  behind r hr q hq := by
    cases hr
    cases List.mem_singleton.mp hq
    exact ⟨0, Nat.zero_le _, (UInt16.sub_zero _).symm⟩

def spsNal : Nal := ⟨0x67, [1], by decide, by decide⟩

def ppsNal : Nal := ⟨0x68, [2, 3], by decide, by decide⟩

def idrNal : Nal := ⟨0x65, [4, 5, 6], by decide, by decide⟩

def sliceNal : Nal := ⟨0x41, [7], by decide, by decide⟩

def parameterSets : Aggregate where
  indicator := 0x78
  nals := [spsNal, ppsNal]
  stapA := by decide
  nonempty := by decide
  sizes := by decide

def idrInThree : Fragmented := ⟨idrNal, [4], [[5]], [6], rfl⟩

def firstAu : SentAu where
  ts := 3000
  units :=
    [⟨.stapA parameterSets, [twice (packet (.stapA parameterSets) 65534 3000 0 none) 10 11], rfl⟩,
      ⟨.fuA idrInThree,
        [packet (.fuA idrNal true false [4]) 65535 3000 0 (some 20),
          packet (.fuA idrNal false false [5]) 0 3000 0 none,
          packet (.fuA idrNal false true [6]) 1 3000 1 (some 30)], rfl⟩]
  nonempty := by decide
  stamped := by decide
  marked := by decide

def secondAu : SentAu where
  ts := 6000
  units :=
    [⟨.single sliceNal, [packet (.single sliceNal) 2 6000 0 (some 40)], rfl⟩,
      ⟨.single sliceNal, [packet (.single sliceNal) 3 6000 1 none], rfl⟩]
  nonempty := by decide
  stamped := by decide
  marked := by decide

def thirdAu : SentAu where
  ts := 9000
  units := [⟨.single sliceNal, [packet (.single sliceNal) 4 9000 1 (some 50)], rfl⟩]
  nonempty := by decide
  stamped := by decide
  marked := by decide

def lossyStream : SentStream where
  aus := [firstAu, secondAu, thirdAu]
  seq := 65534
  consecutive := by decide
  stamps := by decide

theorem lossyStream_losses : ShortLosses lossyStream.aus where
  first := by decide
  inside := by decide
  survives := by decide
  short au hau run hrun _ := by
    have hlen : ∀ au ∈ lossyStream.aus, au.packets.length ≤ 2999 := by decide
    exact Nat.le_trans hrun.length_le (hlen au hau)

theorem depacketizer_exact_lossyStream :
    let r := ({ buf := AuBuffers.zeroed 64 } : Depacketizer 64).receiveAll lossyStream.arrivals
    List.Forall₂ Reports [firstAu, secondAu, thirdAu] r.2 ∧ r.1.lateOrDup = 1 ∧
      r.1.seqResets = 0 :=
  Depacketizer.depacketizer_exact (AuBuffers.zeroed 64) lossyStream lossyStream_losses (by decide)

end P5G
