import P5G.Rtp.AnyNetwork

/-!
# Runs of lost packets

Where no run of lost packets is longer than what counts as progress, the
groups of a stream are the access units of which something was received, one
group each and in order, even where a run covers the end of one, whole others
and the beginning of a third.
-/

namespace P5G

namespace SentAu

def received (au : SentAu) : Bool := au.packets.any fun p => !p.lost

theorem received_iff {au : SentAu} : au.received = true ↔ ∃ p ∈ au.packets, p.lost = false := by
  simp [received]

theorem not_received {au : SentAu} (h : au.received = false) : ∀ p ∈ au.packets, p.lost = true := by
  simpa [received] using h

end SentAu

theorem fate_none {p : Sent} (h : p.lost = true) : p.fate = none := by
  cases hf : p.fate with
  | none => rfl
  | some r =>
    rw [Sent.lost_some hf] at h
    cases h

theorem Alike.trans {es fs gs : List Entry} (h : Alike es fs) (h' : Alike fs gs) :
    Alike es gs := by
  cases es with
  | nil =>
    cases fs with
    | nil => exact h'
    | cons y fs => exact h.elim
  | cons x es =>
    cases fs with
    | nil => exact h.elim
    | cons y fs =>
      cases gs with
      | nil => exact h'.elim
      | cons z gs => exact ⟨h.1.trans h'.1, h.2.trans h'.2⟩

theorem gapped_append {ps qs : List Sent} {g : Nat} (h : Gapped g (ps ++ qs)) :
    Gapped g ps ∧ Gapped (trailing g ps) qs := by
  induction ps generalizing g with
  | nil =>
    refine ⟨?_, h⟩
    show g ≤ 2999
    induction qs generalizing g with
    | nil => exact h
    | cons q qs ih =>
      rw [List.nil_append, Gapped] at h
      split at h
      · exact Nat.le_of_succ_le (ih h)
      · exact h.1
  | cons p ps ih =>
    rw [List.cons_append, Gapped] at h
    by_cases hp : p.lost = true
    · rw [if_pos hp] at h
      rw [Gapped, if_pos hp, trailing, if_pos hp]
      exact ih h
    · rw [if_neg hp] at h
      obtain ⟨hps, hqs⟩ := ih h.2
      rw [Gapped, if_neg hp, trailing, if_neg hp]
      exact ⟨⟨h.1, hps⟩, hqs⟩

theorem gapped_received {ps : List Sent} (h : ∀ p ∈ ps, p.lost = false) :
    Gapped 0 ps ∧ trailing 0 ps = 0 := by
  induction ps with
  | nil => exact ⟨Nat.zero_le _, rfl⟩
  | cons p ps ih =>
    have hp := h p List.mem_cons_self
    obtain ⟨hgap, htrail⟩ := ih fun q hq => h q (List.mem_cons_of_mem p hq)
    rw [Gapped, if_neg (by simp [hp]), trailing, if_neg (by simp [hp])]
    exact ⟨⟨Nat.zero_le _, hgap⟩, htrail⟩

theorem pieces_ne_nil (k : Packing) : k.pieces ≠ [] := by
  cases k <;> simp [Packing.pieces]

theorem SentAu.packets_ne_nil (au : SentAu) : au.packets ≠ [] := by
  obtain ⟨u, us, hu⟩ := List.exists_cons_of_ne_nil au.nonempty
  intro hnil
  rw [packets, hu, List.flatMap_cons] at hnil
  have hcut := u.cut
  rw [(List.append_eq_nil_iff.mp hnil).1] at hcut
  exact pieces_ne_nil u.packing hcut.symm

/-! ## Packets in sequence -/

theorem judge_behind (l : UInt16) {k : Nat} (hk : k ≤ 100) :
    judge (some l) (l - UInt16.ofNat k) = .stale := by
  have hstep := Depacketizer.toInt16_behind l hk
  simp only [judge, hstep, maxMisorder]
  exact if_pos (by omega)

namespace Grouping

/-- The last accepted packet is `g + 1` before packet `next`. -/
def Awaits (r : Grouping) (next : UInt16) (g : Nat) : Prop :=
  ∃ l, r.last = some l ∧ l + 1 + UInt16.ofNat g = next

theorem Awaits.lost {r : Grouping} {next : UInt16} {g : Nat} (h : r.Awaits next g) (n : Nat) :
    r.Awaits (next + UInt16.ofNat n) (g + n) := by
  obtain ⟨l, hl, rfl⟩ := h
  refine ⟨l, hl, ?_⟩
  rw [UInt16.ofNat_add, ← UInt16.add_assoc]

theorem awaits_after (x : Entry) (es : List Entry) :
    (after x es).Awaits (x.packet.seq + 1) 0 :=
  ⟨x.packet.seq, rfl, UInt16.add_zero _⟩

/-- Stale packets change nothing. -/
theorem receiveAll_stale {r : Grouping} {l : UInt16} (h : r.last = some l)
    (qs : List (RtpHeader × Int)) (hqs : ∀ q ∈ qs, ∃ k ≤ 100, q.1.seq = l - UInt16.ofNat k) :
    r.receiveAll qs = (r, []) := by
  induction qs with
  | nil => rfl
  | cons q qs ih =>
    obtain ⟨k, hk, hq⟩ := hqs q List.mem_cons_self
    have hin : r.intake q = none := by rw [intake, h, hq, judge_behind l hk]
    rw [receiveAll, intake_none hin, ih fun p hp => hqs p (List.mem_cons_of_mem q hp)]
    rfl

/-- A received packet and the stale ones behind it. -/
theorem receiveAll_arrivals {r : Grouping} {p : Sent} {t : Received} (hp : p.fate = some t)
    {i : Intake} (hi : r.intake (p.header, t.arrival) = some i) :
    r.receiveAll p.arrivals = (after i.entry (i.entries ++ [i.entry]),
      i.ended ++ endedBy i.entry (i.entries ++ [i.entry])) := by
  have hentry : i.entry.packet = p.header := (intake_entry hi).1
  have hstale := receiveAll_stale (r := after i.entry (i.entries ++ [i.entry])) rfl t.stale
    (hentry ▸ p.behind t hp)
  rw [Sent.arrivals, hp]
  show r.receiveAll ((p.header, t.arrival) :: t.stale) = _
  rw [receiveAll, intake_some hi, hstale, List.append_nil]

structure Leaves (x : Grouping × List Group) (ts : UInt32) (next : UInt16) (es : List Entry)
    (g : Nat) (lost : Bool) : Prop where
  awaits : x.1.Awaits next g
  opened : lost = true → x.2 = [] ∧ x.1.current = some (ts, es)
  closed : lost = false → x.2 = [⟨ts, es, 0, true⟩] ∧ x.1.current = none

/-- The rest of an access unit that is open. -/
theorem run_inside {ps : List Sent} (hne : ps ≠ []) {r : Grouping} {ts : UInt32} {s : UInt16}
    {es : List Entry} {g : Nat} (hr : r.Awaits s g) (hcur : r.current = some (ts, es))
    (hmark : Marked ps) (hts : ∀ p ∈ ps, p.header.ts = ts) (hseq : Consecutive s ps)
    (hgap : Gapped g ps) :
    Leaves (r.receiveAll (ps.flatMap Sent.arrivals)) ts (s + UInt16.ofNat ps.length)
      (es ++ replay g ps) (trailing g ps) (ps.getLast?.any Sent.lost) := by
  induction ps generalizing r s es g with
  | nil => exact absurd rfl hne
  | cons p ps ih =>
    have hnext : s + UInt16.ofNat (p :: ps).length = s + 1 + UInt16.ofNat ps.length :=
      add_ofNat_succ s ps.length
    have hpts := hts p List.mem_cons_self
    have hrest : ∀ q ∈ ps, q.header.ts = ts := fun q hq => hts q (List.mem_cons_of_mem p hq)
    rw [Gapped] at hgap
    rw [hnext, List.flatMap_cons, receiveAll_append]
    cases hp : p.fate with
    | none =>
      have hlost : p.lost = true := Sent.lost_none hp
      have hr' : r.Awaits (s + 1) (g + 1) := hr.lost 1
      rw [if_pos hlost] at hgap
      rw [Sent.arrivals_none hp, replay_none hp, trailing_none hp]
      show Leaves ((r.receiveAll _).1, [] ++ (r.receiveAll _).2) _ _ _ _ _
      by_cases hnil : ps = []
      · subst hnil
        refine ⟨?_, fun _ => ⟨rfl, ?_⟩, fun hl => ?_⟩
        · simpa [receiveAll, trailing] using hr'
        · simpa [receiveAll, replay] using hcur
        · simp [hlost] at hl
      · rw [List.getLast?_cons_of_ne_nil hnil]
        exact ih hnil hr' hcur hmark.2 hrest hseq.2 hgap
    | some t =>
      have hlost : p.lost = false := Sent.lost_some hp
      rw [if_neg (by simp [hlost])] at hgap
      obtain ⟨l, hl, hls⟩ := hr
      have hin : r.intake (p.header, t.arrival) =
          some ⟨[], es, ⟨p.header, t.arrival, g⟩⟩ := by
        rw [intake, hl, judge_ahead (hls.trans hseq.1.symm) hgap.1]
        simp only [hcur, hpts, ↓reduceIte]
      rw [receiveAll_arrivals hp hin, replay_some hp, trailing_some hp]
      have hawaits := awaits_after ⟨p.header, t.arrival, g⟩ (es ++ [⟨p.header, t.arrival, g⟩])
      have hps : p.header.seq + 1 = s + 1 := congrArg (· + 1) hseq.1
      rw [show (Entry.mk p.header t.arrival g).packet.seq + 1 = s + 1 from hps] at hawaits
      by_cases hnil : ps = []
      · subst hnil
        have hm : p.header.marker ≠ 0 := fun hm => hmark.1.mp hm rfl
        refine ⟨?_, fun hl => ?_, fun _ => ⟨?_, ?_⟩⟩
        · simpa [receiveAll, trailing] using hawaits
        · simp [hlost] at hl
        · simp [receiveAll, endedBy, hm, hpts, replay]
        · simp [receiveAll, after, hm]
      · have hm : p.header.marker = 0 := hmark.1.mpr hnil
        have hafter : (after ⟨p.header, t.arrival, g⟩ (es ++ [⟨p.header, t.arrival, g⟩])).current =
            some (ts, es ++ [⟨p.header, t.arrival, g⟩]) := by
          simp only [after, hm, hpts, ↓reduceIte]
        have hleaves := ih hnil hawaits hafter hmark.2 hrest hseq.2 hgap.2
        rw [List.getLast?_cons_of_ne_nil hnil, endedBy, if_pos hm]
        rw [List.append_assoc] at hleaves
        exact hleaves

/-- The first received packet of an access unit ends what was open before. -/
theorem intake_first {r : Grouping} {ts : UInt32} {s : UInt16} {g : Nat}
    (hr : r.last = none ∨ r.Awaits s g) (hcur : ∀ x ∈ r.current, x.1 ≠ ts)
    (hg : g ≤ 2999) {h : RtpHeader} (hts : h.ts = ts) (hseq : h.seq = s) (arrival : Int) :
    ∃ tail k, k ≤ g ∧ r.intake (h, arrival) = some ⟨r.cut tail, [], ⟨h, arrival, k⟩⟩ := by
  have hjudge : ∃ k ≤ g, judge r.last h.seq = .progress k := by
    rcases hr with hr | ⟨l, hl, hls⟩
    · exact ⟨0, Nat.zero_le g, by rw [hr]; rfl⟩
    · exact ⟨g, Nat.le_refl g, by rw [hl]; exact judge_ahead (hls.trans hseq.symm) hg⟩
  obtain ⟨k, hle, hk⟩ := hjudge
  cases hc : r.current with
  | none =>
    refine ⟨0, k, hle, ?_⟩
    rw [intake, hk, cut]
    simp only [hc]
  | some x =>
    have hne : h.ts ≠ x.1 := fun hn => hcur x hc (hn.symm.trans hts)
    refine ⟨k, 0, Nat.zero_le g, ?_⟩
    rw [intake, hk, cut]
    simp only [hc, hne, ↓reduceIte]

/-- An access unit of which something is received. -/
theorem run_outside {ps : List Sent} (hrec : ∃ p ∈ ps, p.lost = false) {r : Grouping}
    {ts : UInt32} {s : UInt16} {g : Nat} (hr : r.last = none ∨ r.Awaits s g)
    (hcur : ∀ x ∈ r.current, x.1 ≠ ts)
    (hmark : Marked ps) (hts : ∀ p ∈ ps, p.header.ts = ts)
    (hseq : Consecutive s ps) (hgap : Gapped g ps) :
    ∃ tail es x, r.receiveAll (ps.flatMap Sent.arrivals) = (x.1, r.cut tail ++ x.2) ∧
      Leaves x ts (s + UInt16.ofNat ps.length) es (trailing g ps) (ps.getLast?.any Sent.lost) ∧
      Alike es (replay 0 ps) ∧ ((∀ p ∈ ps, p.lost = false) → g = 0 → es = replay 0 ps) := by
  induction ps generalizing s g with
  | nil => simp at hrec
  | cons p ps ih =>
    have hnext : s + UInt16.ofNat (p :: ps).length = s + 1 + UInt16.ofNat ps.length :=
      add_ofNat_succ s ps.length
    have hpts := hts p List.mem_cons_self
    have hrest : ∀ q ∈ ps, q.header.ts = ts := fun q hq => hts q (List.mem_cons_of_mem p hq)
    rw [Gapped] at hgap
    cases hp : p.fate with
    | none =>
      have hlost : p.lost = true := Sent.lost_none hp
      rw [if_pos hlost] at hgap
      have hrec' : ∃ q ∈ ps, q.lost = false := by simpa [hlost] using hrec
      have hnil : ps ≠ [] := by
        rintro rfl
        simp at hrec'
      obtain ⟨tail, es, x, hrun, hleaves, halike, -⟩ :=
        ih hrec' (hr.imp id fun h => h.lost 1) hmark.2 hrest hseq.2 hgap
      rw [hnext, List.flatMap_cons, Sent.arrivals_none hp, trailing_none hp, replay_none hp,
        List.getLast?_cons_of_ne_nil hnil]
      refine ⟨tail, es, x, hrun, hleaves, halike.trans (alike_replay ps 0 1), fun hall => ?_⟩
      have hreceived := hall p List.mem_cons_self
      rw [hlost] at hreceived
      cases hreceived
    | some t =>
      have hlost : p.lost = false := Sent.lost_some hp
      rw [if_neg (by simp [hlost])] at hgap
      obtain ⟨tail, k, hk, hin⟩ := intake_first hr hcur hgap.1 hpts hseq.1 t.arrival
      rw [hnext, List.flatMap_cons, receiveAll_append, receiveAll_arrivals hp hin,
        trailing_some hp, replay_some hp]
      have hawaits := awaits_after ⟨p.header, t.arrival, k⟩ [⟨p.header, t.arrival, k⟩]
      have hps : p.header.seq + 1 = s + 1 := congrArg (· + 1) hseq.1
      rw [show (Entry.mk p.header t.arrival k).packet.seq + 1 = s + 1 from hps] at hawaits
      refine ⟨tail, ⟨p.header, t.arrival, k⟩ :: replay 0 ps,
        ((receiveAll (after ⟨p.header, t.arrival, k⟩ [⟨p.header, t.arrival, k⟩])
            (ps.flatMap Sent.arrivals)).1,
          endedBy ⟨p.header, t.arrival, k⟩ [⟨p.header, t.arrival, k⟩] ++
            (receiveAll (after ⟨p.header, t.arrival, k⟩ [⟨p.header, t.arrival, k⟩])
              (ps.flatMap Sent.arrivals)).2), ?_, ?_, ⟨rfl, rfl⟩, fun _ hg => ?_⟩
      · rw [List.nil_append, List.append_assoc]
      · by_cases hnil : ps = []
        · subst hnil
          have hm : p.header.marker ≠ 0 := fun hm => hmark.1.mp hm rfl
          refine ⟨?_, fun hl => ?_, fun _ => ⟨?_, ?_⟩⟩
          · simpa [receiveAll, trailing] using hawaits
          · simp [hlost] at hl
          · simp [receiveAll, endedBy, hm, hpts, replay]
          · simp [receiveAll, after, hm]
        · have hm : p.header.marker = 0 := hmark.1.mpr hnil
          have hafter : (after ⟨p.header, t.arrival, k⟩ [⟨p.header, t.arrival, k⟩]).current =
              some (ts, [⟨p.header, t.arrival, k⟩]) := by
            simp only [after, hm, hpts, ↓reduceIte]
          have hleaves := run_inside hnil hawaits hafter hmark.2 hrest hseq.2 hgap.2
          rw [List.getLast?_cons_of_ne_nil hnil, endedBy, if_pos hm]
          exact hleaves
      · rw [hg] at hk
        rw [Nat.le_zero.mp hk]

/-! ## The stream -/

def Bears (au : SentAu) (g : Group) : Prop := g.ts = au.ts ∧ Alike g.entries (replay 0 au.packets)

/-- Before packet `next`, with `g` packets missing since the last accepted one:
no access unit is open, or the one whose end is among them. -/
inductive Before (r : Grouping) (next : UInt16) (g : Nat) : List SentAu → Prop
  | closed (hr : r.last = none ∨ r.Awaits next g) (hcur : r.current = none) : Before r next g []
  | opened {au : SentAu} {es : List Entry} (hr : r.Awaits next g)
      (hcur : r.current = some (au.ts, es)) (halike : Alike es (replay 0 au.packets))
      (hlost : au.lastLost = true) : Before r next g [au]

namespace Before

variable {r : Grouping} {next : UInt16} {g : Nat} {prev : List SentAu}

theorem lost (h : Before r next g prev) (n : Nat) :
    Before r (next + UInt16.ofNat n) (g + n) prev := by
  cases h with
  | closed hr hcur => exact .closed (hr.imp id fun h => h.lost n) hcur
  | opened hr hcur halike hlost => exact .opened (hr.lost n) hcur halike hlost

theorem awaits (h : Before r next g prev) : r.last = none ∨ r.Awaits next g := by
  cases h with
  | closed hr hcur => exact hr
  | opened hr hcur halike hlost => exact .inr hr

theorem current (h : Before r next g prev) {au : SentAu} (hts : ∀ b ∈ prev, b.ts ≠ au.ts) :
    ∀ x ∈ r.current, x.1 ≠ au.ts := by
  intro x hx
  cases h with
  | closed hr hcur =>
    rw [hcur] at hx
    cases hx
  | opened hr hcur halike hlost =>
    rw [hcur] at hx
    cases hx
    exact hts _ List.mem_cons_self

/-- The access unit that is open has its group when the next one begins. -/
theorem cut (h : Before r next g prev) (tail : Nat) : List.Forall₂ Bears prev (r.cut tail) := by
  cases h with
  | closed hr hcur =>
    rw [Grouping.cut, hcur]
    exact .nil
  | opened hr hcur halike hlost =>
    rw [Grouping.cut, hcur]
    exact .cons ⟨rfl, halike⟩ .nil

theorem ended (h : Before r next g prev) (au : SentAu) (rest : List SentAu) :
    SentAu.ended (prev ++ au :: rest) = prev ++ SentAu.ended (au :: rest) := by
  cases h with
  | closed hr hcur => rfl
  | opened hr hcur halike hlost => rfl

theorem ended_prev (h : Before r next g prev) : SentAu.ended prev = [] := by
  cases h with
  | closed hr hcur => rfl
  | opened hr hcur halike hlost => exact SentAu.ended_lost hlost

end Before

/-- Each access unit of which something was received has its group. -/
theorem receiveAll_bears (aus : List SentAu) {prev : List SentAu} {r : Grouping} {s : UInt16}
    {g : Nat} (h : Before r s g prev)
    (hchain : (prev ++ aus.filter SentAu.received).IsChain fun a b => a.ts ≠ b.ts)
    (hseq : Consecutive s (aus.flatMap SentAu.packets))
    (hgap : Gapped g (aus.flatMap SentAu.packets)) :
    List.Forall₂ Bears (SentAu.ended (prev ++ aus.filter SentAu.received))
      (r.receiveAll ((aus.flatMap SentAu.packets).flatMap Sent.arrivals)).2 := by
  induction aus generalizing prev r s g with
  | nil =>
    rw [List.filter_nil, List.append_nil, h.ended_prev]
    exact .nil
  | cons au rest ih =>
    rw [List.flatMap_cons] at hseq hgap ⊢
    obtain ⟨hseq, hseq'⟩ := consecutive_append hseq
    obtain ⟨hgap, hgap'⟩ := gapped_append hgap
    rw [List.flatMap_append, receiveAll_append]
    by_cases hau : au.received = true
    · rw [List.filter_cons_of_pos hau] at hchain ⊢
      have hprev : ∀ b ∈ prev, b.ts ≠ au.ts := by
        intro b hb
        cases h with
        | closed hr hcur => cases hb
        | opened hr hcur halike hlost =>
          obtain rfl := List.mem_singleton.mp hb
          exact (List.isChain_cons_cons.mp hchain).1
      obtain ⟨tail, es, x, hrun, hleaves, halike, -⟩ :=
        run_outside (SentAu.received_iff.mp hau) h.awaits (h.current hprev) au.marked au.stamped
          hseq hgap
      have htail : (au :: rest.filter SentAu.received).IsChain fun a b => a.ts ≠ b.ts :=
        hchain.right_of_append
      rw [hrun, h.ended, List.append_assoc]
      refine List.rel_append (h.cut tail) ?_
      cases hlost : au.lastLost with
      | true =>
        obtain ⟨hnone, hcur⟩ := hleaves.opened hlost
        rw [hnone]
        exact ih (.opened hleaves.awaits hcur halike hlost) htail hseq' hgap'
      | false =>
        obtain ⟨hsome, hcur⟩ := hleaves.closed hlost
        rw [hsome, SentAu.ended_cons hlost]
        exact .cons ⟨rfl, halike⟩ (ih (.closed (.inr hleaves.awaits) hcur) htail.tail hseq' hgap')
    · have hlost := SentAu.not_received (Bool.not_eq_true _ ▸ hau)
      have hnone : ∀ p ∈ au.packets, p.fate = none := fun p hp => fate_none (hlost p hp)
      have harr : au.packets.flatMap Sent.arrivals = [] :=
        List.flatMap_eq_nil_iff.mpr fun p hp => Sent.arrivals_none (hnone p hp)
      rw [List.filter_cons_of_neg hau] at hchain ⊢
      rw [harr]
      rw [(replay_lost hnone g).2] at hgap'
      exact ih (h.lost au.packets.length) hchain hseq' hgap'

/-- Where nothing is lost, each access unit is a group of its own, without gaps. -/
theorem receiveAll_lossless (aus : List SentAu) {r : Grouping} {s : UInt16}
    (hr : r.last = none ∨ r.Awaits s 0) (hcur : r.current = none)
    (hall : ∀ p ∈ aus.flatMap SentAu.packets, p.lost = false)
    (hseq : Consecutive s (aus.flatMap SentAu.packets)) :
    (r.receiveAll ((aus.flatMap SentAu.packets).flatMap Sent.arrivals)).2 =
      aus.map fun au => ⟨au.ts, replay 0 au.packets, 0, true⟩ := by
  induction aus generalizing r s with
  | nil => rfl
  | cons au rest ih =>
    rw [List.flatMap_cons] at hall hseq ⊢
    obtain ⟨hseq, hseq'⟩ := consecutive_append hseq
    have hau : ∀ p ∈ au.packets, p.lost = false := fun p hp =>
      hall p (List.mem_append_left _ hp)
    obtain ⟨hgap, htrail⟩ := gapped_received hau
    obtain ⟨p, hp⟩ := List.exists_mem_of_ne_nil _ au.packets_ne_nil
    obtain ⟨tail, es, x, hrun, hleaves, -, hes⟩ :=
      run_outside ⟨p, hp, hau p hp⟩ hr (by rw [hcur]; rintro x ⟨⟩) au.marked au.stamped hseq hgap
    have hlost : au.packets.getLast?.any Sent.lost = false := by
      rw [List.getLast?_eq_some_getLast au.packets_ne_nil]
      exact hau _ (List.getLast_mem _)
    obtain ⟨hgroup, hcur'⟩ := hleaves.closed hlost
    have hawaits := hleaves.awaits
    rw [htrail] at hawaits
    rw [List.flatMap_append, receiveAll_append, hrun, hgroup, cut, hcur, hes hau rfl,
      ih (.inr hawaits) hcur' (fun q hq => hall q (List.mem_append_right _ hq)) hseq']
    rfl

end Grouping

/-- Only a NAL unit that was cut into fragments can be received in part. -/
theorem fragmented_of_broken {u : SentUnit} (h : u.broken = true) : ∃ f, u.packing = .fuA f := by
  have hone : ∀ k, u.packing.pieces = [k] → False := by
    intro k hk
    have hcut := u.cut
    rw [hk] at hcut
    obtain ⟨p, hp, -⟩ := List.map_eq_singleton_iff.mp hcut
    simp [SentUnit.broken, hp] at h
  cases hk : u.packing with
  | single n => exact (hone _ (by rw [hk]; rfl)).elim
  | stapA a => exact (hone _ (by rw [hk]; rfl)).elim
  | fuA f => exact ⟨f, rfl⟩

theorem mem_of_ended {aus : List SentAu} {au : SentAu} (h : au ∈ SentAu.ended aus) : au ∈ aus := by
  induction aus with
  | nil => exact h
  | cons b rest ih =>
    cases hlost : b.lastLost with
    | false =>
      rw [SentAu.ended_cons hlost] at h
      exact (List.mem_cons.mp h).elim (fun he => he ▸ List.mem_cons_self)
        fun hr => List.mem_cons_of_mem b (ih hr)
    | true =>
      cases rest with
      | nil =>
        rw [SentAu.ended_lost hlost] at h
        cases h
      | cons c rest =>
        exact (List.mem_cons.mp h).elim (fun he => he ▸ List.mem_cons_self)
          fun hr => List.mem_cons_of_mem b (ih hr)

theorem forall₂_through {α β γ : Type*} {R : α → β → Prop} {S : β → γ → Prop} {T : α → γ → Prop}
    {as : List α} {bs : List β} {cs : List γ} (hR : List.Forall₂ R as bs)
    (hS : List.Forall₂ S bs cs) (h : ∀ a ∈ as, ∀ b c, R a b → S b c → T a c) :
    List.Forall₂ T as cs := by
  induction hR generalizing cs with
  | nil =>
    cases hS
    exact .nil
  | cons hab _ ih =>
    cases hS with
    | cons hbc hrest =>
      exact .cons (h _ List.mem_cons_self _ _ hab hbc)
        (ih hrest fun a ha => h a (List.mem_cons_of_mem _ ha))

namespace Depacketizer

variable {cap : Nat}

structure CountsFragments (au : SentAu) (x : AuEvent × List UInt8) : Prop where
  rtpTs : x.1.rtpTs = au.ts
  pos : 1 ≤ x.1.lostFragments ↔ ∃ u ∈ au.units, (∃ f, u.packing = .fuA f) ∧ u.broken = true
  le : x.1.lostFragments ≤ au.units.countP SentUnit.broken

theorem countsFragments {au : SentAu} {g : Group} {x : AuEvent × List UInt8}
    (hfit : (au.nals.map fun n => 4 + n.bytes.length).sum ≤ cap) (hg : Grouping.Bears au g)
    (h : Fits cap g.entries → Shows (gather g.entries) (damages g.entries) g x) :
    CountsFragments au x := by
  obtain ⟨hts, halike⟩ := hg
  have hweight : weight g.entries ≤ cap := by
    rw [halike.weight]
    refine Nat.le_trans (weight_replay au.packets 0) ?_
    rw [au.size_packets]
    exact hfit
  have hshows := h (fits_of_weight hweight)
  have hrec := @recovered au.units _ halike
  refine ⟨hshows.rtpTs.trans hts, ?_, ?_⟩
  · rw [hshows.lostFragments]
    constructor
    · intro hpos
      have hcount := Nat.lt_of_lt_of_le hpos hrec.partials_le
      obtain ⟨u, hu, hb⟩ := List.countP_pos_iff.mp hcount
      exact ⟨u, hu, fragmented_of_broken hb, hb⟩
    · rintro ⟨u, hu, -, hb⟩
      exact hrec.partials_pos ⟨u, hu, hb⟩
  · rw [hshows.lostFragments]
    exact hrec.partials_le

/-- One event for each access unit of which something was received and whose
end is known, and its lost fragments are those NAL units received in part. -/
theorem lost_fragments (bufs : AuBuffers cap) (s : SentStream)
    (hruns : ∀ run, run <:+: s.packets → (∀ p ∈ run, p.lost = true) → run.length ≤ 2999)
    (hstamps : (s.aus.filter SentAu.received).IsChain fun a b => a.ts ≠ b.ts)
    (hfit : ∀ au ∈ s.aus, (au.nals.map fun n => 4 + n.bytes.length).sum ≤ cap) :
    List.Forall₂ CountsFragments (SentAu.ended (s.aus.filter SentAu.received))
      (({ buf := bufs } : Depacketizer cap).receiveAll s.arrivals).2 := by
  have hgap : Gapped 0 s.packets :=
    @gapped_of_runs s.packets [] (fun _ hp => by cases hp) hruns
  have hbears := Grouping.receiveAll_bears s.aus (r := {}) (.closed (.inl rfl) rfl) hstamps
    s.consecutive hgap
  refine forall₂_through hbears (receiveAll_shows bufs s.arrivals) fun au hau g x hg hx => ?_
  exact countsFragments (hfit au (List.mem_of_mem_filter (mem_of_ended hau))) hg hx

end Depacketizer

theorem lossyStream_runs (run : List Sent) (h : run <:+: lossyStream.packets) :
    run.length ≤ 2999 := by
  have hlen : lossyStream.packets.length ≤ 2999 := by decide
  exact Nat.le_trans h.length_le hlen

theorem lost_fragments_lossyStream :
    List.Forall₂ Depacketizer.CountsFragments
      (SentAu.ended (lossyStream.aus.filter SentAu.received))
      (({ buf := AuBuffers.zeroed 64 } : Depacketizer 64).receiveAll lossyStream.arrivals).2 :=
  Depacketizer.lost_fragments (AuBuffers.zeroed 64) lossyStream
    (fun run hrun _ => lossyStream_runs run hrun) (by decide) (by decide)

end P5G
