import P5G.Rtp.Conservation

/-!
# What a run of the depacketizer adds up to

Whatever the packets are, each of them is late, in an access unit that has ended or in the
one that is open, and an access unit's packets have its timestamp.
-/

namespace P5G

namespace Grouping

def Uniform (r : Grouping) : Prop := ∀ x ∈ r.current, ∀ e ∈ x.2, e.packet.ts = x.1

theorem cut_uniform {r : Grouping} (h : Uniform r) (tail : Nat) :
    ∀ g ∈ r.cut tail, ∀ e ∈ g.entries, e.packet.ts = g.ts := by
  intro g hg
  rw [cut] at hg
  cases hc : r.current with
  | none =>
    rw [hc] at hg
    cases hg
  | some x =>
    rw [hc, List.mem_singleton] at hg
    subst hg
    exact h x hc

theorem intake_uniform {r : Grouping} (h : Uniform r) {q : RtpHeader × Int} {i : Intake}
    (hi : r.intake q = some i) :
    (∀ g ∈ i.ended, ∀ e ∈ g.entries, e.packet.ts = g.ts) ∧
      ∀ e ∈ i.entries ++ [i.entry], e.packet.ts = i.entry.packet.ts := by
  have hone : ∀ {x : Entry}, ∀ e ∈ [] ++ [x], e.packet.ts = x.packet.ts := by
    intro x e he
    rw [List.nil_append, List.mem_singleton] at he
    rw [he]
  rw [intake] at hi
  split at hi
  · cases hi
  · cases hi
    exact ⟨cut_uniform h 0, hone⟩
  · split at hi
    · cases hi
      exact ⟨List.forall_mem_nil _, hone⟩
    · next x hc =>
      split at hi
      · next hts =>
        cases hi
        refine ⟨List.forall_mem_nil _, fun e he => ?_⟩
        rw [List.mem_append, List.mem_singleton] at he
        obtain he | rfl := he
        · exact (h x hc e he).trans hts.symm
        · rfl
      · cases hi
        exact ⟨cut_uniform h _, hone⟩

theorem receive_uniform {r : Grouping} (h : Uniform r) (q : RtpHeader × Int) :
    Uniform (r.receive q).1 ∧ ∀ g ∈ (r.receive q).2, ∀ e ∈ g.entries, e.packet.ts = g.ts := by
  cases hi : r.intake q with
  | none =>
    rw [intake_none hi]
    exact ⟨h, List.forall_mem_nil _⟩
  | some i =>
    obtain ⟨hended, hsame⟩ := intake_uniform h hi
    rw [intake_some hi]
    refine ⟨fun x hx => ?_, fun g hg => ?_⟩
    · rw [after] at hx
      by_cases hm : i.entry.packet.marker = 0
      · rw [if_pos hm] at hx
        cases hx
        exact hsame
      · rw [if_neg hm] at hx
        cases hx
    · rw [List.mem_append] at hg
      obtain hg | hg := hg
      · exact hended g hg
      · rw [endedBy] at hg
        split at hg
        · cases hg
        · rw [List.mem_singleton] at hg
          subst hg
          exact hsame

theorem receiveAll_uniform (qs : List (RtpHeader × Int)) {r : Grouping} (h : Uniform r) :
    ∀ g ∈ (r.receiveAll qs).2, ∀ e ∈ g.entries, e.packet.ts = g.ts := by
  induction qs generalizing r with
  | nil => exact List.forall_mem_nil _
  | cons q qs ih =>
    obtain ⟨hnext, hgroups⟩ := receive_uniform h q
    intro g hg
    rw [receiveAll, List.mem_append] at hg
    exact hg.elim (hgroups g) (ih hnext g)

end Grouping

namespace Depacketizer

variable {cap : Nat}

theorem emit_late (d : Depacketizer cap) (byMarker : Bool) :
    (d.emit byMarker).1.lateOrDup = d.lateOrDup := by
  have hclose := (Beside.closeFu d).lateOrDup
  rw [emit]
  split
  · exact hclose
  · exact hclose

theorem endByMarker_late (d : Depacketizer cap) (m : UInt8) :
    (d.endByMarker m).1.lateOrDup = d.lateOrDup := by
  rw [endByMarker]
  split
  · rfl
  · exact emit_late d true

theorem changeTs_late (d : Depacketizer cap) (ts : UInt32) :
    (d.changeTs ts).1.lateOrDup = d.lateOrDup := by
  rw [changeTs]
  split
  · exact emit_late _ _
  · rfl

theorem advance_late (d : Depacketizer cap) (seq : UInt16) :
    (d.advance seq).1.lateOrDup = d.lateOrDup := by
  rw [advance]
  split
  · rfl
  · split
    · rfl
    · by_cases hts : d.haveTs = true
      · simp only [hts, ↓reduceIte]
        exact emit_late _ false
      · simp only [hts, Bool.false_eq_true, ↓reduceIte]

theorem take_late (d : Depacketizer cap) (q : RtpHeader) (arrival : Int) :
    (d.take q arrival).lateOrDup = d.lateOrDup := by
  have hopen := d.admitted_open q.ts
  rw [take_admitted, (take_beside hopen.1 hopen.2 arrival).lateOrDup]
  show (d.admitted q.ts).lateOrDup = d.lateOrDup
  rw [admitted]
  split <;> rfl

theorem receive_late (d : Depacketizer cap) (q : RtpHeader × Int) :
    (d.receive q).1.lateOrDup =
      d.lateOrDup + if (d.receive q).1.accepted = true then 0 else 1 := by
  rw [push_accepted, receive, push]
  by_cases hlate : d.late q.1.seq = true
  · rw [if_pos hlate, hlate]
    rfl
  · have hfalse : d.late q.1.seq = false := by simpa using hlate
    rw [if_neg hlate, hfalse]
    show (Depacketizer.endByMarker _ _).1.lateOrDup = d.lateOrDup
    rw [endByMarker_late, take_late, changeTs_late]
    exact advance_late _ _

/-- A packet is accepted or counted as late. -/
theorem receiveAll_late (qs : List (RtpHeader × Int)) (d : Depacketizer cap) :
    (d.receiveAll qs).1.lateOrDup + (d.taken qs).length = d.lateOrDup + qs.length := by
  induction qs generalizing d with
  | nil => rfl
  | cons q qs ih =>
    have hrest := ih (d.receive q).1
    have hone := receive_late d q
    rw [taken, List.length_append, List.length_cons]
    show ((d.receive q).1.receiveAll qs).1.lateOrDup + _ = _
    by_cases hacc : (d.receive q).1.accepted = true
    · rw [if_pos hacc] at hone ⊢
      rw [List.length_singleton]
      omega
    · rw [if_neg hacc] at hone ⊢
      rw [List.length_nil]
      omega

theorem mem_of_mem_taken {x : RtpHeader × Int} (qs : List (RtpHeader × Int)) (d : Depacketizer cap)
    (h : x ∈ d.taken qs) : x ∈ qs := by
  induction qs generalizing d with
  | nil => cases h
  | cons q qs ih =>
    rw [taken, List.mem_append] at h
    obtain h | h := h
    · split at h
      · rw [List.mem_singleton] at h
        exact h ▸ List.mem_cons_self
      · cases h
    · exact List.mem_cons_of_mem q (ih _ h)

structure Sound (ev : AuEvent) : Prop where
  lost : ev.complete = true → ev.lostPackets = 0
  fragments : ev.complete = true → ev.lostFragments = 0
  damaged : ev.complete = true → ev.damaged = false
  bytes : ev.complete = true → 0 < ev.bytes

theorem event_sound (d : Depacketizer cap) (byMarker : Bool) : Sound (d.event byMarker) := by
  constructor <;>
  · intro h
    simp only [event, Bool.and_eq_true, beq_iff_eq, Bool.not_eq_true', decide_eq_true_eq] at h
    obtain ⟨⟨⟨⟨-, hlost⟩, hfragments⟩, hdamaged⟩, hbytes⟩ := h
    first | exact hlost | exact hfragments | exact hdamaged | exact hbytes

structure UnitOf (ps : List (RtpHeader × Int)) (x : AuEvent × List UInt8) : Prop
    extends Counted ps x where
  ts : ∀ p ∈ ps, p.1.ts = x.1.rtpTs

theorem unitOf_of_tells {g : Group} {x : AuEvent × List UInt8} (h : @Tells cap Counts g x)
    (hts : ∀ e ∈ g.entries, e.packet.ts = g.ts) : UnitOf (g.entries.map Entry.received) x := by
  refine ⟨(counted_of_tells h).1, fun p hp => ?_⟩
  obtain ⟨d, -, hcur, -, hevent, -⟩ := h
  obtain ⟨e, he, rfl⟩ := List.mem_map.mp hp
  have hopen := (Beside.closeFu { d with lost := d.lost + g.tail }).curTs
  rw [hevent]
  exact (hts e he).trans (hopen.trans hcur).symm

theorem forall₂_of_mem {α β : Type} {R S : α → β → Prop} {as : List α} {bs : List β}
    (h : List.Forall₂ R as bs) (hS : ∀ a ∈ as, ∀ b, R a b → S a b) : List.Forall₂ S as bs := by
  induction h with
  | nil => exact .nil
  | @cons a b as bs hab _ ih =>
    refine .cons (hS a List.mem_cons_self b hab) (ih fun c hc => ?_)
    exact hS c (List.mem_cons_of_mem a hc)

structure Run (bufs : AuBuffers cap) (qs : List (RtpHeader × Int)) (d : Depacketizer cap)
    (units : List (AuEvent × List UInt8)) : Prop where
  late : d.lateOrDup + (({ buf := bufs } : Depacketizer cap).taken qs).length = qs.length
  packets : (units.map fun x => x.1.packets).sum + d.packets =
    (({ buf := bufs } : Depacketizer cap).taken qs).length
  lost : (units.map fun x => x.1.lostPackets).sum + d.lost =
    missing none ((({ buf := bufs } : Depacketizer cap).taken qs).map Prod.fst)
  sound : ∀ x ∈ units, Sound x.1
  groups : ∃ groups current, ({ buf := bufs } : Depacketizer cap).taken qs =
    groups.flatten ++ current ∧ current.length = d.packets ∧ List.Forall₂ UnitOf groups units

theorem run_fresh (bufs : AuBuffers cap) (qs : List (RtpHeader × Int)) :
    Run bufs qs (({ buf := bufs } : Depacketizer cap).receiveAll qs).1
      (({ buf := bufs } : Depacketizer cap).receiveAll qs).2 := by
  have hfresh : Follows Counts ({ buf := bufs } : Depacketizer cap) {} :=
    follows_fresh counts_content bufs
  obtain ⟨hfollows, htells⟩ := hfresh.receiveAll counts_content qs
  have htaken := taken_eq counts_content qs hfresh
  have hentries := ({} : Grouping).receiveAll_entries qs
  have hlost := ({} : Grouping).receiveAll_lost qs
  rw [show ({} : Grouping).entries = [] from rfl, List.map_nil, List.nil_append] at hentries
  rw [show gaps ({} : Grouping).entries = 0 from rfl, Nat.zero_add] at hlost
  have hcounted := htells.imp fun _ _ => counted_of_tells
  have huniform := ({} : Grouping).receiveAll_uniform qs fun x hx => nomatch hx
  have hgroups := List.forall₂_map_left_iff.mpr
    (forall₂_of_mem htells fun g hg _ h => unitOf_of_tells h (huniform g hg))
  have hlostPackets := map_eq_of_forall₂ (hcounted.imp fun _ _ h => h.2.symm)
  have hpackets := map_eq_of_forall₂ (hgroups.imp fun _ _ h => h.packets.symm)
  have hopen := hfollows.content.packets
  refine ⟨?_, ?_, ?_, ?_, _, _, htaken.trans hentries, ?_, hgroups⟩
  · have hlate := receiveAll_late qs ({ buf := bufs } : Depacketizer cap)
    rwa [show ({ buf := bufs } : Depacketizer cap).lateOrDup = 0 from rfl, Nat.zero_add] at hlate
  · rw [← hpackets, htaken, hentries, List.length_append, List.length_flatten, List.length_map,
      hopen]
  · rw [← hlostPackets, htaken, hlost]
    exact congrArg _ hfollows.content.lost
  · refine forall_of_forall₂ htells fun g x hx => ?_
    obtain ⟨d, -, -, -, hevent, -⟩ := hx
    rw [hevent]
    exact event_sound _ _
  · rw [List.length_map, hopen]

end Depacketizer

end P5G
