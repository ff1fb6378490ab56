import P5G.Rtp.Grouping

/-!
# Conservation of packets

Nothing is lost or counted twice between the packets that `Push` accepts and
the counts of the events, whatever the packets are.
-/

namespace P5G

/-- The packets missing right before `seq`, where the step from the last
accepted packet is progress. -/
def missingBefore (last : Option UInt16) (seq : UInt16) : Nat :=
  match last with
  | none => 0
  | some l =>
    let step := (seq - l).toInt16.toInt
    if 0 < step ∧ step ≤ maxDropout then (step - 1).toNat else 0

def missing : Option UInt16 → List RtpHeader → Nat
  | _, [] => 0
  | last, p :: ps => missingBefore last p.seq + missing (some p.seq) ps

theorem missingBefore_judge (last : Option UInt16) (seq : UInt16) :
    missingBefore last seq = match judge last seq with
      | .progress g => g
      | _ => 0 := by
  cases last with
  | none => rfl
  | some l =>
    simp only [missingBefore, judge]
    generalize (seq - l).toInt16.toInt = step
    by_cases hs : step ≤ 0 ∧ -maxMisorder ≤ step
    · have hn : ¬(0 < step ∧ step ≤ maxDropout) := by omega
      rw [if_pos hs, if_neg hn]
    · rw [if_neg hs]
      by_cases hp : 0 < step ∧ step ≤ maxDropout
      · rw [if_pos hp, if_pos hp]
      · rw [if_neg hp, if_neg hp]

theorem map_eq_of_forall₂ {α β γ : Type} {f : α → γ} {k : β → γ} {as : List α} {bs : List β}
    (h : List.Forall₂ (fun a b => f a = k b) as bs) : as.map f = bs.map k := by
  induction h with
  | nil => rfl
  | cons hab _ ih => rw [List.map_cons, List.map_cons, hab, ih]

theorem forall_of_forall₂ {α β : Type} {S : α → β → Prop} {P : β → Prop} {as : List α}
    {bs : List β} (h : List.Forall₂ S as bs) (hS : ∀ a b, S a b → P b) : ∀ b ∈ bs, P b := by
  induction h with
  | nil => simp
  | cons hab _ ih => simpa using ⟨hS _ _ hab, by simpa using ih⟩

/-! ## Groups -/

def gaps (es : List Entry) : Nat := (es.map Entry.gap).sum

theorem gaps_append (es fs : List Entry) : gaps (es ++ fs) = gaps es + gaps fs := by
  rw [gaps, List.map_append, List.sum_append]
  rfl

namespace Group

def lost (g : Group) : Nat := gaps g.entries + g.tail

end Group

namespace Entry

def received (x : Entry) : RtpHeader × Int := (x.packet, x.arrival)

end Entry

namespace Grouping

def taken (r : Grouping) : List (RtpHeader × Int) → List (RtpHeader × Int)
  | [] => []
  | q :: qs =>
    (if (r.intake q).isSome then [q] else []) ++ ((r.receive q).1.taken qs)

theorem cut_entries (r : Grouping) (tail : Nat) : (r.cut tail).flatMap Group.entries = r.entries := by
  rw [cut, entries]
  cases r.current with
  | none => rfl
  | some x => exact List.append_nil _

theorem cut_lost {r : Grouping} (hne : r.current ≠ none) (tail : Nat) :
    ((r.cut tail).map Group.lost).sum = gaps r.entries + tail := by
  rw [cut, entries]
  cases hc : r.current with
  | none => exact absurd hc hne
  | some x => simp [Group.lost]

theorem cut_lost_zero (r : Grouping) : ((r.cut 0).map Group.lost).sum = gaps r.entries := by
  rw [cut, entries]
  cases r.current with
  | none => rfl
  | some x => simp [Group.lost]

/-- An intake moves the entries of the unit that is open, and its gap, to
exactly one side. -/
theorem intake_conserves {r : Grouping} {q : RtpHeader × Int} {i : Intake}
    (h : r.intake q = some i) :
    i.ended.flatMap Group.entries ++ i.entries = r.entries ∧
      (i.ended.map Group.lost).sum + gaps i.entries + i.entry.gap =
        gaps r.entries + missingBefore r.last q.1.seq := by
  have hmissing := missingBefore_judge r.last q.1.seq
  rw [intake] at h
  cases hv : judge r.last q.1.seq with
  | stale => rw [hv] at h; cases h
  | restart =>
    rw [hv] at h hmissing
    cases h
    refine ⟨?_, ?_⟩
    · rw [List.append_nil]
      exact cut_entries r 0
    · rw [cut_lost_zero, hmissing]
      rfl
  | progress g =>
    rw [hv] at h hmissing
    cases hc : r.current with
    | none =>
      simp only [hc] at h
      cases h
      have he : r.entries = [] := by rw [entries, hc]
      rw [he, hmissing]
      exact ⟨rfl, by simp [gaps]⟩
    | some x =>
      have he : r.entries = x.2 := by rw [entries, hc]
      simp only [hc] at h
      by_cases hts : q.1.ts = x.1
      · rw [if_pos hts] at h
        cases h
        rw [he, hmissing]
        exact ⟨rfl, by simp⟩
      · rw [if_neg hts] at h
        cases h
        refine ⟨?_, ?_⟩
        · rw [List.append_nil]
          exact cut_entries r g
        · rw [cut_lost (by rw [hc]; exact Option.some_ne_none x), hmissing]
          rfl

theorem intake_none {r : Grouping} {q : RtpHeader × Int} (h : r.intake q = none) :
    r.receive q = (r, []) := by
  rw [receive, h]

theorem intake_some {r : Grouping} {q : RtpHeader × Int} {i : Intake} (h : r.intake q = some i) :
    r.receive q = (after i.entry (i.entries ++ [i.entry]),
      i.ended ++ endedBy i.entry (i.entries ++ [i.entry])) := by
  rw [receive, h]

theorem after_entries (x : Entry) (es : List Entry) :
    (endedBy x es).flatMap Group.entries ++ (after x es).entries = es := by
  rw [endedBy, after, entries]
  by_cases hm : x.packet.marker = 0
  · simp [hm]
  · simp [hm]

theorem after_lost (x : Entry) (es : List Entry) :
    ((endedBy x es).map Group.lost).sum + gaps (after x es).entries = gaps es := by
  rw [endedBy, after, entries]
  by_cases hm : x.packet.marker = 0
  · simp [hm]
  · simp [hm, Group.lost, gaps]

theorem intake_ended_le {r : Grouping} {q : RtpHeader × Int} {i : Intake}
    (h : r.intake q = some i) : i.ended.length ≤ 1 := by
  have hcut : ∀ n, (r.cut n).length ≤ 1 := by
    intro n
    rw [cut]
    cases r.current with
    | none => exact Nat.zero_le _
    | some x => exact Nat.le_refl _
  rw [intake] at h
  split at h
  · cases h
  · cases h
    exact hcut 0
  · split at h
    · cases h
      exact Nat.zero_le _
    · split at h <;> cases h
      · exact Nat.zero_le _
      · exact hcut _

theorem receive_le (r : Grouping) (q : RtpHeader × Int) : (r.receive q).2.length ≤ 2 := by
  cases h : r.intake q with
  | none => rw [intake_none h]; exact Nat.zero_le _
  | some i =>
    have hended := intake_ended_le h
    have hby : (endedBy i.entry (i.entries ++ [i.entry])).length ≤ 1 := by
      rw [endedBy]
      split
      · exact Nat.zero_le _
      · exact Nat.le_refl _
    rw [intake_some h, List.length_append]
    omega

/-- What was open and what is accepted is what has ended and what is open. -/
theorem receiveAll_entries (qs : List (RtpHeader × Int)) (r : Grouping) :
    r.entries.map Entry.received ++ r.taken qs =
      ((r.receiveAll qs).2.map fun g => g.entries.map Entry.received).flatten ++
        (r.receiveAll qs).1.entries.map Entry.received := by
  induction qs generalizing r with
  | nil => simp [taken, receiveAll]
  | cons q qs ih =>
    have hrest := ih (r.receive q).1
    rw [taken, receiveAll]
    cases hi : r.intake q with
    | none =>
      rw [intake_none hi] at hrest ⊢
      exact hrest
    | some i =>
      obtain ⟨hmoved, -⟩ := intake_conserves hi
      obtain ⟨hpacket, harrival⟩ := intake_entry hi
      have hq : i.entry.received = q := by rw [Entry.received, hpacket, harrival]
      have hafter := after_entries i.entry (i.entries ++ [i.entry])
      have hone : r.entries.map Entry.received ++ [q] =
          ((r.receive q).2.map fun g => g.entries.map Entry.received).flatten ++
            (r.receive q).1.entries.map Entry.received := by
        have hall : r.entries ++ [i.entry] =
            (r.receive q).2.flatMap Group.entries ++ (r.receive q).1.entries := by
          rw [intake_some hi, List.flatMap_append, List.append_assoc, hafter, ← List.append_assoc,
            hmoved]
        have hmap := congrArg (List.map Entry.received) hall
        rw [List.map_append, List.map_append, List.map_flatMap] at hmap
        rw [List.flatMap_def] at hmap
        rw [← hmap, List.map_cons, List.map_nil, hq]
      rw [Option.isSome_some, if_pos rfl, ← List.append_assoc, hone, List.append_assoc, hrest,
        List.map_append, List.flatten_append, List.append_assoc]

theorem receiveAll_lost (qs : List (RtpHeader × Int)) (r : Grouping) :
    gaps r.entries + missing r.last ((r.taken qs).map Prod.fst) =
      ((r.receiveAll qs).2.map Group.lost).sum + gaps (r.receiveAll qs).1.entries := by
  induction qs generalizing r with
  | nil => simp [taken, receiveAll, missing]
  | cons q qs ih =>
    have hrest := ih (r.receive q).1
    rw [taken, receiveAll]
    cases hi : r.intake q with
    | none =>
      rw [intake_none hi] at hrest ⊢
      exact hrest
    | some i =>
      obtain ⟨-, hmoved⟩ := intake_conserves hi
      have hlast : (r.receive q).1.last = some q.1.seq := by
        rw [intake_some hi, after, (intake_entry hi).1]
      have hafter := after_lost i.entry (i.entries ++ [i.entry])
      rw [gaps_append] at hafter
      have hentry : gaps [i.entry] = i.entry.gap := by simp [gaps]
      have hone : ((r.receive q).2.map Group.lost).sum + gaps (r.receive q).1.entries =
          gaps r.entries + missingBefore r.last q.1.seq := by
        rw [intake_some hi, List.map_append, List.sum_append, Nat.add_assoc, hafter, hentry, ← hmoved,
          Nat.add_assoc]
      rw [hlast] at hrest
      rw [Option.isSome_some, if_pos rfl, List.cons_append, List.nil_append, List.map_cons, missing,
        List.map_append, List.sum_append]
      show _ = _ + gaps ((r.receive q).1.receiveAll qs).1.entries
      omega

end Grouping

/-! ## The depacketizer's counts -/

namespace Depacketizer

variable {cap : Nat}

structure Counts (d : Depacketizer cap) (es : List Entry) : Prop where
  packets : d.packets = es.length
  lost : d.lost = gaps es
  first : ∀ x ∈ es.head?, d.firstArrival = x.arrival
  last : ∀ x ∈ es.getLast?, d.lastArrival = x.arrival

theorem counts_content : @Content cap Counts where
  packets h := h.packets
  outside := fun _ _ _ _ _ _ _ _ h => ⟨h.packets, h.lost, h.first, h.last⟩
  reset := fun _ _ => ⟨rfl, rfl, by rintro x ⟨⟩, by rintro x ⟨⟩⟩
  take := by
    intro d es x h hts hcur hgap
    have hb := take_beside hts hcur x.arrival
    refine ⟨?_, ?_, ?_, ?_⟩
    · rw [hb.packets, List.length_append, ← h.packets]
      rfl
    · rw [hb.lost, gaps_append, ← h.lost]
      show d.lost + d.pendingGap = d.lost + (x.gap + 0)
      rw [hgap, Nat.add_zero]
    · intro y hy
      rw [hb.firstArrival]
      show (if d.packets = 0 then x.arrival else d.firstArrival) = y.arrival
      cases es with
      | nil =>
        obtain rfl : x = y := by simpa using hy
        rw [h.packets, if_pos List.length_nil]
      | cons z es =>
        obtain rfl : z = y := by simpa using hy
        rw [h.packets, if_neg (by simp)]
        exact h.first z rfl
    · intro y hy
      obtain rfl : x = y := by simpa using hy
      rw [hb.lastArrival]
      rfl

/-- The packets for which `last_accepted()` holds after their `Push`. -/
def taken (d : Depacketizer cap) : List (RtpHeader × Int) → List (RtpHeader × Int)
  | [] => []
  | q :: qs =>
    (if (d.receive q).1.accepted then [q] else []) ++ taken (d.receive q).1 qs

theorem emit_accepted (d : Depacketizer cap) (byMarker : Bool) :
    (d.emit byMarker).1.accepted = d.accepted := by
  have hclose := (Beside.closeFu d).accepted
  rw [emit]
  split
  · exact hclose
  · exact hclose

theorem changeTs_accepted (d : Depacketizer cap) (ts : UInt32) :
    (d.changeTs ts).1.accepted = d.accepted := by
  rw [changeTs]
  split
  · exact emit_accepted _ _
  · rfl

theorem advance_accepted (d : Depacketizer cap) (seq : UInt16) :
    (d.advance seq).1.accepted = d.accepted := by
  rw [advance]
  by_cases hseq : (!d.haveSeq) = true
  · rw [if_pos hseq]
  · rw [if_neg hseq]
    by_cases hp : 0 < d.seqStep seq ∧ d.seqStep seq ≤ maxDropout
    · rw [if_pos hp]
    · rw [if_neg hp]
      by_cases hts : d.haveTs = true
      · simp only [hts, ↓reduceIte]
        exact emit_accepted _ false
      · simp only [hts, Bool.false_eq_true, ↓reduceIte]

theorem take_accepted (d : Depacketizer cap) (q : RtpHeader) (arrival : Int) :
    (d.take q arrival).accepted = d.accepted := by
  rw [take_admitted, (take_beside (d.admitted_open q.ts).1 (d.admitted_open q.ts).2 arrival).accepted]
  show (d.admitted q.ts).accepted = d.accepted
  rw [admitted]
  split <;> rfl

theorem push_accepted (d : Depacketizer cap) (q : RtpHeader × Int) :
    (d.receive q).1.accepted = !d.late q.1.seq := by
  rw [receive, push]
  by_cases hlate : d.late q.1.seq = true
  · rw [if_pos hlate, hlate]
    rfl
  · have hfalse : d.late q.1.seq = false := by simpa using hlate
    rw [if_neg hlate, hfalse]
    have hend : ∀ (e : Depacketizer cap) (m : UInt8), (e.endByMarker m).1.accepted = e.accepted := by
      intro e m
      rw [endByMarker]
      split
      · rfl
      · exact emit_accepted e true
    show (Depacketizer.endByMarker _ _).1.accepted = true
    rw [hend, take_accepted, changeTs_accepted]
    exact advance_accepted _ _

theorem accepted_grouping {R : Depacketizer cap → List Entry → Prop}
    {d : Depacketizer cap} {r : Grouping} (h : Follows R d r) (q : RtpHeader × Int) :
    (d.receive q).1.accepted = (r.intake q).isSome := by
  have hjudged := judged h q.1.seq
  rw [push_accepted, Grouping.intake]
  cases hv : judge r.last q.1.seq with
  | stale =>
    rw [hv] at hjudged
    rw [hjudged]
    rfl
  | restart =>
    rw [hv] at hjudged
    rw [hjudged.1]
    rfl
  | progress g =>
    rw [hv] at hjudged
    rw [hjudged.1]
    cases r.current with
    | none => rfl
    | some x =>
      show true = (if q.1.ts = x.1 then _ else _ : Option Intake).isSome
      split <;> rfl

theorem taken_eq {R : Depacketizer cap → List Entry → Prop} (hR : Content R)
    (qs : List (RtpHeader × Int)) {d : Depacketizer cap}
    {r : Grouping} (h : Follows R d r) : d.taken qs = r.taken qs := by
  induction qs generalizing d r with
  | nil => rfl
  | cons q qs ih =>
    rw [taken, Grouping.taken, accepted_grouping h,
      ih (h.receive hR q).1]

structure Counted (ps : List (RtpHeader × Int)) (x : AuEvent × List UInt8) : Prop where
  packets : x.1.packets = ps.length
  first : ps.head?.map Prod.snd = some x.1.firstArrivalNs
  last : ps.getLast?.map Prod.snd = some x.1.lastArrivalNs

theorem counted_of_tells {g : Group} {x : AuEvent × List UInt8}
    (h : @Tells cap Counts g x) :
    Counted (g.entries.map Entry.received) x ∧ x.1.lostPackets = g.lost := by
  obtain ⟨d, hcounts, -, hne, hx, -⟩ := h
  have hb := Beside.closeFu { d with lost := d.lost + g.tail }
  have hpackets : x.1.packets = d.packets := (congrArg AuEvent.packets hx).trans hb.packets
  have hlost : x.1.lostPackets = d.lost + g.tail := (congrArg AuEvent.lostPackets hx).trans hb.lost
  have hfirst : x.1.firstArrivalNs = d.firstArrival :=
    (congrArg AuEvent.firstArrivalNs hx).trans hb.firstArrival
  have hlast : x.1.lastArrivalNs = d.lastArrival :=
    (congrArg AuEvent.lastArrivalNs hx).trans hb.lastArrival
  refine ⟨⟨?_, ?_, ?_⟩, ?_⟩
  · rw [hpackets, hcounts.packets, List.length_map]
  · obtain ⟨y, es, hes⟩ := List.exists_cons_of_ne_nil hne
    rw [hfirst, hcounts.first y (by rw [hes]; rfl), hes]
    rfl
  · have hget := List.getLast?_eq_some_getLast hne
    rw [hlast, hcounts.last _ hget, List.getLast?_map, hget]
    rfl
  · rw [hlost, hcounts.lost, Group.lost]

/-- Every accepted packet is in exactly one event or in the unit that is open,
every packet found missing is counted once, and a call ends at most two access
units. -/
structure Conserved (d : Depacketizer cap) (qs : List (RtpHeader × Int))
    (r : Depacketizer cap × List (AuEvent × List UInt8)) : Prop where
  packets : (r.2.map fun x => x.1.packets).sum + r.1.packets = (d.taken qs).length
  lostPackets : (r.2.map fun x => x.1.lostPackets).sum + r.1.lost =
    missing none ((d.taken qs).map Prod.fst)
  closed : r.1.haveTs = false → r.1.packets = 0 ∧ r.1.lost = 0
  calls : ∀ ps q rest, qs = ps ++ q :: rest → ((d.receiveAll ps).1.receive q).2.length ≤ 2
  nonempty : ∀ x ∈ r.2, 1 ≤ x.1.packets
  grouped : ∃ groups current, d.taken qs = groups.flatten ++ current ∧
    current.length = r.1.packets ∧ List.Forall₂ Counted groups r.2

theorem receiveAll_conserved (bufs : AuBuffers cap) (qs : List (RtpHeader × Int)) :
    let d : Depacketizer cap := { buf := bufs }
    Conserved d qs (d.receiveAll qs) := by
  intro d
  let r := d.receiveAll qs
  have hfresh : Follows Counts d {} := follows_fresh counts_content bufs
  have hrun (ps : List (RtpHeader × Int)) := hfresh.receiveAll counts_content ps
  obtain ⟨hfollows, htells⟩ := hrun qs
  have htaken : d.taken qs = ({} : Grouping).taken qs :=
    taken_eq counts_content qs hfresh
  have hentries := ({} : Grouping).receiveAll_entries qs
  have hlost := ({} : Grouping).receiveAll_lost qs
  rw [show ({} : Grouping).entries = [] from rfl, List.map_nil, List.nil_append] at hentries
  rw [show gaps ({} : Grouping).entries = 0 from rfl, Nat.zero_add] at hlost
  have hcounted : List.Forall₂ (fun (g : Group) (x : AuEvent × List UInt8) =>
      Counted (g.entries.map Entry.received) x ∧ x.1.lostPackets = g.lost)
      (({} : Grouping).receiveAll qs).2 r.2 := htells.imp fun _ _ => counted_of_tells
  have hgroups : List.Forall₂ Counted
      ((({} : Grouping).receiveAll qs).2.map fun g => g.entries.map Entry.received) r.2 :=
    List.forall₂_map_left_iff.mpr (hcounted.imp fun _ _ h => h.1)
  have hlostPackets : (({} : Grouping).receiveAll qs).2.map Group.lost =
      r.2.map fun x => x.1.lostPackets := map_eq_of_forall₂ (hcounted.imp fun _ _ h => h.2.symm)
  have hpackets : ((({} : Grouping).receiveAll qs).2.map
      fun g => g.entries.map Entry.received).map List.length = r.2.map fun x => x.1.packets :=
    map_eq_of_forall₂ (hgroups.imp fun _ _ h => h.packets.symm)
  have hopen : r.1.packets = (({} : Grouping).receiveAll qs).1.entries.length :=
    hfollows.content.packets
  refine ⟨?_, ?_, fun hts => ?_, fun ps q rest _ => ?_, fun x hx => ?_, _, _,
    htaken.trans hentries, ?_, hgroups⟩
  · rw [← hpackets, htaken, hentries, List.length_append, List.length_flatten, List.length_map, hopen]
  · rw [← hlostPackets, htaken, hlost]
    exact congrArg _ hfollows.content.lost
  · have hnone : (({} : Grouping).receiveAll qs).1.current = none := by
      have hhave := hfollows.haveTs
      rw [show (d.receiveAll qs).1.haveTs = false from hts] at hhave
      exact Option.isSome_eq_false_iff.mp hhave.symm |> Option.isNone_iff_eq_none.mp
    have hnil : (({} : Grouping).receiveAll qs).1.entries = [] := by rw [Grouping.entries, hnone]
    have hcontent := hfollows.content
    rw [hnil] at hcontent
    exact ⟨hcontent.packets, hcontent.lost⟩
  · have hone := (hrun ps).1.receive counts_content q
    rw [← hone.2.length_eq]
    exact Grouping.receive_le _ q
  · refine forall_of_forall₂ hgroups (P := fun x => 1 ≤ x.1.packets) (fun ps y hc => ?_) x hx
    have hfirst := hc.first
    rw [hc.packets]
    cases ps with
    | nil => simp at hfirst
    | cons p ps => simp
  · rw [List.length_map, hopen]

end Depacketizer

end P5G
