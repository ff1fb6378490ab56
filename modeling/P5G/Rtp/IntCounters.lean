import P5G.Rtp.Conservation

/-!
# The counters as machine integers

`packets_`, `lost_` and `lost_frag_` are `int`s, and a call in which one of them
would pass the greatest `int` has no defined result.  Between its `Reset` and
its `Emit` the counters of an access unit only grow, so what they reach in a
call is in its events and in the state that it leaves.
-/

namespace P5G

def maxInt : Nat := 2147483647

structure AuEvent.InRange (e : AuEvent) : Prop where
  packets : e.packets ≤ maxInt
  lostPackets : e.lostPackets ≤ maxInt
  lostFragments : e.lostFragments ≤ maxInt

instance (e : AuEvent) : Decidable e.InRange :=
  decidable_of_iff (e.packets ≤ maxInt ∧ e.lostPackets ≤ maxInt ∧ e.lostFragments ≤ maxInt)
    ⟨fun ⟨hp, hl, hf⟩ => ⟨hp, hl, hf⟩, fun h => ⟨h.packets, h.lostPackets, h.lostFragments⟩⟩

/-- The numbers of packets and of missing packets that an `int` holds. -/
structure Group.InRange (g : Group) : Prop where
  packets : g.entries.length ≤ maxInt
  lost : g.lost ≤ maxInt

/-- The access units of the packets: those that have ended, and the open one. -/
def Grouping.units (r : Grouping) (qs : List (RtpHeader × Int)) : List Group :=
  (r.receiveAll qs).2 ++ (r.receiveAll qs).1.cut 0

namespace Depacketizer

variable {cap : Nat}

structure InRange (d : Depacketizer cap) : Prop where
  packets : d.packets ≤ maxInt
  lost : d.lost ≤ maxInt
  lostFrag : d.lostFrag ≤ maxInt

instance (d : Depacketizer cap) : Decidable d.InRange :=
  decidable_of_iff (d.packets ≤ maxInt ∧ d.lost ≤ maxInt ∧ d.lostFrag ≤ maxInt)
    ⟨fun ⟨hp, hl, hf⟩ => ⟨hp, hl, hf⟩, fun h => ⟨h.packets, h.lost, h.lostFrag⟩⟩

/-- `Push`, where an `int` that overflows leaves nothing to say. -/
def pushInt (d : Depacketizer cap) (h : RtpHeader) (arrival : Int) :
    Option (Depacketizer cap × List AuEvent) :=
  let r := d.push h arrival
  if (∀ e ∈ r.2, e.InRange) ∧ r.1.InRange then some r else none

def receiveInt (d : Depacketizer cap) (q : RtpHeader × Int) :
    Option (Depacketizer cap × List (AuEvent × List UInt8)) :=
  (d.pushInt q.1 q.2).map fun r => (r.1, r.2.map fun e => (e, r.1.data e.buffer))

def receiveAllInt (d : Depacketizer cap) :
    List (RtpHeader × Int) → Option (Depacketizer cap × List (AuEvent × List UInt8))
  | [] => some (d, [])
  | q :: qs =>
    (d.receiveInt q).bind fun r => (r.1.receiveAllInt qs).map fun rest => (rest.1, r.2 ++ rest.2)

theorem receiveInt_eq_some {d : Depacketizer cap} {q : RtpHeader × Int}
    {r : Depacketizer cap × List (AuEvent × List UInt8)} :
    d.receiveInt q = some r ↔ d.receive q = r ∧ (∀ x ∈ r.2, x.1.InRange) ∧ r.1.InRange := by
  have hmap : (∀ x ∈ (d.receive q).2, x.1.InRange) ↔ ∀ e ∈ (d.push q.1 q.2).2, e.InRange :=
    List.forall_mem_map
  rw [receiveInt, pushInt]
  by_cases h : (∀ e ∈ (d.push q.1 q.2).2, e.InRange) ∧ (d.push q.1 q.2).1.InRange
  · rw [if_pos h]
    constructor
    · intro heq
      obtain rfl : d.receive q = r := Option.some.inj heq
      exact ⟨rfl, hmap.mpr h.1, h.2⟩
    · rintro ⟨rfl, -⟩
      rfl
  · rw [if_neg h]
    constructor
    · intro heq
      cases heq
    · rintro ⟨rfl, hevents, hstate⟩
      exact absurd ⟨hmap.mp hevents, hstate⟩ h

/-- What is defined is what unbounded counters say. -/
theorem receiveAllInt_eq {d : Depacketizer cap} {qs : List (RtpHeader × Int)}
    {r : Depacketizer cap × List (AuEvent × List UInt8)} (h : d.receiveAllInt qs = some r) :
    r = d.receiveAll qs := by
  induction qs generalizing d r with
  | nil => exact (Option.some.inj h).symm
  | cons q qs ih =>
    obtain ⟨x, hx, hrest⟩ := Option.bind_eq_some_iff.mp h
    obtain ⟨rest, hr, rfl⟩ := Option.map_eq_some_iff.mp hrest
    obtain ⟨rfl, -⟩ := receiveInt_eq_some.mp hx
    rw [ih hr]
    rfl

/-! ## Lost fragments -/

def partials (d : Depacketizer cap) : Nat := d.lostFrag + d.fuOpen.toNat

theorem partials_append (d : Depacketizer cap) (p : List UInt8) :
    (d.append p).partials = d.partials := by
  rw [append]
  split <;> rfl

theorem partials_appendNal (d : Depacketizer cap) (p : List UInt8) :
    (d.appendNal p).partials = d.partials := by
  have h : (d.appendStartCode.append p).partials = d.partials := by
    rw [partials_append, appendStartCode, partials_append]
  rw [appendNal]
  split
  · exact h
  · exact h

theorem closeFu_fuOpen (d : Depacketizer cap) : d.closeFu.fuOpen = false := by
  rw [closeFu]
  split
  · rfl
  · next h => simpa using h

theorem closeFu_lostFrag (d : Depacketizer cap) : d.closeFu.lostFrag = d.partials := by
  rw [closeFu, partials]
  split
  · next h =>
    rw [h]
    rfl
  · next h =>
    rw [Bool.not_eq_true _ |>.mp h]
    rfl

theorem partials_closeFu (d : Depacketizer cap) : d.closeFu.partials = d.partials := by
  rw [partials, closeFu_fuOpen, closeFu_lostFrag]
  rfl

theorem partials_stapA (fuel : Nat) (d : Depacketizer cap) (p : List UInt8) :
    (stapA fuel d p).partials = d.partials := by
  fun_induction stapA fuel d p with
  | case1 | case2 | case3 | case4 => rfl
  | case5 fuel d a b rest sz h ih => rw [ih, partials_appendNal]

theorem partials_startFu (d : Depacketizer cap) (indicator fu : UInt8) :
    (d.startFu indicator fu).fuOpen = true ∧
      (d.startFu indicator fu).partials = d.partials + 1 := by
  refine ⟨rfl, ?_⟩
  have hopen (e : Depacketizer cap) (b : Bool) :
      ({ e with fuOpen := true, idr := b } : Depacketizer cap).partials = e.lostFrag + 1 := rfl
  have hfrag (e : Depacketizer cap) (p : List UInt8) : (e.append p).lostFrag = e.lostFrag := by
    rw [append]
    split <;> rfl
  rw [startFu, hopen, hfrag, appendStartCode, hfrag]
  show d.closeFu.lostFrag + 1 = _
  rw [closeFu_lostFrag]

theorem partials_continueFu (d : Depacketizer cap) (last : Bool) (fragment : List UInt8) :
    (d.continueFu last fragment).partials ≤ d.partials + (!d.fuOpen).toNat := by
  rw [continueFu]
  cases hopen : d.fuOpen with
  | true =>
    have h := partials_append d fragment
    rw [partials, partials, hopen] at h
    rw [if_pos rfl, partials, partials, hopen]
    have hlast : (!last).toNat ≤ 1 := Bool.toNat_le _
    show (d.append fragment).lostFrag + (!last).toNat ≤ d.lostFrag + 1 + 0
    have : (d.append fragment).lostFrag = d.lostFrag := by
      rw [append]
      split <;> rfl
    omega
  | false =>
    rw [if_neg Bool.false_ne_true, partials, partials, hopen]
    show (if d.orphan then d.lostFrag else d.lostFrag + 1) + 0 ≤ d.lostFrag + 0 + 1
    split
    · exact Nat.le_succ _
    · exact Nat.le_refl _

theorem partials_fuA (d : Depacketizer cap) (indicator fu : UInt8) (fragment : List UInt8) :
    (d.fuA indicator fu fragment).partials ≤ d.partials + 1 := by
  rw [fuA]
  split
  · refine (partials_continueFu _ _ _).trans (Nat.add_le_add_left (Bool.toNat_le _) _)
  · obtain ⟨hopen, hpartials⟩ := partials_startFu d indicator fu
    have h := partials_continueFu (d.startFu indicator fu) (fu >>> 6 &&& 1 != 0) fragment
    rw [hopen, hpartials] at h
    exact h

theorem partials_payload (d : Depacketizer cap) (p : List UInt8) :
    (d.payload p).partials ≤ d.partials + 1 := by
  cases p with
  | nil => exact Nat.le_succ _
  | cons b rest =>
    simp only [payload]
    split
    · exact (partials_appendNal d (b :: rest)).le.trans (Nat.le_succ _)
    · split
      · exact (partials_stapA _ _ _).le.trans (Nat.le_succ _)
      · split
        · cases rest with
          | nil => exact Nat.le_succ _
          | cons fu fragment => exact partials_fuA d b fu fragment
        · exact Nat.le_succ _

theorem partials_countGap (d : Depacketizer cap) : d.countGap.partials = d.partials := by
  rw [countGap]
  split
  · rfl
  · split
    · exact partials_closeFu d.lostTail
    · rfl

/-- The counts of the packets, and no more lost fragments than packets. -/
structure Bounded (d : Depacketizer cap) (es : List Entry) : Prop where
  counts : Counts d es
  partials : d.partials ≤ es.length

theorem bounded_content : @Content cap Bounded where
  packets h := h.counts.packets
  outside := fun _ _ _ _ _ _ _ _ h => ⟨counts_content.outside _ _ _ _ _ _ _ _ h.counts, h.partials⟩
  reset := fun d ts => ⟨counts_content.reset d ts, Nat.le_refl 0⟩
  take := by
    intro d es x h hts hcur hgap
    refine ⟨counts_content.take h.counts hts hcur hgap, ?_⟩
    rw [take, enter_same hts hcur, List.length_append]
    refine (partials_payload _ _).trans (Nat.add_le_add_right ?_ 1)
    exact (partials_countGap (d.stamp x.arrival)).le.trans h.partials

/-- The event of a group is in range if the group is. -/
theorem inRange_of_tells {g : Group} {x : AuEvent × List UInt8} (h : @Tells cap Bounded g x) :
    x.1.InRange ↔ g.InRange := by
  obtain ⟨d, hbounded, -, -, hx, -⟩ := h
  have hb := Beside.closeFu { d with lost := d.lost + g.tail }
  have hpackets : x.1.packets = g.entries.length :=
    (congrArg AuEvent.packets hx).trans (hb.packets.trans hbounded.counts.packets)
  have hlost : x.1.lostPackets = g.lost := by
    rw [Group.lost, ← hbounded.counts.lost]
    exact (congrArg AuEvent.lostPackets hx).trans hb.lost
  have hfrag : x.1.lostFragments ≤ g.entries.length := by
    have heq : x.1.lostFragments = ({ d with lost := d.lost + g.tail } : Depacketizer cap).partials :=
      (congrArg AuEvent.lostFragments hx).trans (closeFu_lostFrag _)
    exact heq.le.trans hbounded.partials
  constructor
  · intro h
    exact ⟨hpackets ▸ h.packets, hlost ▸ h.lostPackets⟩
  · intro h
    exact ⟨hpackets ▸ h.packets, hlost ▸ h.lost, hfrag.trans h.packets⟩

/-- The state is in range if the unit that is open is. -/
theorem inRange_of_follows {d : Depacketizer cap} {r : Grouping} (h : Follows Bounded d r) :
    d.InRange ↔ r.entries.length ≤ maxInt ∧ gaps r.entries ≤ maxInt := by
  have hpackets := h.content.counts.packets
  have hlost := h.content.counts.lost
  have hfrag : d.lostFrag ≤ r.entries.length := (Nat.le_add_right _ _).trans h.content.partials
  constructor
  · intro hd
    exact ⟨hpackets ▸ hd.packets, hlost ▸ hd.lost⟩
  · rintro ⟨hlength, hgaps⟩
    exact ⟨hpackets ▸ hlength, hlost ▸ hgaps, hfrag.trans hlength⟩

end Depacketizer

/-! ## Runs -/

namespace Grouping

/-- The unit that is open either ends with the packet or takes it. -/
theorem intake_open {r : Grouping} {q : RtpHeader × Int} {i : Intake} (h : r.intake q = some i)
    (hne : r.current ≠ none) :
    (∃ g ∈ i.ended, g.entries = r.entries) ∨ i.entries = r.entries := by
  have hcut (n : Nat) : ∃ g ∈ r.cut n, g.entries = r.entries := by
    rw [cut, entries]
    cases hc : r.current with
    | none => exact absurd hc hne
    | some x => exact ⟨_, List.mem_singleton_self _, rfl⟩
  rw [intake] at h
  split at h
  · cases h
  · cases h
    exact .inl (hcut 0)
  · split at h
    · next hc => exact absurd hc hne
    · next x hc =>
      split at h <;> cases h
      · exact .inr (by rw [entries, hc])
      · exact .inl (hcut _)

theorem units_cons (r : Grouping) (q : RtpHeader × Int) (qs : List (RtpHeader × Int)) :
    r.units (q :: qs) = (r.receive q).2 ++ (r.receive q).1.units qs := by
  rw [units, receiveAll, units, List.append_assoc]

/-- What is open goes into one of the units. -/
theorem exists_unit (qs : List (RtpHeader × Int)) {r : Grouping} (hne : r.current ≠ none) :
    ∃ g ∈ r.units qs, r.entries <+: g.entries := by
  induction qs generalizing r with
  | nil =>
    rw [units, receiveAll, List.nil_append, cut, entries]
    cases hc : r.current with
    | none => exact absurd hc hne
    | some x => exact ⟨_, List.mem_singleton_self _, List.prefix_refl _⟩
  | cons q qs ih =>
    rw [units_cons]
    cases hi : r.intake q with
    | none =>
      rw [intake_none hi]
      exact ih hne
    | some i =>
      rw [intake_some hi]
      rcases intake_open hi hne with ⟨g, hg, heq⟩ | heq
      · refine ⟨g, ?_, heq ▸ List.prefix_refl _⟩
        exact List.mem_append_left _ (List.mem_append_left _ hg)
      · rw [heq]
        by_cases hm : i.entry.packet.marker = 0
        · have hafter : after i.entry (r.entries ++ [i.entry]) =
              ⟨some i.entry.packet.seq, some (i.entry.packet.ts, r.entries ++ [i.entry])⟩ := by
            rw [after, if_pos hm]
          obtain ⟨g, hg, hprefix⟩ := ih (r := after i.entry (r.entries ++ [i.entry]))
            (by rw [hafter]; exact Option.some_ne_none _)
          refine ⟨g, List.mem_append_right _ hg, (List.prefix_append r.entries [i.entry]).trans ?_⟩
          rwa [hafter] at hprefix
        · refine ⟨⟨i.entry.packet.ts, r.entries ++ [i.entry], 0, true⟩, ?_, List.prefix_append _ _⟩
          refine List.mem_append_left _ (List.mem_append_right _ ?_)
          rw [endedBy, if_neg hm]
          exact List.mem_singleton_self _

/-- A unit that is open is in range if all units of the run are. -/
theorem inRange_entries {r : Grouping} {qs : List (RtpHeader × Int)}
    (h : ∀ g ∈ r.units qs, g.InRange) : r.entries.length ≤ maxInt ∧ gaps r.entries ≤ maxInt := by
  by_cases hne : r.current = none
  · rw [entries, hne]
    exact ⟨Nat.zero_le _, Nat.zero_le _⟩
  · obtain ⟨g, hg, es, hes⟩ := exists_unit qs hne
    obtain ⟨hlength, hlost⟩ := h g hg
    rw [← hes, List.length_append] at hlength
    rw [Group.lost, ← hes, gaps_append] at hlost
    exact ⟨by omega, by omega⟩

end Grouping

namespace Depacketizer

variable {cap : Nat}

theorem forall₂_inRange {gs : List Group} {xs : List (AuEvent × List UInt8)}
    (h : List.Forall₂ (@Tells cap Bounded) gs xs) :
    (∀ x ∈ xs, x.1.InRange) ↔ ∀ g ∈ gs, g.InRange := by
  induction h with
  | nil => simp
  | cons hgx _ ih => rw [List.forall_mem_cons, List.forall_mem_cons, inRange_of_tells hgx, ih]

/-- A run is defined if and only if all its units are in range. -/
theorem receiveAllInt_isSome_iff (qs : List (RtpHeader × Int)) {d : Depacketizer cap} {r : Grouping}
    (h : Follows Bounded d r) (hd : d.InRange) :
    (d.receiveAllInt qs).isSome = true ↔ ∀ g ∈ r.units qs, g.InRange := by
  induction qs generalizing d r with
  | nil =>
    refine iff_of_true rfl fun g hg => ?_
    obtain ⟨hlength, hgaps⟩ := (inRange_of_follows h).mp hd
    rw [Grouping.units, Grouping.receiveAll, List.nil_append, Grouping.cut] at hg
    rw [Grouping.entries] at hlength hgaps
    cases hc : r.current with
    | none => rw [hc] at hg; cases hg
    | some x =>
      rw [hc] at hg hlength hgaps
      rw [List.mem_singleton.mp hg]
      exact ⟨hlength, hgaps⟩
  | cons q qs ih =>
    obtain ⟨hfollows, htells⟩ := h.receive bounded_content q
    have hevents := forall₂_inRange htells
    rw [Grouping.units_cons, List.forall_mem_append]
    constructor
    · intro hsome
      obtain ⟨r', hr'⟩ := Option.isSome_iff_exists.mp hsome
      obtain ⟨x, hx, hrest⟩ := Option.bind_eq_some_iff.mp hr'
      obtain ⟨rest, hrest, -⟩ := Option.map_eq_some_iff.mp hrest
      obtain ⟨rfl, hxs, hstate⟩ := receiveInt_eq_some.mp hx
      exact ⟨hevents.mp hxs, (ih hfollows hstate).mp (Option.isSome_of_eq_some hrest)⟩
    · rintro ⟨hgs, hunits⟩
      have hstate := (inRange_of_follows hfollows).mpr (Grouping.inRange_entries hunits)
      obtain ⟨rest, hrest⟩ := Option.isSome_iff_exists.mp ((ih hfollows hstate).mpr hunits)
      have hx := receiveInt_eq_some.mpr ⟨rfl, hevents.mpr hgs, hstate⟩
      rw [receiveAllInt, hx]
      show (Option.map _ ((d.receive q).1.receiveAllInt qs)).isSome = true
      rw [hrest]
      rfl

/-- A run has a result if and only if no access unit has more packets or more
missing packets than an `int` counts, and the result conserves the packets. -/
theorem packet_conservation (bufs : AuBuffers cap) (qs : List (RtpHeader × Int)) :
    let d : Depacketizer cap := { buf := bufs }
    ((d.receiveAllInt qs).isSome = true ↔ ∀ g ∈ ({} : Grouping).units qs, g.InRange) ∧
      ∀ r ∈ d.receiveAllInt qs, Conserved d qs r := by
  intro d
  have hzero : d.InRange := ⟨Nat.zero_le _, Nat.zero_le _, Nat.zero_le _⟩
  refine ⟨receiveAllInt_isSome_iff qs (follows_fresh bounded_content bufs) hzero, fun r hr => ?_⟩
  rw [receiveAllInt_eq hr]
  exact receiveAll_conserved bufs qs

end Depacketizer

/-- Packets of one timestamp, each 3000 numbers after the one before it. -/
def sparse (n : Nat) : List (RtpHeader × Int) :=
  (List.range n).map fun i =>
    (⟨96, 0, 0, 0, 0, UInt16.ofNat (3000 * i), 0, 1, 12, 0, [0x41]⟩, 0)

theorem receiveAll_sparse (n : Nat) :
    ∃ es, ({} : Grouping).receiveAll (sparse (n + 1)) =
      (⟨some (UInt16.ofNat (3000 * n)), some (0, es)⟩, []) ∧ gaps es = 2999 * n := by
  induction n with
  | zero => exact ⟨_, rfl, rfl⟩
  | succ n ih =>
    obtain ⟨es, hes, hgaps⟩ := ih
    have hsparse : sparse (n + 1 + 1) = sparse (n + 1) ++
        [(⟨96, 0, 0, 0, 0, UInt16.ofNat (3000 * (n + 1)), 0, 1, 12, 0, [0x41]⟩, 0)] := by
      rw [sparse, List.range_succ, List.map_append]
      rfl
    have hjudge : judge (some (UInt16.ofNat (3000 * n))) (UInt16.ofNat (3000 * (n + 1))) =
        .progress 2999 := by
      refine judge_ahead ?_ (Nat.le_refl _)
      rw [Nat.mul_succ, UInt16.ofNat_add, UInt16.add_assoc]
      rfl
    rw [hsparse, Grouping.receiveAll_append, hes]
    refine ⟨es ++ [⟨⟨96, 0, 0, 0, 0, UInt16.ofNat (3000 * (n + 1)), 0, 1, 12, 0, [0x41]⟩, 0, 2999⟩],
      ?_, ?_⟩
    · simp only [Grouping.receiveAll, Grouping.receive, Grouping.intake, hjudge]
      rfl
    · rw [gaps_append, hgaps]
      show 2999 * n + 2999 = _
      omega

/-- After 716068 of them `lost_` would be 2147484933. -/
theorem lost_overflows : ¬ ∀ qs,
    ∃ r ∈ ({ buf := AuBuffers.zeroed 4194304 } : Depacketizer 4194304).receiveAllInt qs,
      Depacketizer.Conserved { buf := AuBuffers.zeroed 4194304 } qs r := by
  intro h
  obtain ⟨r, hr, -⟩ := h (sparse (716067 + 1))
  have hsome := Option.isSome_of_eq_some hr
  have hunits := (Depacketizer.receiveAllInt_isSome_iff _
    (Depacketizer.follows_fresh Depacketizer.bounded_content (AuBuffers.zeroed 4194304))
    ⟨Nat.zero_le _, Nat.zero_le _, Nat.zero_le _⟩).mp hsome
  obtain ⟨es, hes, hgaps⟩ := receiveAll_sparse 716067
  have hrange := hunits ⟨0, es, 0, false⟩ (by
    rw [Grouping.units, hes]
    exact List.mem_singleton_self _)
  have hlost : gaps es + 0 ≤ maxInt := hrange.lost
  rw [hgaps, maxInt] at hlost
  omega

end P5G
