import P5G.Gst.Lookup

/-!
# How long an arrival entry lives

With no write in progress a lookup gives a frame's whole summary exactly when no other
frame has taken the slot since the frame's first packet.  In the jitter window only two
frames on both sides of the wrap of the timestamps can have one slot.
-/

namespace P5G
namespace Gst
namespace Receiver

def since (ts : UInt32) (l : List Packet) : List Packet := l.dropWhile fun p => p.ts ≠ ts

def framePackets (ts : UInt32) (l : List Packet) : List Packet := l.filter fun p => p.ts = ts

/-- The count and the earliest and latest stamp of the packets of a frame. -/
structure WholeFrame (l : List Packet) (first last n : Nat) : Prop where
  n : n = l.length
  first : IsLeast { x | x ∈ l.map Packet.mono } first
  last : IsGreatest { x | x ∈ l.map Packet.mono } last

section
variable {ts : UInt32} {l before run : List Packet} {v : Fields}

theorem ne_of_mem_takeWhile {p : Packet} (h : p ∈ l.takeWhile fun p => p.ts ≠ ts) : p.ts ≠ ts := by
  simpa using List.mem_takeWhile_imp h

theorem since_append (h : ∀ p ∈ before, p.ts ≠ ts) : since ts (before ++ run) = since ts run :=
  List.dropWhile_append_of_pos fun p hp => by simpa using h p hp

theorem since_sublist : (since ts l).Sublist l := List.dropWhile_sublist _

theorem since_ne_nil (h : ∃ p ∈ l, p.ts = ts) : since ts l ≠ [] := by
  obtain ⟨p, hp, hts⟩ := h
  intro hnil
  have hall := List.dropWhile_eq_nil_iff.mp hnil p hp
  simp [hts] at hall

/-- Packets of other frames that are left out. -/
theorem since_filter {f : Packet → Bool} (hf : ∀ p, p.ts = ts → f p = true) :
    since ts (l.filter f) = (since ts l).filter f := by
  induction l with
  | nil => rfl
  | cons p l ih =>
    by_cases hts : p.ts = ts
    · simp [since, hf p hts, hts]
    · have hdrop : since ts (p :: l) = since ts l := by simp [since, hts]
      rw [hdrop, ← ih, List.filter_cons]
      split
      · simp [since, hts]
      · rfl

theorem framePackets_append :
    framePackets ts (before ++ run) = framePackets ts before ++ framePackets ts run :=
  List.filter_append before run

theorem framePackets_eq_self (h : ∀ p ∈ run, p.ts = ts) : framePackets ts run = run :=
  List.filter_eq_self.mpr fun p hp => decide_eq_true (h p hp)

theorem framePackets_eq_nil : framePackets ts before = [] ↔ ∀ p ∈ before, p.ts ≠ ts := by
  simp [framePackets, List.filter_eq_nil_iff]

/-- The entry after a frame has come to the slot and nothing else since. -/
theorem summary_append (hbefore : ∀ p ∈ before, p.ts ≠ ts) (hrun : ∀ p ∈ run, p.ts = ts)
    (hne : run ≠ []) : Summary ts before run (entry (before ++ run)) := by
  induction run using List.reverseRecOn with
  | nil => exact absurd rfl hne
  | append_singleton run p ih =>
    have hp : p.ts = ts := hrun p (by simp)
    rw [← List.append_assoc, entry_concat]
    cases hlast : run with
    | nil =>
      rw [List.append_nil, ← hp]
      rw [← hp] at hbefore
      have hkey : (entry before).key ≠ p.ts.toUInt64 := by
        intro hkey
        obtain ⟨before', run', heq, hsum⟩ := summary_of_key hkey
        have hmem : run'.head hsum.ne_nil ∈ before := by simp [heq]
        exact hbefore _ hmem (hsum.frame _ (List.head_mem _))
      rw [record_new hkey]
      exact Summary.single fun q hq => hbefore q (List.mem_of_getLast? hq)
    | cons q rest =>
      have hsum := ih (fun q hq => hrun q (by simp [hq])) (by simp [hlast])
      rw [← hlast, record_same (hsum.key.trans (by rw [hp]))]
      exact hsum.concat hp

theorem Summary.wholeFrame (h : Summary ts before run v)
    (hmono : run.Pairwise fun p q => p.mono ≤ q.mono) : WholeFrame run v.first v.last v.n := by
  refine ⟨h.n, ⟨h.first_mem, fun x hx => ?_⟩, ?_⟩
  · obtain ⟨p, hp, rfl⟩ := List.mem_map.mp hx
    exact h.first_le p hp
  · have hne := h.ne_nil
    have hlast := h.last (run.getLast hne) (List.getLast?_eq_some_getLast hne)
    rw [hlast]
    refine ⟨List.mem_map_of_mem (List.getLast_mem hne), fun x hx => ?_⟩
    obtain ⟨p, hp, rfl⟩ := List.mem_map.mp hx
    rcases eq_or_ne p (run.getLast hne) with rfl | hpne
    · exact Nat.le_refl _
    · rw [← List.dropLast_append_getLast hne, List.pairwise_append] at hmono
      rw [← List.dropLast_append_getLast hne, List.mem_append] at hp
      rcases hp with hp | hp
      · exact hmono.2.2 p hp _ (List.mem_singleton_self _)
      · exact absurd (List.mem_singleton.mp hp) hpne

/-- The fields tell of the whole frame as long as no other frame has come to the slot. -/
theorem entry_whole_iff (hmem : ∃ p ∈ l, p.ts = ts)
    (hmono : l.Pairwise fun p q => p.mono ≤ q.mono) :
    (entry l).key = ts.toUInt64 ∧
        WholeFrame (framePackets ts l) (entry l).first (entry l).last (entry l).n ↔
      ∀ p ∈ since ts l, p.ts = ts := by
  constructor
  · intro hfields
    obtain ⟨hkey, hwhole⟩ := hfields
    obtain ⟨before, run, hl, hsum⟩ := summary_of_key hkey
    have hn := hwhole.n
    rw [hsum.n, hl, framePackets_append, framePackets_eq_self hsum.frame,
      List.length_append] at hn
    have hbefore : framePackets ts before = [] := List.eq_nil_of_length_eq_zero (by omega)
    rw [hl, since_append (framePackets_eq_nil.mp hbefore)]
    exact fun p hp => hsum.frame p (since_sublist.mem hp)
  · intro hsince
    have hl : l.takeWhile (fun p => p.ts ≠ ts) ++ since ts l = l :=
      List.takeWhile_append_dropWhile
    have hbefore : ∀ p ∈ l.takeWhile (fun p => p.ts ≠ ts), p.ts ≠ ts :=
      fun p hp => ne_of_mem_takeWhile hp
    have hsum := summary_append hbefore hsince (since_ne_nil hmem)
    have hframe : framePackets ts l = since ts l := by
      calc framePackets ts l
          = framePackets ts (l.takeWhile (fun p => p.ts ≠ ts) ++ since ts l) := by rw [hl]
        _ = since ts l := by
          rw [framePackets_append, framePackets_eq_nil.mpr hbefore, List.nil_append,
            framePackets_eq_self hsince]
    rw [hl] at hsum
    rw [hframe]
    exact ⟨hsum.key, hsum.wholeFrame (hmono.sublist since_sublist)⟩

end

variable {Thread : Type*} {s s' : State Thread} {ts : UInt32}

def Writer.pending : Writer → Option Packet
  | .idle => none
  | .loadKey p | .loadSeq p _ | .openSeq p _ _ | .store p _ _ => some p

structure Ordered (s : State Thread) : Prop where
  log : ∀ i, (s.arrivals i).log = s.recorded.filter fun p => arrivalSlot p.ts = i
  stamps : s.recorded.Pairwise fun p q => p.mono ≤ q.mono
  clock : ∀ p ∈ s.recorded, p.mono ≤ s.clock
  pending : ∀ p ∈ s.writer.pending, s.clock = p.mono

/-- A store that records nothing. -/
theorem log_setSlot (ts : UInt32) (lock : Seqlock Fields) (i : Nat) :
    ((s.setSlot ts ⟨lock, (s.slot ts).log⟩).arrivals i).log = (s.arrivals i).log := by
  by_cases hi : i = arrivalSlot ts
  · subst hi
    have hself := State.slot_setSlot (s := s) ts ⟨lock, (s.slot ts).log⟩
    rw [State.slot] at hself
    rw [hself]
    rfl
  · rw [State.arrivals_setSlot_of_ne hi]

/-- The store that records a packet. -/
theorem log_setSlot_concat {p : Packet} {lock : Seqlock Fields} {l : List Packet}
    (h : ∀ i, (s.arrivals i).log = l.filter fun q => arrivalSlot q.ts = i) (i : Nat) :
    ((s.setSlot p.ts ⟨lock, (s.slot p.ts).log ++ [p]⟩).arrivals i).log =
      (l ++ [p]).filter fun q => arrivalSlot q.ts = i := by
  by_cases hi : i = arrivalSlot p.ts
  · subst hi
    have hself := State.slot_setSlot (s := s) p.ts ⟨lock, (s.slot p.ts).log ++ [p]⟩
    rw [State.slot] at hself
    rw [hself, List.filter_append, ← h]
    simp [State.slot]
  · rw [State.arrivals_setSlot_of_ne hi, h, List.filter_append]
    simp [Ne.symm hi]

theorem Ordered.write (hi : Ordered s) (h : s.write = some s') : Ordered s' := by
  have hpending := hi.pending
  cases hw : s.writer with
  | idle =>
    rw [State.write, hw] at h
    cases h
  | loadKey p | loadSeq p sameFrame =>
    rw [hw] at hpending
    rw [State.write, hw] at h
    cases h
    exact ⟨hi.log, hi.stamps, hi.clock, hpending⟩
  | openSeq p sameFrame seq0 =>
    rw [hw] at hpending
    rw [State.write, hw] at h
    cases h
    exact ⟨fun i => (log_setSlot p.ts _ i).trans (hi.log i), hi.stamps, hi.clock, hpending⟩
  | store p seq0 rest =>
    rw [hw] at hpending
    rw [State.write, hw] at h
    cases rest with
    | cons f rest =>
      cases h
      exact ⟨fun i => (log_setSlot p.ts _ i).trans (hi.log i), hi.stamps, hi.clock, hpending⟩
    | nil =>
      have hclock : s.clock = p.mono := hpending p rfl
      cases h
      refine ⟨log_setSlot_concat hi.log, ?_, fun q hq => ?_, fun q hq => by cases hq⟩
      · refine List.pairwise_append.mpr ⟨hi.stamps, List.pairwise_singleton _ _, ?_⟩
        intro q hq q' hq'
        rw [List.mem_singleton.mp hq', ← hclock]
        exact hi.clock q hq
      · rcases List.mem_append.mp hq with hq | hq
        · exact hi.clock q hq
        · rw [List.mem_singleton.mp hq]
          exact Nat.le_of_eq hclock.symm

theorem Ordered.packet {p : Packet} (hi : Ordered s) (h : s.packet p = some s') :
    Ordered s' := by
  rw [State.packet] at h
  split at h
  · next hw =>
    split at h
    · cases h
    · next hmono =>
      have hclock : ∀ q ∈ s.recorded, q.mono ≤ p.mono := fun q hq => by
        have hle := hi.clock q hq
        omega
      split at h
      · cases h
        refine ⟨hi.log, hi.stamps, hclock, fun q hq => ?_⟩
        rw [hw] at hq
        cases hq
      · cases h
        refine ⟨hi.log, hi.stamps, hclock, fun q hq => ?_⟩
        cases hq
        rfl
  · cases h

variable [DecidableEq Thread]

/-- A lookup touches nothing but its own thread. -/
theorem exists_setReader {r : Thread} (h : s.read r = some s') : ∃ rd, s' = s.setReader r rd := by
  obtain ⟨ts, hts, h⟩ := Option.bind_eq_some_iff.mp h
  obtain ⟨rd, -, rfl⟩ := Option.map_eq_some_iff.mp h
  exact ⟨rd, rfl⟩

theorem exists_setReader_lookup {r : Thread} (h : s.lookup r ts = some s') :
    ∃ rd, s' = s.setReader r rd := by
  rw [State.lookup] at h
  split at h <;> cases h <;> exact ⟨_, rfl⟩

theorem reachable_recording (h : (receiver Thread).Reachable s) : Recording s ∧ Ordered s := by
  apply h.invariant
  · refine ⟨⟨fun _ => rfl, fun _ => ⟨rfl, rfl⟩⟩, fun _ => rfl, .nil, ?_, ?_⟩
    · intro p hp
      cases hp
    · intro p hp
      cases hp
  · intro s a s' ⟨hrec, hord⟩ hstep
    cases a with
    | announce ssrc =>
      cases hstep
      exact ⟨⟨hrec.good, hrec.writer⟩, hord.log, hord.stamps, hord.clock, hord.pending⟩
    | packet p => exact ⟨(hrec.packet hstep).1, hord.packet hstep⟩
    | write => exact ⟨(hrec.write hstep).1, hord.write hstep⟩
    | lookup r ts =>
      obtain ⟨rd, rfl⟩ := exists_setReader_lookup hstep
      exact ⟨⟨hrec.good, hrec.writer⟩, hord.log, hord.stamps, hord.clock, hord.pending⟩
    | read r =>
      obtain ⟨rd, rfl⟩ := exists_setReader hstep
      exact ⟨⟨hrec.good, hrec.writer⟩, hord.log, hord.stamps, hord.clock, hord.pending⟩

def Spaced (a b : UInt32) : Prop := 90 ≤ (a - b).toNat ∧ 90 ≤ (b - a).toNat

/-- At most `kMaxJitterMs` apart, one way round. -/
def InWindow (a b : UInt32) : Prop := (a - b).toNat ≤ 72000 ∨ (b - a).toNat ≤ 72000

/-- The shorter way from one to the other leads over the wrap. -/
def AcrossWrap (a b : UInt32) : Prop :=
  (b < a ∧ (b - a).toNat < 2 ^ 31) ∨ (a < b ∧ (a - b).toNat < 2 ^ 31)

instance {a b : UInt32} : Decidable (Spaced a b) := inferInstanceAs (Decidable (_ ∧ _))

instance {a b : UInt32} : Decidable (InWindow a b) := inferInstanceAs (Decidable (_ ∨ _))

instance {a b : UInt32} : Decidable (AcrossWrap a b) := inferInstanceAs (Decidable (_ ∨ _))

/-- On one side of the wrap two frames of the window have two slots. -/
theorem arrivalSlot_ne {a b : UInt32} (hspaced : Spaced a b) (hwindow : InWindow a b)
    (hside : ¬ AcrossWrap a b) : arrivalSlot a ≠ arrivalSlot b := by
  have ha := a.toNat_lt
  have hb := b.toNat_lt
  simp only [Spaced, InWindow, AcrossWrap, UInt32.toNat_sub, UInt32.lt_iff_toNat_lt]
    at hspaced hwindow hside
  rw [arrivalSlot, arrivalSlot]
  omega

/-- The packets of a frame are all in its slot. -/
theorem framePackets_filter (l : List Packet) :
    framePackets ts (l.filter fun p => arrivalSlot p.ts = arrivalSlot ts) = framePackets ts l := by
  rw [framePackets, framePackets, List.filter_filter]
  apply List.filter_congr
  intro p _
  by_cases hts : p.ts = ts <;> simp [hts]

/-- The entry of a frame is whole as long as no other frame of its slot has come. -/
theorem lookup_whole_iff (h : (receiver Thread).Reachable s) (hw : s.writer = .idle)
    (hts : ∃ p ∈ s.recorded, p.ts = ts) :
    (∃ first last n, (s.slot ts).lock.val.lookup ts = some (first, last, n) ∧
        WholeFrame (framePackets ts s.recorded) first last n) ↔
      ∀ p ∈ since ts s.recorded, p.ts ≠ ts → arrivalSlot p.ts ≠ arrivalSlot ts := by
  obtain ⟨hrec, hord⟩ := reachable_recording h
  have hok := hrec.writer
  rw [WriterOk, hw] at hok
  have hval : (s.slot ts).lock.val = entry (s.slot ts).log := (hok (arrivalSlot ts)).val
  have hlog : (s.slot ts).log = s.recorded.filter fun p => arrivalSlot p.ts = arrivalSlot ts :=
    hord.log (arrivalSlot ts)
  have hmem : ∃ p ∈ (s.slot ts).log, p.ts = ts := by
    obtain ⟨p, hp, rfl⟩ := hts
    exact ⟨p, by rw [hlog]; simpa using hp, rfl⟩
  have hmono : (s.slot ts).log.Pairwise fun p q => p.mono ≤ q.mono := by
    rw [hlog]
    exact hord.stamps.sublist List.filter_sublist
  have hframe : framePackets ts (s.slot ts).log = framePackets ts s.recorded := by
    rw [hlog]
    exact framePackets_filter s.recorded
  have hsince : since ts (s.slot ts).log =
      (since ts s.recorded).filter fun p => arrivalSlot p.ts = arrivalSlot ts := by
    rw [hlog]
    exact since_filter fun p hp => by simp [hp]
  have hiff := entry_whole_iff hmem hmono
  rw [hframe, hsince, ← hval] at hiff
  constructor
  · intro hfound p hp hne heq
    obtain ⟨first, last, n, hlookup, hwhole⟩ := hfound
    rw [Fields.lookup] at hlookup
    split at hlookup
    · next hkey =>
      cases hlookup
      exact hne (hiff.mp ⟨hkey, hwhole⟩ p (List.mem_filter.mpr ⟨hp, decide_eq_true heq⟩))
    · cases hlookup
  · intro hslots
    obtain ⟨hkey, hwhole⟩ := hiff.mpr fun p hp => by
      obtain ⟨hp, heq⟩ := List.mem_filter.mp hp
      by_contra hne
      exact hslots p hp hne (of_decide_eq_true heq)
    exact ⟨_, _, _, if_pos hkey, hwhole⟩

/-- In the jitter window an entry is whole as long as no frame from the other side of the
wrap has taken its slot. -/
theorem lookupArrival_alive (h : (receiver Thread).Reachable s) (hw : s.writer = .idle)
    {r : Thread} (hr : (s.readers r).free = true) (hts : ∃ p ∈ s.recorded, p.ts = ts)
    (hspaced : ∀ p ∈ s.recorded, ∀ q ∈ s.recorded, p.ts ≠ q.ts → Spaced p.ts q.ts)
    (hwindow : ∀ p ∈ since ts s.recorded, InWindow p.ts ts) :
    (∃ first last n, s.Returns r ts (some (first, last, n)) ∧
        WholeFrame (framePackets ts s.recorded) first last n) ↔
      ∀ p ∈ since ts s.recorded, AcrossWrap p.ts ts → arrivalSlot p.ts ≠ arrivalSlot ts := by
  simp only [returns_iff (reachable_recording h).1 hw hr]
  rw [lookup_whole_iff h hw hts]
  constructor
  · intro hslots p hp hacross
    apply hslots p hp
    rintro rfl
    simp [AcrossWrap, UInt32.lt_irrefl] at hacross
  · intro hslots p hp hne
    by_cases hacross : AcrossWrap p.ts ts
    · exact hslots p hp hacross
    · obtain ⟨q, hq, rfl⟩ := hts
      have hpq := hspaced p (since_sublist.mem hp) q hq hne
      exact arrivalSlot_ne hpq (hwindow p hp) hacross

def wrapRun : List (RecvAct Unit) :=
  .announce 7 ::
    ([⟨7, 4294967290, 5⟩, ⟨7, 3594, 45⟩, ⟨7, 3594, 46⟩].flatMap fun p =>
      .packet p :: List.replicate (4 + (fieldStores p (p.mono = 46)).length) .write)

theorem lookupArrival_alive_wrapRun :
    ∃ s : State Unit, s.recorded = [⟨7, 4294967290, 5⟩, ⟨7, 3594, 45⟩, ⟨7, 3594, 46⟩] ∧
      ∃ first last n, s.Returns () 3594 (some (first, last, n)) ∧
        WholeFrame (framePackets 3594 s.recorded) first last n := by
  obtain ⟨s, hreach, hw, hr, hrec⟩ := (receiver Unit).exists_of_execBy
    (G := fun _ _ => True) wrapRun
    (P := fun s => s.writer = .idle ∧ (s.readers ()).free = true ∧
      s.recorded = [⟨7, 4294967290, 5⟩, ⟨7, 3594, 45⟩, ⟨7, 3594, 46⟩]) (by decide +kernel)
  refine ⟨s, hrec, (lookupArrival_alive hreach hw hr ?_ ?_ ?_).mpr ?_⟩ <;> rw [hrec] <;> decide

/-- Two frames 34740 ticks apart, below and above the wrap. -/
def lostRun : List (RecvAct Unit) :=
  .announce 7 ::
    ([⟨7, 4294940296, 5⟩, ⟨7, 7740, 405⟩].flatMap fun p => .packet p :: List.replicate 8 .write)

theorem not_forall_alive :
    ¬ ∀ (s : State Unit) (ts : UInt32), (receiver Unit).Reachable s → s.writer = .idle →
      (s.readers ()).free = true → (∃ p ∈ s.recorded, p.ts = ts) →
      (∀ p ∈ s.recorded, ∀ q ∈ s.recorded, p.ts ≠ q.ts → Spaced p.ts q.ts) →
      (∀ p ∈ since ts s.recorded, InWindow p.ts ts) →
      ∃ first last n, s.Returns () ts (some (first, last, n)) ∧
        WholeFrame (framePackets ts s.recorded) first last n := by
  intro hall
  obtain ⟨s, hreach, hw, hr, hrec, hkey⟩ := (receiver Unit).exists_of_execBy
    (G := fun _ _ => True) lostRun
    (P := fun s => s.writer = .idle ∧ (s.readers ()).free = true ∧
      s.recorded = [⟨7, 4294940296, 5⟩, ⟨7, 7740, 405⟩] ∧
      (s.slot 4294940296).lock.val.lookup 4294940296 = none) (by decide +kernel)
  obtain ⟨first, last, n, hreturns, hwhole⟩ := hall s 4294940296 hreach hw hr
    (by rw [hrec]; decide) (by rw [hrec]; decide) (by rw [hrec]; decide)
  have hlookup := (returns_iff (reachable_recording hreach).1 hw hr).mp hreturns
  rw [hkey] at hlookup
  cases hlookup

end Receiver
end Gst
end P5G
