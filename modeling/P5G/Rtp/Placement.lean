import P5G.Rtp.Replay

/-!
# Any network

The packets of a stream arrive in any order, any number of times or not at
all.  Every group that they fall into is made of packets of one access unit,
in the order of sending, and each gap inside it is the number of packets of
that access unit that were skipped.
-/

namespace P5G

theorem consecutive_at {s : UInt16} {ps : List Sent} (h : Consecutive s ps) {pre post : List Sent}
    {p : Sent} (hps : ps = pre ++ p :: post) : p.header.seq = s + UInt16.ofNat pre.length := by
  rw [hps] at h
  exact (consecutive_append h).2.1

theorem consecutive_key {s : UInt16} {ps qs : List Sent} (hkey : qs.map Sent.key = ps.map Sent.key)
    (h : Consecutive s ps) : Consecutive s qs := by
  induction ps generalizing qs s with
  | nil =>
    obtain rfl : qs = [] := by simpa using hkey
    exact trivial
  | cons p ps ih =>
    obtain ⟨q, qs, rfl, hq, hqs⟩ := List.map_eq_cons_iff.mp hkey
    have hheader : q.header = p.header := congrArg Prod.snd hq
    exact ⟨hheader ▸ h.1, ih hqs h.2⟩

theorem consecutive_au {s : SentStream} {au : SentAu} (h : au ∈ s.aus) :
    ∃ b, Consecutive b au.packets := by
  obtain ⟨pre, post, hs⟩ := List.append_of_mem h
  have hseq := s.consecutive
  rw [hs, List.flatMap_append, List.flatMap_cons] at hseq
  exact ⟨_, (consecutive_append (consecutive_append hseq).2).1⟩

theorem judge_progress {l seq : UInt16} {g : Nat} (h : judge (some l) seq = .progress g) :
    0 < (seq - l).toInt16.toInt ∧ (seq - l).toInt16.toInt ≤ 3000 ∧
      (g : Int) = (seq - l).toInt16.toInt - 1 := by
  simp only [judge] at h
  generalize (seq - l).toInt16.toInt = step at h
  by_cases hs : step ≤ 0 ∧ -maxMisorder ≤ step
  · rw [if_pos hs] at h
    cases h
  · rw [if_neg hs] at h
    by_cases hp : 0 < step ∧ step ≤ maxDropout
    · rw [if_pos hp] at h
      cases h
      refine ⟨hp.1, hp.2, ?_⟩
      omega
    · rw [if_neg hp] at h
      cases h

/-- Within 2^15 packets a step of progress is the distance of the packets. -/
theorem distance_of_progress {b : UInt16} {i j g : Nat} (hi : i < 32768) (hj : j < 32768)
    (h : judge (some (b + UInt16.ofNat i)) (b + UInt16.ofNat j) = .progress g) : j = i + 1 + g := by
  have hsub : (b + UInt16.ofNat j - (b + UInt16.ofNat i)).toNat = (65536 + j - i) % 65536 := by
    have hb := b.toNat_lt
    rw [UInt16.toNat_sub, UInt16.toNat_add, UInt16.toNat_add, UInt16.toNat_ofNat',
      UInt16.toNat_ofNat']
    omega
  obtain ⟨hpos, hle, hg⟩ := judge_progress h
  rw [Depacketizer.toInt16_toInt, hsub] at hpos hle hg
  split at hg <;> omega

/-- These are packets of `au`, received in the order of sending, and the last
of them has sequence number `seq`. -/
def Placed (au : SentAu) (es : List Entry) (seq : UInt16) : Prop :=
  ∃ pre p post, (pre ++ p :: post).map Sent.key = au.packets.map Sent.key ∧ p.lost = false ∧
    (∀ x ∈ post, x.fate = none) ∧ p.header.seq = seq ∧ Alike es (replay 0 (pre ++ [p]))

theorem Placed.ne_nil {au : SentAu} {es : List Entry} {seq : UInt16} (h : Placed au es seq) :
    es ≠ [] := by
  obtain ⟨pre, p, post, -, hp, -, -, halike⟩ := h
  have hsent : ∃ q ∈ pre ++ [p], q.lost = false := ⟨p, by simp, hp⟩
  have hne := replay_ne_nil hsent 0
  cases es with
  | nil =>
    cases hr : replay 0 (pre ++ [p]) with
    | nil => exact absurd hr hne
    | cons y fs =>
      rw [hr] at halike
      exact halike.elim
  | cons x es => exact List.cons_ne_nil x es

theorem placed_first {au : SentAu} {p : Sent} (hp : p ∈ au.packets) {x : Entry}
    (hx : x.packet = p.header) : Placed au [x] p.header.seq := by
  obtain ⟨pre, post, hau⟩ := List.append_of_mem hp
  have hlost : ∀ q ∈ pre.map Sent.unreceived, q.fate = none := by
    intro q hq
    obtain ⟨q', -, rfl⟩ := List.mem_map.mp hq
    rfl
  refine ⟨pre.map Sent.unreceived, p.receivedAt x.arrival, post.map Sent.unreceived, ?_, rfl, ?_,
    rfl, ?_⟩
  · rw [hau, List.map_append, List.map_cons, List.map_map, List.map_map, List.map_append,
      List.map_cons]
    rfl
  · intro q hq
    obtain ⟨q', -, rfl⟩ := List.mem_map.mp hq
    rfl
  · obtain ⟨hnil, -⟩ := replay_lost hlost 0
    rw [replay_append, hnil]
    refine ⟨?_, rfl⟩
    rw [Entry.received, hx]
    rfl

theorem placed_next {au : SentAu} {es : List Entry} {seq : UInt16} (h : Placed au es seq)
    {b : UInt16} (hseq : Consecutive b au.packets) (hlen : au.packets.length ≤ 32768) {q : Sent}
    (hq : q ∈ au.packets) {x : Entry} (hx : x.packet = q.header)
    (hjudge : judge (some seq) q.header.seq = .progress x.gap) :
    Placed au (es ++ [x]) q.header.seq := by
  have hne := h.ne_nil
  obtain ⟨pre, p, post, hkey, hp, hpost, rfl, halike⟩ := h
  obtain ⟨before, behind, hau⟩ := List.append_of_mem hq
  have hpseq := consecutive_at (consecutive_key hkey hseq) rfl
  have hqseq := consecutive_at hseq hau
  have hlength := congrArg List.length hkey
  have hlength' := congrArg List.length hau
  simp only [List.length_map, List.length_append, List.length_cons] at hlength hlength'
  rw [hpseq, hqseq] at hjudge
  have hdist := distance_of_progress (by omega) (by omega) hjudge
  -- the packet that arrives stands `x.gap` places behind the last received one
  have hsplit : pre ++ p :: post = (pre ++ p :: post.take x.gap) ++ post.drop x.gap := by simp
  have hfront : (pre ++ p :: post.take x.gap).length = before.length := by
    simp only [List.length_append, List.length_cons, List.length_take]
    omega
  have hkey' : (pre ++ p :: post.take x.gap).map Sent.key ++ (post.drop x.gap).map Sent.key =
      before.map Sent.key ++ (q :: behind).map Sent.key := by
    rw [← List.map_append, ← List.map_append, ← hsplit, ← hau]
    exact hkey
  obtain ⟨hkeyFront, hkeyBack⟩ :=
    List.append_inj hkey' (by rw [List.length_map, List.length_map, hfront])
  obtain ⟨r, rest, hdrop, hr, hrest⟩ := List.map_eq_cons_iff.mp hkeyBack
  have hskipped : ∀ y ∈ post.take x.gap, y.fate = none := fun y hy =>
    hpost y (List.mem_of_mem_take hy)
  have hrest' : ∀ y ∈ rest, y.fate = none := fun y hy =>
    hpost y (List.mem_of_mem_drop (by rw [hdrop]; exact List.mem_cons_of_mem r hy))
  refine ⟨pre ++ p :: post.take x.gap, q.receivedAt x.arrival, rest, ?_, rfl, hrest', rfl, ?_⟩
  · rw [List.map_append, hkeyFront, List.map_cons, hrest, hau, List.map_append, List.map_cons]
    rfl
  · obtain ⟨hnil, htrail⟩ := replay_lost hskipped 0
    have hfirst : pre ++ p :: post.take x.gap = (pre ++ [p]) ++ post.take x.gap := by simp
    have hafter : trailing 0 (pre ++ [p]) = 0 := by
      rw [trailing_append]
      show (if p.lost then _ else _) = 0
      rw [hp]
      rfl
    have hgap : x.gap = trailing 0 (pre ++ p :: post.take x.gap) := by
      rw [hfirst, trailing_append, hafter, htrail, Nat.zero_add, List.length_take]
      omega
    have hentry : replay (trailing 0 (pre ++ p :: post.take x.gap)) [q.receivedAt x.arrival] = [x] := by
      rw [← hgap]
      show [Entry.mk q.header x.arrival x.gap] = [x]
      rw [← hx]
    rw [replay_append, hentry]
    refine Alike.concat ?_ hne x
    rw [hfirst, replay_append, hafter, hnil, List.append_nil]
    exact halike

/-- Each access unit has a timestamp of its own and at most half of the
sequence numbers. -/
structure Spaced (aus : List SentAu) : Prop where
  stamps : aus.Pairwise fun a b => a.ts ≠ b.ts
  short : ∀ au ∈ aus, au.packets.length ≤ 32768

def FromStream (s : SentStream) (qs : List (RtpHeader × Int)) : Prop :=
  ∀ q ∈ qs, ∃ p ∈ s.packets, q.1 = p.header

theorem eq_of_ts {aus : List SentAu} (h : aus.Pairwise fun a b => a.ts ≠ b.ts) {au bu : SentAu}
    (ha : au ∈ aus) (hb : bu ∈ aus) (hts : au.ts = bu.ts) : au = bu := by
  by_contra hne
  have : Std.Symm fun a b : SentAu => a.ts ≠ b.ts := ⟨fun _ _ h => h.symm⟩
  exact h.forall ha hb hne hts

theorem packet_ts {au : SentAu} {p : Sent} (h : p ∈ au.packets) : p.header.ts = au.ts :=
  au.stamped p h

def Grounded (s : SentStream) (r : Grouping) : Prop :=
  ∀ x ∈ r.current, ∃ l au, r.last = some l ∧ au ∈ s.aus ∧ au.ts = x.1 ∧ Placed au x.2 l

def Belongs (s : SentStream) (g : Group) : Prop :=
  ∃ l au, au ∈ s.aus ∧ au.ts = g.ts ∧ Placed au g.entries l

theorem cut_belongs {s : SentStream} {r : Grouping} (h : Grounded s r) (tail : Nat) :
    ∀ g ∈ r.cut tail, Belongs s g := by
  intro g hg
  rw [Grouping.cut] at hg
  cases hc : r.current with
  | none => simp [hc] at hg
  | some x =>
    obtain ⟨l, au, -, hau, hts, hplaced⟩ := h x hc
    obtain rfl : g = ⟨x.1, x.2, tail, false⟩ := by simpa [hc] using hg
    exact ⟨l, au, hau, hts, hplaced⟩

theorem intake_placed {s : SentStream} (hs : Spaced s.aus) {r : Grouping} (h : Grounded s r)
    {q : RtpHeader × Int} (hq : ∃ p ∈ s.packets, q.1 = p.header) {i : Intake}
    (hi : r.intake q = some i) :
    (∀ g ∈ i.ended, Belongs s g) ∧ ∃ au ∈ s.aus, au.ts = i.entry.packet.ts ∧
      Placed au (i.entries ++ [i.entry]) i.entry.packet.seq := by
  obtain ⟨p, hp, hqp⟩ := hq
  obtain ⟨au, hau, hpau⟩ := List.mem_flatMap.mp hp
  have hts : au.ts = q.1.ts := by rw [hqp, packet_ts hpau]
  have hfirst : ∀ g, Placed au ([] ++ [(⟨q.1, q.2, g⟩ : Entry)]) q.1.seq := by
    intro g
    rw [hqp]
    exact placed_first hpau rfl
  rw [Grouping.intake] at hi
  cases hv : judge r.last q.1.seq with
  | stale => rw [hv] at hi; cases hi
  | restart =>
    rw [hv] at hi
    cases hi
    exact ⟨cut_belongs h 0, au, hau, hts, hfirst 0⟩
  | progress g =>
    rw [hv] at hi
    cases hc : r.current with
    | none =>
      simp only [hc] at hi
      cases hi
      exact ⟨by simp, au, hau, hts, hfirst g⟩
    | some x =>
      simp only [hc] at hi
      by_cases hsame : q.1.ts = x.1
      · rw [if_pos hsame] at hi
        cases hi
        obtain ⟨l, bu, hl, hbu, hbts, hplaced⟩ := h x hc
        obtain rfl : au = bu := eq_of_ts hs.stamps hau hbu (hts.trans (hsame.trans hbts.symm))
        obtain ⟨b, hb⟩ := consecutive_au hau
        refine ⟨by simp, au, hau, hts, ?_⟩
        rw [hl, hqp] at hv
        show Placed au (x.2 ++ [_]) q.1.seq
        rw [hqp]
        exact placed_next hplaced hb (hs.short au hau) hpau rfl hv
      · rw [if_neg hsame] at hi
        cases hi
        exact ⟨cut_belongs h g, au, hau, hts, hfirst 0⟩

theorem receive_grounded {s : SentStream} (hs : Spaced s.aus) {r : Grouping} (h : Grounded s r)
    {q : RtpHeader × Int} (hq : ∃ p ∈ s.packets, q.1 = p.header) :
    Grounded s (r.receive q).1 ∧ ∀ g ∈ (r.receive q).2, Belongs s g := by
  cases hi : r.intake q with
  | none =>
    rw [Grouping.intake_none hi]
    exact ⟨h, by simp⟩
  | some i =>
    obtain ⟨hended, au, hau, hts, hplaced⟩ := intake_placed hs h hq hi
    rw [Grouping.intake_some hi]
    by_cases hm : i.entry.packet.marker = 0
    · rw [Grouping.after, Grouping.endedBy, if_pos hm, if_pos hm, List.append_nil]
      refine ⟨?_, hended⟩
      rintro x ⟨rfl⟩
      exact ⟨_, au, rfl, hau, hts, hplaced⟩
    · rw [Grouping.after, Grouping.endedBy, if_neg hm, if_neg hm]
      refine ⟨by rintro x ⟨⟩, fun g hg => ?_⟩
      rcases List.mem_append.mp hg with hg | hg
      · exact hended g hg
      · obtain rfl := List.mem_singleton.mp hg
        exact ⟨_, au, hau, hts, hplaced⟩

/-- Every group of a run belongs to one access unit. -/
theorem receiveAll_belongs {s : SentStream} (hs : Spaced s.aus) {qs : List (RtpHeader × Int)}
    (hqs : FromStream s qs) {r : Grouping} (h : Grounded s r) :
    ∀ g ∈ (r.receiveAll qs).2, Belongs s g := by
  induction qs generalizing r with
  | nil => simp [Grouping.receiveAll]
  | cons q qs ih =>
    obtain ⟨hgrounded, hbelongs⟩ := receive_grounded hs h (hqs q List.mem_cons_self)
    intro g hg
    rw [Grouping.receiveAll] at hg
    rcases List.mem_append.mp hg with hg | hg
    · exact hbelongs g hg
    · exact ih (fun p hp => hqs p (List.mem_cons_of_mem q hp)) hgrounded g hg

/-- A group of an access unit is the access unit with some packets lost. -/
theorem Placed.units {au : SentAu} {es : List Entry} {seq : UInt16} (h : Placed au es seq) :
    ∃ vs, List.Forall₂ SameUnit au.units vs ∧
      Alike es (replay 0 (vs.flatMap SentUnit.packets)) := by
  obtain ⟨pre, p, post, hkey, -, hpost, -, halike⟩ := h
  obtain ⟨vs, hvs, hsame⟩ := exists_units au.units hkey
  refine ⟨vs, hsame, ?_⟩
  have hsplit : pre ++ p :: post = (pre ++ [p]) ++ post := by simp
  rw [hvs, hsplit, replay_append, (replay_lost hpost _).1, List.append_nil]
  exact halike

theorem weight_placed {au : SentAu} {es : List Entry} {seq : UInt16} (h : Placed au es seq) :
    weight es ≤ (au.nals.map fun n => 4 + n.bytes.length).sum := by
  obtain ⟨pre, p, post, hkey, -, hpost, -, halike⟩ := h
  have hsplit : pre ++ p :: post = (pre ++ [p]) ++ post := by simp
  have hall : replay 0 (pre ++ p :: post) = replay 0 (pre ++ [p]) := by
    rw [hsplit, replay_append, (replay_lost hpost _).1, List.append_nil]
  have hpieces := congrArg (List.map fun k => Piece.size k.1) hkey
  rw [List.map_map, List.map_map] at hpieces
  rw [halike.weight, ← hall, ← au.size_packets]
  refine Nat.le_trans (weight_replay _ 0) (Nat.le_of_eq ?_)
  exact congrArg List.sum hpieces

end P5G
