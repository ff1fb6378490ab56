import P5G.Ffmpeg.Receiver

/-!
# Before and after the stream-start

The stores of `OnMessage` reach the receive thread in an order that only swaps the first
two, and a stream is announced once.  So from the moment the packet trace is open, the SSRC
and the payload type stand still, and what is counted and what is depacketized can be read
off the rows of the trace.
-/

namespace P5G
namespace Ffmpeg
namespace Receiver

variable {cap : Nat} {s t : State cap}

def namesStream : Act → Bool
  | .message m => m.valueStr "type" "" != some "stream-start" || m.valueStr "stream" "" != some ""
  | _ => true

/-- A stream-start whose stream has no name leaves `stream_` empty, and the next one would
be taken for the first. -/
def NamesStream (_ : State cap) (a : Act) : Prop := namesStream a = true

instance (s : State cap) (a : Act) : Decidable (NamesStream s a) :=
  inferInstanceAs (Decidable (namesStream a = true))

theorem rank_le (st : Store) : st.rank ≤ 5 := by
  cases st <;> simp [Store.rank]

theorem stores_sorted (m : Fields) : (stores m).Pairwise fun a b => a.rank < b.rank := by
  rw [stores]
  split
  · exact .nil
  · split
    · exact List.pairwise_singleton _ _
    · simp [Store.rank]

theorem stores_decoded {m : Fields} (h : Store.frames ∈ stores m) : Store.decoded ∈ stores m := by
  rw [stores] at h ⊢
  split at h
  · cases h
  · split at h
    · simp at h
    · simp

/-! ## The order of the stores -/

structure Staged (s : State cap) : Prop where
  fresh : s.stream = "" → s.pending = [] ∧ s.ssrc = 0 ∧ s.rtp.isSome = false ∧
    s.decoded.isSome = false ∧ s.frames.isSome = false
  sorted : s.pending.Pairwise fun a b => a.rank < b.rank
  rtp : s.rtp.isSome = true → ∀ st ∈ s.pending, 2 < st.rank
  decoded : s.decoded.isSome = true → ∀ st ∈ s.pending, 4 < st.rank
  frames : s.frames.isSome = true → s.pending = [] ∧ s.decoded.isSome = true
  ssrc : ∀ v, .ssrc v ∈ s.pending → s.ssrc = 0
  before : .frames ∈ s.pending → .decoded ∈ s.pending ∨ s.decoded.isSome = true

theorem Staged.of_eq (h : Staged s) (hstream : t.stream = s.stream) (hpending : t.pending = s.pending)
    (hssrc : t.ssrc = s.ssrc) (hrtp : t.rtp.isSome = s.rtp.isSome)
    (hdecoded : t.decoded.isSome = s.decoded.isSome)
    (hframes : t.frames.isSome = s.frames.isSome) : Staged t where
  fresh := by
    rw [hstream, hpending, hssrc, hrtp, hdecoded, hframes]
    exact h.fresh
  sorted := hpending ▸ h.sorted
  rtp := by
    rw [hrtp, hpending]
    exact h.rtp
  decoded := by
    rw [hdecoded, hpending]
    exact h.decoded
  frames := by
    rw [hframes, hpending, hdecoded]
    exact h.frames
  ssrc := by
    rw [hpending, hssrc]
    exact h.ssrc
  before := by
    rw [hpending, hdecoded]
    exact h.before

/-- The store that comes first is done. -/
theorem Staged.store (h : Staged s) {st : Store} {rest : List Store} (hp : s.pending = st :: rest) :
    Staged (apply { s with pending := rest } st) := by
  have hnamed : s.stream ≠ "" := by
    intro hempty
    rw [(h.fresh hempty).1] at hp
    cases hp
  have hsorted := h.sorted
  rw [hp, List.pairwise_cons] at hsorted
  have hclosed {P : Prop} (hframes : s.frames.isSome = true) : P := by
    rw [(h.frames hframes).1] at hp
    cases hp
  have hmem : ∀ x ∈ rest, x ∈ s.pending := fun x hx => hp ▸ List.mem_cons_of_mem st hx
  have hrtp := fun hr x hx => h.rtp hr x (hmem x hx)
  have hdecoded := fun hd x hx => h.decoded hd x (hmem x hx)
  have hssrc := fun v hv => h.ssrc v (hmem (.ssrc v) hv)
  have hbefore : st ≠ .decoded → Store.frames ∈ rest →
      Store.decoded ∈ rest ∨ s.decoded.isSome = true := by
    intro hne hf
    have hb := h.before (hmem _ hf)
    rw [hp, List.mem_cons] at hb
    exact hb.imp (fun hor => hor.resolve_left hne.symm) id
  cases st with
  | ssrc v =>
    refine ⟨fun he => absurd he hnamed, hsorted.2, hrtp, hdecoded, hclosed, fun w hw => ?_,
      hbefore (by simp)⟩
    exact absurd (hsorted.1 _ hw) (Nat.lt_irrefl 0)
  | pt v =>
    exact ⟨fun he => absurd he hnamed, hsorted.2, hrtp, hdecoded, hclosed, hssrc,
      hbefore (by simp)⟩
  | rtp =>
    exact ⟨fun he => absurd he hnamed, hsorted.2, fun _ => hsorted.1, hdecoded, hclosed, hssrc,
      hbefore (by simp)⟩
  | rtcp =>
    exact ⟨fun he => absurd he hnamed, hsorted.2, hrtp, hdecoded, hclosed, hssrc,
      hbefore (by simp)⟩
  | decoded =>
    exact ⟨fun he => absurd he hnamed, hsorted.2, hrtp, fun _ => hsorted.1, hclosed, hssrc,
      fun _ => .inr rfl⟩
  | frames =>
    have hlast : rest = [] := by
      refine List.eq_nil_iff_forall_not_mem.mpr fun x hx => ?_
      exact absurd (hsorted.1 x hx) (Nat.not_lt.mpr (rank_le x))
    have hdone : s.decoded.isSome = true := by
      have hb := h.before (hp ▸ List.mem_cons_self)
      rw [hp, hlast] at hb
      exact hb.resolve_left (by simp)
    exact ⟨fun he => absurd he hnamed, hsorted.2, hrtp, hdecoded, fun _ => ⟨hlast, hdone⟩, hssrc,
      fun _ => .inr hdone⟩

/-- The payload type is seen before the SSRC. -/
theorem Staged.overtake (h : Staged s) {v : UInt32} {p : UInt8} {rest : List Store}
    (hp : s.pending = .ssrc v :: .pt p :: rest) :
    Staged { s with pt := p, pending := .ssrc v :: rest } := by
  have hsub : (Store.ssrc v :: rest).Sublist s.pending := by
    rw [hp]
    exact .cons_cons _ (List.sublist_cons_self _ _)
  have hmem := hsub.subset
  refine ⟨fun he => ?_, h.sorted.sublist hsub, fun hr x hx => h.rtp hr x (hmem hx),
    fun hd x hx => h.decoded hd x (hmem hx), fun hf => ?_, fun w hw => h.ssrc w (hmem hw),
    fun hf => ?_⟩
  · have hnil := (h.fresh he).1
    rw [hp] at hnil
    cases hnil
  · have hnil := (h.frames hf).1
    rw [hp] at hnil
    cases hnil
  · have hb := h.before (hmem hf)
    rw [hp] at hb
    simpa using hb

theorem Staged.announce (h : Staged s) (hempty : s.stream = "") {m : Fields} {stream : String}
    (hname : stream ≠ "") : Staged { s with stream := stream, pending := stores m } := by
  obtain ⟨-, hssrc, hrtp, hdecoded, hframes⟩ := h.fresh hempty
  refine ⟨fun he => absurd he hname, stores_sorted m, fun hr => ?_, fun hd => ?_, fun hf => ?_,
    fun _ _ => hssrc, fun hf => .inl (stores_decoded hf)⟩
  · exact absurd (hrtp ▸ hr : false = true) Bool.false_ne_true
  · exact absurd (hdecoded ▸ hd : false = true) Bool.false_ne_true
  · exact absurd (hframes ▸ hf : false = true) Bool.false_ne_true

theorem Staged.next {a : Act} (h : Staged s) (hname : NamesStream s a) (hm : Moves s a t) :
    Staged t := by
  cases hm with
  | announce hempty hpending htype hstream =>
    refine h.announce hempty fun hn => ?_
    rw [NamesStream, namesStream, htype, hstream, hn] at hname
    exact absurd hname (by simp)
  | store hp => exact h.store hp
  | overtake hp => exact h.overtake hp
  | receive => exact h.of_eq rfl rfl rfl Option.isSome_map rfl rfl
  | writeDecoded => exact h.of_eq rfl rfl rfl rfl Option.isSome_map rfl
  | writeFrame => exact h.of_eq rfl rfl rfl rfl rfl Option.isSome_map
  | _ => exact h.of_eq rfl rfl rfl rfl rfl rfl

/-! ## What the packet trace says -/

/-- Of the datagrams `late`, those whose SSRC has been tested. -/
def judged : Rx → List Datagram → List Datagram
  | .logged _, late => late.dropLast
  | _, late => late

/-- Of the datagrams `late`, those whose payload type has been tested where it had to be. -/
def sifted : Rx → List Datagram → List Datagram
  | .logged _, late => late.dropLast
  | .counted _, late => late.dropLast
  | _, late => late

def own (ssrc : UInt32) (q : Datagram) : Bool := q.header.ssrc == ssrc

def mine (ssrc : UInt32) (pt : UInt8) (q : Datagram) : Bool :=
  q.header.ssrc == ssrc && q.header.pt == pt

theorem filter_own_append {ssrc : UInt32} {q : Datagram} (h : q.header.ssrc = ssrc)
    (qs : List Datagram) : (qs ++ [q]).filter (own ssrc) = qs.filter (own ssrc) ++ [q] := by
  simp [own, h]

theorem filter_own_skip {ssrc : UInt32} {q : Datagram} (h : q.header.ssrc ≠ ssrc)
    (qs : List Datagram) : (qs ++ [q]).filter (own ssrc) = qs.filter (own ssrc) := by
  simp [own, h]

theorem filter_mine_append {ssrc : UInt32} {pt : UInt8} {q : Datagram} (h : q.header.ssrc = ssrc)
    (hpt : q.header.pt = pt) (qs : List Datagram) :
    (qs ++ [q]).filter (mine ssrc pt) = qs.filter (mine ssrc pt) ++ [q] := by
  simp [mine, h, hpt]

theorem filter_mine_skip {ssrc : UInt32} {pt : UInt8} {q : Datagram}
    (h : q.header.ssrc ≠ ssrc ∨ q.header.pt ≠ pt) (qs : List Datagram) :
    (qs ++ [q]).filter (mine ssrc pt) = qs.filter (mine ssrc pt) := by
  have hfalse : mine ssrc pt q = false := by
    rw [mine, Bool.and_eq_false_iff, beq_eq_false_iff_ne, beq_eq_false_iff_ne]
    exact h
  rw [List.filter_append, List.filter_cons_of_neg (by simp [hfalse]), List.filter_nil,
    List.append_nil]

/-- The datagrams that came before the packet trace was open and after: `head` and `pre` are
those of the former that were counted and depacketized all the same. -/
structure Logs (s : State cap) (early late head pre : List Datagram) : Prop where
  parsed : s.past.parsed = early ++ late
  rows : s.rtp.getD [] = late.map Datagram.rtpRow
  closed : s.rtp.isSome = false → late = []
  counted : s.past.counted = head ++ (judged s.rx late).filter (own s.ssrc)
  pushed : s.past.pushed = pre ++ (sifted s.rx late).filter (mine s.ssrc s.pt)
  head_early : ∀ q ∈ head, q ∈ early ∧ (q.header.ssrc = 0 ∨ q.header.ssrc = s.ssrc)
  pre_head : ∀ q ∈ pre, q ∈ head
  logged : ∀ q, s.rx = .logged q → (late = [] ∧ q ∈ early) ∨ ∃ done, late = done ++ [q]
  counting : ∀ q, s.rx = .counted q →
    (late = [] ∧ q ∈ head) ∨ (∃ done, late = done ++ [q]) ∧ q.header.ssrc = s.ssrc

def Logged (s : State cap) : Prop := ∃ early late head pre, Logs s early late head pre

/-- The thread is not between the trace and the depacketizer. -/
def Past (rx : Rx) : Prop := ∀ late, judged rx late = late ∧ sifted rx late = late

theorem Past.not_logged {rx : Rx} (h : Past rx) (q : Datagram) : rx ≠ .logged q := by
  intro hrx
  have hone := (h [q]).1
  rw [hrx] at hone
  cases hone

theorem Past.not_counted {rx : Rx} (h : Past rx) (q : Datagram) : rx ≠ .counted q := by
  intro hrx
  have hone := (h [q]).2
  rw [hrx] at hone
  cases hone

theorem units_past (ended : List EndedUnit) : Past (.units ended) := fun _ => ⟨rfl, rfl⟩

theorem deliver_past (ended : List EndedUnit) (ys : List Delivery) : Past (.deliver ended ys) := by
  cases ys with
  | nil => exact fun _ => ⟨rfl, rfl⟩
  | cons y ys => exact fun _ => ⟨rfl, rfl⟩

variable {early late head pre : List Datagram}

/-- Nothing that the packet trace says depends on the decoder. -/
theorem Logs.of_past (h : Logs s early late head pre) (hs : Past s.rx) (ht : Past t.rx)
    (hrtp : t.rtp = s.rtp) (hssrc : t.ssrc = s.ssrc) (hpt : t.pt = s.pt)
    (hparsed : t.past.parsed = s.past.parsed) (hcounted : t.past.counted = s.past.counted)
    (hpushed : t.past.pushed = s.past.pushed) : Logs t early late head pre where
  parsed := hparsed.trans h.parsed
  rows := hrtp ▸ h.rows
  closed := hrtp ▸ h.closed
  counted := by
    rw [hcounted, h.counted, (hs late).1, (ht late).1, hssrc]
  pushed := by
    rw [hpushed, h.pushed, (hs late).2, (ht late).2, hssrc, hpt]
  head_early := hssrc ▸ h.head_early
  pre_head := h.pre_head
  logged q hq := absurd hq (ht.not_logged q)
  counting q hq := absurd hq (ht.not_counted q)

theorem Logs.receive (h : Logs s early late head pre) (hrx : s.rx = .units []) (q : Datagram) :
    Logged (receive s q) := by
  have hcounted := h.counted
  have hpushed := h.pushed
  rw [hrx] at hcounted hpushed
  cases hopen : s.rtp.isSome with
  | true =>
    obtain ⟨rows, hrows⟩ := Option.isSome_iff_exists.mp hopen
    have hlate := h.rows
    rw [hrows, Option.getD_some] at hlate
    refine ⟨early, late ++ [q], head, pre, ?_, ?_, fun hn => ?_, ?_, ?_, h.head_early, h.pre_head,
      fun p hp => ?_, fun p hp => ?_⟩
    · show s.past.parsed ++ [q] = _
      rw [h.parsed, List.append_assoc]
    · show (s.rtp.map (· ++ [q.rtpRow])).getD [] = _
      rw [hrows, Option.map_some, Option.getD_some, hlate, List.map_append]
      rfl
    · have hsome : (s.rtp.map (· ++ [q.rtpRow])).isSome = false := hn
      rw [Option.isSome_map, hopen] at hsome
      cases hsome
    · show s.past.counted = head ++ ((late ++ [q]).dropLast).filter (own s.ssrc)
      rw [hcounted, List.dropLast_concat]
      rfl
    · show s.past.pushed = pre ++ ((late ++ [q]).dropLast).filter (mine s.ssrc s.pt)
      rw [hpushed, List.dropLast_concat]
      rfl
    · cases hp
      exact .inr ⟨late, rfl⟩
    · cases hp
  | false =>
    have hnil := h.closed hopen
    have hnone := Option.isSome_eq_false_iff.mp hopen |> Option.isNone_iff_eq_none.mp
    subst hnil
    refine ⟨early ++ [q], [], head, pre, ?_, ?_, fun _ => rfl, hcounted, hpushed, fun p hp => ?_,
      h.pre_head, fun p hp => ?_, fun p hp => ?_⟩
    · show s.past.parsed ++ [q] = _
      rw [h.parsed, List.append_nil, List.append_nil]
    · show (s.rtp.map (· ++ [q.rtpRow])).getD [] = _
      rw [hnone]
      rfl
    · obtain ⟨hp, hssrc⟩ := h.head_early p hp
      exact ⟨List.mem_append_left [q] hp, hssrc⟩
    · cases hp
      exact .inl ⟨rfl, List.mem_append_right early List.mem_cons_self⟩
    · cases hp

theorem Logs.foreign (h : Logs s early late head pre) {q : Datagram} (hrx : s.rx = .logged q)
    (hne : q.header.ssrc ≠ s.ssrc) : Logs { s with rx := .units [] } early late head pre := by
  have hcounted := h.counted
  have hpushed := h.pushed
  rw [hrx] at hcounted hpushed
  refine ⟨h.parsed, h.rows, h.closed, ?_, ?_, h.head_early, h.pre_head, fun p hp => ?_,
    fun p hp => ?_⟩
  · show s.past.counted = head ++ late.filter (own s.ssrc)
    obtain ⟨rfl, -⟩ | ⟨done, rfl⟩ := h.logged q hrx
    · exact hcounted
    · rw [hcounted, judged, List.dropLast_concat, filter_own_skip hne]
  · show s.past.pushed = pre ++ late.filter (mine s.ssrc s.pt)
    obtain ⟨rfl, -⟩ | ⟨done, rfl⟩ := h.logged q hrx
    · exact hpushed
    · rw [hpushed, sifted, List.dropLast_concat, filter_mine_skip (.inl hne)]
  · cases hp
  · cases hp

theorem Logs.count (h : Logs s early late head pre) {q : Datagram} (hrx : s.rx = .logged q)
    (heq : q.header.ssrc = s.ssrc) : Logged (count s q) := by
  have hcounted := h.counted
  have hpushed := h.pushed
  rw [hrx] at hcounted hpushed
  obtain ⟨rfl, hearly⟩ | ⟨done, rfl⟩ := h.logged q hrx
  · refine ⟨early, [], head ++ [q], pre, h.parsed, h.rows, h.closed, ?_, hpushed, fun p hp => ?_,
      fun p hp => List.mem_append_left [q] (h.pre_head p hp), fun p hp => ?_, fun p hp => ?_⟩
    · show s.past.counted ++ [q] = (head ++ [q]) ++ []
      rw [hcounted]
      exact congrArg (· ++ [q]) (List.append_nil head) |>.trans (List.append_nil _).symm
    · rw [List.mem_append, List.mem_singleton] at hp
      obtain hp | rfl := hp
      · exact h.head_early p hp
      · exact ⟨hearly, .inr heq⟩
    · cases hp
    · cases hp
      exact .inl ⟨rfl, List.mem_append_right head List.mem_cons_self⟩
  · refine ⟨early, done ++ [q], head, pre, h.parsed, h.rows, h.closed, ?_, hpushed, h.head_early,
      h.pre_head, fun p hp => ?_, fun p hp => ?_⟩
    · show s.past.counted ++ [q] = head ++ (done ++ [q]).filter (own s.ssrc)
      rw [hcounted, judged, List.dropLast_concat, filter_own_append heq, List.append_assoc]
    · cases hp
    · cases hp
      exact .inr ⟨⟨done, rfl⟩, heq⟩

theorem Logs.otherPt (h : Logs s early late head pre) {q : Datagram} (hrx : s.rx = .counted q)
    (hne : q.header.pt ≠ s.pt) : Logs { s with rx := .units [] } early late head pre := by
  have hcounted := h.counted
  have hpushed := h.pushed
  rw [hrx] at hcounted hpushed
  refine ⟨h.parsed, h.rows, h.closed, hcounted, ?_, h.head_early, h.pre_head, fun p hp => ?_,
    fun p hp => ?_⟩
  · show s.past.pushed = pre ++ late.filter (mine s.ssrc s.pt)
    obtain ⟨rfl, -⟩ | ⟨⟨done, rfl⟩, -⟩ := h.counting q hrx
    · exact hpushed
    · rw [hpushed, sifted, List.dropLast_concat, filter_mine_skip (.inr hne)]
  · cases hp
  · cases hp

theorem Logs.push (h : Logs s early late head pre) {q : Datagram} (hrx : s.rx = .counted q)
    (heq : q.header.pt = s.pt) : Logged (push s q) := by
  have hcounted := h.counted
  have hpushed := h.pushed
  rw [hrx] at hcounted hpushed
  obtain ⟨rfl, hhead⟩ | ⟨⟨done, rfl⟩, hssrc⟩ := h.counting q hrx
  · refine ⟨early, [], head, pre ++ [q], h.parsed, h.rows, h.closed, hcounted, ?_, h.head_early,
      fun p hp => ?_, fun p hp => ?_, fun p hp => ?_⟩
    · show s.past.pushed ++ [q] = (pre ++ [q]) ++ []
      rw [hpushed]
      exact congrArg (· ++ [q]) (List.append_nil pre) |>.trans (List.append_nil _).symm
    · rw [List.mem_append, List.mem_singleton] at hp
      obtain hp | rfl := hp
      · exact h.pre_head p hp
      · exact hhead
    · cases hp
    · cases hp
  · refine ⟨early, done ++ [q], head, pre, h.parsed, h.rows, h.closed, hcounted, ?_, h.head_early,
      h.pre_head, fun p hp => ?_, fun p hp => ?_⟩
    · show s.past.pushed ++ [q] = pre ++ (done ++ [q]).filter (mine s.ssrc s.pt)
      rw [hpushed, sifted, List.dropLast_concat, filter_mine_append hssrc heq, List.append_assoc]
    · cases hp
    · cases hp

/-- Until the packet trace is open, the SSRC and the payload type tell nothing. -/
theorem Logs.of_closed (h : Logs s early late head pre) (hclosed : s.rtp.isSome = false)
    (hrx : t.rx = s.rx) (hpast : t.past = s.past) (hrows : t.rtp.getD [] = [])
    (hssrc : s.ssrc = 0 ∨ s.ssrc = t.ssrc) : Logs t early late head pre := by
  obtain rfl := h.closed hclosed
  have hcounted := h.counted
  have hpushed := h.pushed
  have hjudged : judged s.rx [] = [] := by cases s.rx <;> rfl
  have hsifted : sifted s.rx [] = [] := by cases s.rx <;> rfl
  refine ⟨hpast ▸ h.parsed, hrows, fun _ => rfl, ?_, ?_, fun q hq => ?_, h.pre_head,
    fun q hq => ?_, fun q hq => ?_⟩
  · rw [hpast, hcounted, hrx, hjudged]
    rfl
  · rw [hpast, hpushed, hrx, hsifted]
    rfl
  · obtain ⟨hearly, hzero | hsame⟩ := h.head_early q hq
    · exact ⟨hearly, .inl hzero⟩
    · refine ⟨hearly, hssrc.imp (fun hz => hsame.trans hz) fun ht => hsame.trans ht⟩
  · exact h.logged q (hrx ▸ hq)
  · exact (h.counting q (hrx ▸ hq)).imp id fun hn => absurd hn.1 (by simp)

theorem Logs.store (h : Logs s early late head pre) (hs : Staged s) {st : Store}
    {rest : List Store} (hp : s.pending = st :: rest) :
    Logs (apply { s with pending := rest } st) early late head pre := by
  have hmem : st ∈ s.pending := hp ▸ List.mem_cons_self
  have hclosed (hle : st.rank ≤ 2) : s.rtp.isSome = false := by
    rw [Bool.eq_false_iff]
    intro hopen
    exact absurd (hs.rtp hopen st hmem) (Nat.not_lt.mpr hle)
  have hnone (hle : st.rank ≤ 2) : s.rtp.getD [] = [] := by
    rw [h.rows, h.closed (hclosed hle)]
    rfl
  cases st with
  | ssrc v =>
    have hle : (Store.ssrc v).rank ≤ 2 := Nat.zero_le 2
    exact h.of_closed (hclosed hle) rfl rfl (hnone hle) (.inl (hs.ssrc v hmem))
  | pt v =>
    have hle : (Store.pt v).rank ≤ 2 := Nat.le_succ 1
    exact h.of_closed (hclosed hle) rfl rfl (hnone hle) (.inr rfl)
  | rtp => exact h.of_closed (hclosed (Nat.le_refl 2)) rfl rfl rfl (.inr rfl)
  | rtcp | decoded | frames =>
    exact ⟨h.parsed, h.rows, h.closed, h.counted, h.pushed, h.head_early, h.pre_head, h.logged,
      h.counting⟩

theorem Logged.next {a : Act} (h : Logged s) (hs : Staged s) (hm : Moves s a t) : Logged t := by
  obtain ⟨early, late, head, pre, h⟩ := h
  cases hm with
  | store hp => exact ⟨_, _, _, _, h.store hs hp⟩
  | @overtake v p rest hp =>
    have hclosed : s.rtp.isSome = false := by
      rw [Bool.eq_false_iff]
      intro hopen
      exact absurd (hs.rtp hopen (.ssrc v) (hp ▸ List.mem_cons_self)) (Nat.not_lt.mpr (Nat.zero_le 2))
    have hnone : s.rtp.getD [] = [] := by
      rw [h.rows, h.closed hclosed]
      rfl
    exact ⟨_, _, _, _, h.of_closed hclosed rfl rfl hnone (.inr rfl)⟩
  | receive hrx => exact h.receive hrx _
  | foreign hrx hne => exact ⟨_, _, _, _, h.foreign hrx hne⟩
  | count hrx heq => exact h.count hrx heq
  | otherPt hrx hne => exact ⟨_, _, _, _, h.otherPt hrx hne⟩
  | push hrx heq => exact h.push hrx heq
  | decodeAu hrx =>
    refine ⟨_, _, _, _, h.of_past (hrx ▸ units_past _) ?_ rfl rfl rfl rfl rfl rfl⟩
    rw [decodeAu]
    split
    · exact deliver_past _ _
    · exact units_past _
  | writeDecoded hrx =>
    exact ⟨_, _, _, _, h.of_past (hrx ▸ fun _ => ⟨rfl, rfl⟩) (fun _ => ⟨rfl, rfl⟩) rfl rfl rfl rfl
      rfl rfl⟩
  | writeFrame hrx =>
    exact ⟨_, _, _, _, h.of_past (hrx ▸ fun _ => ⟨rfl, rfl⟩) (deliver_past _ _) rfl rfl rfl rfl rfl
      rfl⟩
  | _ =>
    exact ⟨_, _, _, _, ⟨h.parsed, h.rows, h.closed, h.counted, h.pushed, h.head_early, h.pre_head,
      h.logged, h.counting⟩⟩

end Receiver
end Ffmpeg
end P5G
