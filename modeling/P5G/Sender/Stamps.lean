import P5G.Sender.Switching

/-!
# The timestamps of tx-frames

The muxer stamps the packets of an access unit with `base + pts`, and the sender
learns the base from the first packet.  A row written before that, and a row of a
first access unit of which no packet came, has the bare pts.
-/

namespace P5G
namespace Sender

open AnnexB

variable {c : Camera} {base : UInt32} {s s' : State} {a : Act} {w w' : Wire} {slot : Int}

def Camera.pts (c : Camera) (slot : Int) : Int := (slot * c.intervalUs * 90).tdiv 1000

def Camera.wireTs (c : Camera) (base : UInt32) (slot : Int) : UInt32 :=
  base + UInt32.ofInt (c.pts slot)

/-- The RTP header of a packet, as `WritePacket` finds it. -/
def Datagram.rtp? (p : Datagram) : Option RtpHeader :=
  if isRtcp p.buf then none else parseRtp p.buf

structure Wire.Based (base : UInt32) (w : Wire) : Prop where
  known : w.baseKnown = true → w.wireBase = base
  unknown : w.baseKnown = false → w.wireBase = 0

structure Wire.Wrote (base : UInt32) (slot : Int) (w w' : Wire) : Prop where
  based : w'.Based base
  curPts : w'.curPts = w.curPts
  known : w.baseKnown = true → w'.baseKnown = true
  rows : ∀ q ∈ w'.rtp, q ∈ w.rtp ∨
    q.slot = slot ∧ q.header.ts = base + UInt32.ofInt w.curPts

theorem Wire.Based.learn (h : w.Based base) {header : RtpHeader}
    (hts : header.ts = base + UInt32.ofInt w.curPts) :
    (w.learn header).Based base ∧ (w.learn header).baseKnown = true ∧
      (w.learn header).curPts = w.curPts ∧ (w.learn header).rtp = w.rtp := by
  rw [Wire.learn]
  cases hknown : w.baseKnown with
  | true => exact ⟨h, hknown, rfl, rfl⟩
  | false =>
    refine ⟨⟨fun _ => ?_, fun hfalse => nomatch hfalse⟩, rfl, rfl, rfl⟩
    simp [hts]

theorem Wire.Based.writePacket (h : w.Based base) (slot : Int) {p : Datagram}
    (hts : ∀ header ∈ p.rtp?, header.ts = base + UInt32.ofInt w.curPts) :
    Wire.Wrote base slot w (w.writePacket slot p) ∧
      (p.rtp?.isSome → (w.writePacket slot p).baseKnown = true) := by
  rw [Wire.writePacket]
  rw [Datagram.rtp?] at hts ⊢
  by_cases hrtcp : isRtcp p.buf = true
  · rw [if_pos hrtcp, if_pos hrtcp]
    refine ⟨?_, fun hsome => nomatch hsome⟩
    split
    · exact ⟨⟨h.known, h.unknown⟩, rfl, id, fun q hq => .inl hq⟩
    · exact ⟨⟨h.known, h.unknown⟩, rfl, id, fun q hq => .inl hq⟩
  · rw [if_neg hrtcp] at hts ⊢
    rw [if_neg hrtcp]
    cases hparse : parseRtp p.buf with
    | none =>
      exact ⟨⟨⟨h.known, h.unknown⟩, rfl, id, fun q hq => .inl hq⟩, fun hsome => nomatch hsome⟩
    | some header =>
      have hheader := hts header hparse
      obtain ⟨hbased, hknown, hpts, hrows⟩ := h.learn hheader
      simp only
      split
      · refine ⟨⟨⟨hbased.known, hbased.unknown⟩, hpts, fun _ => hknown, fun q hq => ?_⟩,
          fun _ => hknown⟩
        rcases List.mem_append.mp hq with hq | hq
        · exact .inl (hrows ▸ hq)
        · rw [List.mem_singleton.mp hq]
          exact .inr ⟨rfl, hheader⟩
      · exact ⟨⟨⟨hbased.known, hbased.unknown⟩, hpts, fun _ => hknown,
          fun q hq => .inl (hrows ▸ hq)⟩, fun _ => hknown⟩

/-- The packets of one access unit. -/
theorem Wire.Based.writePackets (h : w.Based base) (slot : Int) {packets : List Datagram}
    (hts : ∀ p ∈ packets, ∀ header ∈ p.rtp?, header.ts = base + UInt32.ofInt w.curPts) :
    Wire.Wrote base slot w (packets.foldl (Wire.writePacket slot) w) ∧
      ((∃ p ∈ packets, p.rtp?.isSome) →
        (packets.foldl (Wire.writePacket slot) w).baseKnown = true) := by
  induction packets generalizing w with
  | nil => exact ⟨⟨h, rfl, id, fun q hq => .inl hq⟩, fun ⟨p, hp, _⟩ => nomatch hp⟩
  | cons p packets ih =>
    obtain ⟨hone, hfirst⟩ := h.writePacket slot (hts p List.mem_cons_self)
    obtain ⟨hrest, hlater⟩ := ih hone.based fun p' hp' => by
      rw [hone.curPts]
      exact hts p' (List.mem_cons_of_mem p hp')
    refine ⟨⟨hrest.based, hrest.curPts.trans hone.curPts, fun hknown =>
      hrest.known (hone.known hknown), fun q hq => ?_⟩, fun ⟨p', hp', hsome⟩ => ?_⟩
    · rcases hrest.rows q hq with hq | hq
      · exact hone.rows q hq
      · rw [hone.curPts] at hq
        exact .inr hq
    · rcases List.mem_cons.mp hp' with rfl | hp'
      · exact hrest.known (hfirst hsome)
      · exact hlater ⟨p', hp', hsome⟩

/-- The muxer stamps every RTP packet of an access unit with `base + pts`. -/
def Stamps (base : UInt32) (s : State) : Act → Prop
  | .mux m => ∀ p ∈ m.packets, ∀ header ∈ p.rtp?, header.ts = base + UInt32.ofInt s.pts
  | _ => True

/-- The step of the grid thread writes a row for a missed slot. -/
def State.Misses (c : Camera) (s : State) : Prop :=
  (s.pc = .catchUp ∧ s.slot < s.resume ∧ s.running = true) ∨
    (s.pc = .drain ∧ s.at c (s.slot + 1) ≤ s.nowUs)

/-- A row is written with the base known, unless the base is 0. -/
def Known (c : Camera) (base : UInt32) (s : State) : Act → Prop
  | .grid _ => s.Misses c → s.wire.baseKnown = true ∨ base = 0
  | .mux m => s.wire.baseKnown = true ∨ base = 0 ∨ ∃ p ∈ m.packets, p.rtp?.isSome
  | _ => True

structure Stamped (c : Camera) (base : UInt32) (s : State) : Prop where
  based : s.wire.Based base
  frames : ∀ r ∈ s.frames, r.rtpTs = c.wireTs base r.gridSlot
  packets : ∀ q ∈ s.wire.rtp, q.header.ts = c.wireTs base q.slot

theorem Wire.Based.rtpTs (h : w.Based base) (hknown : w.baseKnown = true ∨ base = 0) (pts : Int) :
    w.rtpTsForPts pts = base + UInt32.ofInt pts := by
  have hbase : w.wireBase = base := by
    cases hk : w.baseKnown with
    | true => exact h.known hk
    | false =>
      rcases hknown with hknown | hzero
      · rw [hk] at hknown
        cases hknown
      · rw [h.unknown hk, hzero]
  rw [Wire.rtpTsForPts, hbase, UInt32.add_comm]

/-- The two expressions for the pts agree. -/
theorem pts_eq (haimed : s.targetUs = s.at c s.slot) : s.pts = c.pts s.slot := by
  have hsub : s.startUs + s.slot * c.intervalUs - s.startUs = s.slot * c.intervalUs := by omega
  rw [State.pts, haimed, State.at, hsub, Camera.pts]

theorem Stamped.missed (hi : Stamped c base s) (now : Reading)
    (hknown : s.wire.baseKnown = true ∨ base = 0) : Stamped c base (s.emitMissed c now) := by
  refine ⟨hi.based, fun r hr => ?_, hi.packets⟩
  rcases List.mem_append.mp hr with hr | hr
  · exact hi.frames r hr
  · rw [List.mem_singleton.mp hr]
    exact hi.based.rtpTs hknown _

theorem Stamped.sent {m : Muxed} (hi : Stamped c base s) (au : AccessUnit)
    (haimed : s.targetUs = s.at c s.slot) (hstamps : Stamps base s (.mux m))
    (hknown : Known c base s (.mux m)) :
    Stamped c base ((s.write c au m).log c au (0 ≤ m.ret)) := by
  have hwire : c.wireTs base s.slot = base + UInt32.ofInt s.pts := by
    rw [Camera.wireTs, pts_eq haimed]
  have hstart : Wire.Based base { s.wire with curPts := s.pts, auSendFailed := false } :=
    ⟨hi.based.known, hi.based.unknown⟩
  obtain ⟨hwrote, hany⟩ := hstart.writePackets s.slot hstamps
  refine ⟨hwrote.based, fun r hr => ?_, fun q hq => ?_⟩
  · rcases List.mem_append.mp hr with hr | hr
    · exact hi.frames r hr
    · rw [List.mem_singleton.mp hr]
      apply Eq.trans _ hwire.symm
      apply hwrote.based.rtpTs
      rcases hknown with hbase | hzero | hrtp
      · exact .inl (hwrote.known hbase)
      · exact .inr hzero
      · exact .inl (hany hrtp)
  · rcases hwrote.rows q hq with hq | ⟨hslot, hts⟩
    · exact hi.packets q hq
    · rw [hslot, hts, hwire]

theorem Moves.stamped (h : Moves c s a s') (htimed : Timed c s) (hstamps : Stamps base s a)
    (hknown : Known c base s a) (hi : Stamped c base s) : Stamped c base s' := by
  cases h with
  | @skip now _ hpc hlt hrun =>
    have hrow := hi.missed now (hknown (.inl ⟨hpc, hlt, hrun⟩))
    exact ⟨hrow.based, hrow.frames, hrow.packets⟩
  | @drain now _ hpc hnow =>
    have hrow := hi.missed now (hknown (.inr ⟨hpc, hnow⟩))
    exact ⟨hrow.based, hrow.frames, hrow.packets⟩
  | @mux m au hpc hau =>
    rw [Timed, hpc] at htimed
    have hrow := hi.sent au htimed.1 hstamps hknown
    exact ⟨hrow.based, hrow.frames, hrow.packets⟩
  | _ => exact ⟨hi.based, hi.frames, hi.packets⟩

/-- Up to 83333 fps a slot is at least one tick long. -/
theorem pts_lt_pts (hfps : c.fps ≤ 83333) {slot slot' : Int} (hslot : 0 ≤ slot)
    (hlt : slot < slot') : c.pts slot < c.pts slot' := by
  have hinterval : 12 ≤ c.intervalUs := by
    apply Int.le_ediv_of_mul_le
    · exact_mod_cast c.fps_pos
    · omega
  have hstep : slot * c.intervalUs * 90 + 1080 ≤ slot' * c.intervalUs * 90 := by
    have hmul : (slot + 1) * c.intervalUs ≤ slot' * c.intervalUs :=
      Int.mul_le_mul_of_nonneg_right hlt (by omega)
    rw [Int.add_mul, Int.one_mul] at hmul
    omega
  have hnonneg : 0 ≤ slot * c.intervalUs := Int.mul_nonneg hslot (by omega)
  rw [Camera.pts, Camera.pts, Int.tdiv_eq_ediv_of_nonneg (by omega),
    Int.tdiv_eq_ediv_of_nonneg (by omega)]
  omega

theorem eq_of_ofInt_eq {x y : Int} (h : UInt32.ofInt x = UInt32.ofInt y)
    (hnear : |x - y| < 2 ^ 31) : x = y := by
  have hmod : (x % 2 ^ 32).toNat % 2 ^ 32 = (y % 2 ^ 32).toNat % 2 ^ 32 := congrArg UInt32.toNat h
  rw [abs_lt] at hnear
  omega

theorem wireTs_ne (hfps : c.fps ≤ 83333) {slot other : Int} (hslot : 0 ≤ slot) (hother : 0 ≤ other)
    (hne : other ≠ slot) (hnear : |c.pts other - c.pts slot| < 2 ^ 31) :
    c.wireTs base other ≠ c.wireTs base slot := by
  intro heq
  have hpts := eq_of_ofInt_eq ((UInt32.add_right_inj base).mp heq) hnear
  rcases Int.lt_or_gt_of_ne hne with hlt | hgt
  · have := pts_lt_pts hfps hother hlt
    omega
  · have := pts_lt_pts hfps hslot hgt
    omega

/-- A run in which the muxer keeps its promise and no row is written without the base. -/
def Joined (c : Camera) (base : UInt32) (s : State) (a : Act) : Prop :=
  Stamps base s a ∧ Known c base s a

/-- The rows of every such run carry the wire timestamps of their slots: they join
with the packets of tx-rtp, and with no other slot's. -/
theorem frames_rtpTs (hfps : c.fps ≤ 83333) (h : (machine c).ReachableBy (Joined c base) s) :
    ∀ r ∈ s.frames, r.rtpTs = c.wireTs base r.gridSlot ∧
      (∀ q ∈ s.wire.rtp, q.slot = r.gridSlot → q.header.ts = r.rtpTs) ∧
      ∀ other, 0 ≤ other → other ≠ r.gridSlot → |c.pts other - c.pts r.gridSlot| < 2 ^ 31 →
        c.wireTs base other ≠ r.rtpTs := by
  have hinv : Counted s ∧ Timed c s ∧ Stamped c base s := by
    apply h.invariant
    · exact ⟨counted_init, timed_init, ⟨fun hk => (nomatch hk), fun _ => rfl⟩,
        fun r hr => (nomatch hr), fun q hq => (nomatch hq)⟩
    · intro s a s' ⟨hcount, htimed, hstamped⟩ hjoined hstep
      have hmoves := step_moves hstep
      exact ⟨hmoves.counted htimed hcount, hmoves.timed hcount htimed,
        hmoves.stamped htimed hjoined.1 hjoined.2 hstamped⟩
  obtain ⟨hcount, -, hstamped⟩ := hinv
  intro r hr
  have hts := hstamped.frames r hr
  refine ⟨hts, fun q hq hslot => ?_, fun other hother hne hnear => ?_⟩
  · rw [hstamped.packets q hq, hslot, hts]
  · obtain ⟨i, -, hgrid⟩ := hcount.slots.exists_lt hr
    have hfirst := hcount.first
    rw [hts]
    exact wireTs_ne hfps (by omega) hother hne hnear

instance : Decidable (Stamps base s a) :=
  match a with
  | .mux _ => inferInstanceAs (Decidable (∀ _ ∈ _, ∀ _ ∈ _, _))
  | .stop | .profile _ | .grid _ => .isTrue trivial

instance : Decidable (s.Misses c) := inferInstanceAs (Decidable (_ ∨ _))

instance : Decidable (Known c base s a) :=
  match a with
  | .grid _ => inferInstanceAs (Decidable (_ → _))
  | .mux _ => inferInstanceAs (Decidable (_ ∨ _))
  | .stop | .profile _ => .isTrue trivial

instance : Decidable (Joined c base s a) := inferInstanceAs (Decidable (_ ∧ _))

def slotOnePacket : Datagram := ⟨[0x80, 96, 0, 0, 0, 0, 0x0f, 0x9f, 0, 0, 0, 7, 0x41], ⟨0, 0⟩, true⟩

/-- The IDR of slot 0 with its packet, and slot 1 missed. -/
def joinedRun : List Act :=
  [Act.grid ⟨0, 0⟩, .grid ⟨0, 0⟩] ++ List.replicate 7 (Act.grid ⟨100000000, 0⟩) ++
    [Act.mux ⟨[⟨[0x80, 96, 0, 0, 0, 0, 0x03, 0xe8, 0, 0, 0, 7, 0x65], ⟨0, 0⟩, true⟩], 0⟩] ++
    List.replicate 5 (Act.grid ⟨170000000, 0⟩)

theorem frames_rtpTs_joinedRun :
    ∃ s, (machine twoFrames).ReachableBy (Joined twoFrames 1000) s ∧
      (∀ r ∈ s.frames, r.rtpTs = twoFrames.wireTs 1000 r.gridSlot) ∧
      s.frames.map (fun r => (r.gridSlot, r.rtpTs)) = [(0, 1000), (1, 3999)] := by
  obtain ⟨s, hreach, hend⟩ := (machine twoFrames).exists_of_execBy (G := Joined twoFrames 1000)
    joinedRun (P := fun s => s.frames.map (fun r => (r.gridSlot, r.rtpTs)) = [(0, 1000), (1, 3999)])
    (by decide +kernel)
  exact ⟨s, hreach, fun r hr => (frames_rtpTs (by decide) hreach r hr).1, hend⟩

/-- Slot 0 missed before the first packet, and slot 1 sent with it. -/
def unjoinedRun : List Act :=
  firstTurn 140000000 ++ List.replicate 5 (Act.grid ⟨140000000, 0⟩) ++
    [Act.mux ⟨[slotOnePacket], 0⟩]

/-- The row of a slot missed before the first packet has the bare pts. -/
theorem not_forall_rtpTs :
    ¬ ∀ c base s, (machine c).ReachableBy (Stamps base) s →
      ∀ r ∈ s.frames, r.rtpTs = c.wireTs base r.gridSlot := by
  intro hall
  obtain ⟨s, hreach, hend⟩ := (machine twoFrames).exists_of_execBy (G := Stamps 1000) unjoinedRun
    (P := fun s => s.frames.map (fun r => (r.gridSlot, r.rtpTs)) = [(0, 0), (1, 3999)])
    (by decide +kernel)
  cases hframes : s.frames with
  | nil =>
    rw [hframes] at hend
    cases hend
  | cons r rest =>
    rw [hframes, List.map_cons] at hend
    have hrow := hall twoFrames 1000 s hreach r (hframes ▸ List.mem_cons_self)
    obtain ⟨hslot, hts⟩ := Prod.mk.inj (List.cons.inj hend).1
    rw [hslot, hts] at hrow
    exact absurd hrow (by decide +kernel)

end Sender
end P5G
