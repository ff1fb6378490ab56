import P5G.Sender.Stamps

/-!
# What the sender puts on the air

Every RTP datagram that the socket takes is a row of tx-rtp, and every row of tx-rtp belongs
to one row of tx-frames, whatever the clocks, the stop and the profiles do.
-/

namespace P5G
namespace Sender

variable {c : Camera} {base : UInt32} {s s' : State} {a : Act} {log : List Act} {slot : Int}

def rtpRow? (slot : Int) (p : Datagram) : Option RtpPacketRow :=
  p.rtp?.bind fun header => if p.sent then some ⟨p.now, header, p.buf.length, slot⟩ else none

theorem learn_rtp (w : Wire) (header : RtpHeader) : (w.learn header).rtp = w.rtp := by
  rw [Wire.learn]
  split <;> rfl

theorem writePacket_rtp (slot : Int) (w : Wire) (p : Datagram) :
    (w.writePacket slot p).rtp = w.rtp ++ (rtpRow? slot p).toList := by
  rw [Wire.writePacket, rtpRow?, Datagram.rtp?]
  by_cases hrtcp : isRtcp p.buf = true
  · rw [if_pos hrtcp, if_pos hrtcp]
    split <;> exact (List.append_nil _).symm
  · rw [if_neg hrtcp, if_neg hrtcp]
    cases parseRtp p.buf with
    | none => exact (List.append_nil _).symm
    | some header =>
      cases hsent : p.sent with
      | true => simp [learn_rtp]
      | false => simp [learn_rtp]

theorem writePackets_rtp (slot : Int) (packets : List Datagram) (w : Wire) :
    (packets.foldl (Wire.writePacket slot) w).rtp = w.rtp ++ packets.filterMap (rtpRow? slot) := by
  induction packets generalizing w with
  | nil => exact (List.append_nil _).symm
  | cons p packets ih =>
    rw [List.foldl_cons, ih, writePacket_rtp, List.append_assoc, List.filterMap_cons]
    cases rtpRow? slot p <;> rfl

theorem rtpRow?_some {p : Datagram} {q : RtpPacketRow} (h : rtpRow? slot p = some q) :
    p.rtp? = some q.header ∧ q.slot = slot := by
  obtain ⟨header, hheader, hrow⟩ := Option.bind_eq_some_iff.mp h
  split at hrow
  · cases hrow
    exact ⟨hheader, rfl⟩
  · cases hrow

/-- The RTP datagrams that a step hands to the network; what `ParseRtp` refuses is not sent. -/
def flown : Act → List (List UInt8)
  | .mux m => (m.packets.filter fun p => p.sent && p.rtp?.isSome).map Datagram.buf
  | _ => []

/-- The datagrams that the network has been given. -/
def air (log : List Act) : List (List UInt8) := log.flatMap flown

theorem air_concat (log : List Act) (a : Act) : air (log ++ [a]) = air log ++ flown a := by
  rw [air, List.flatMap_append, List.flatMap_singleton]
  rfl

/-- The header and the size of a datagram are those of a tx-rtp row. -/
def Carried (rows : List RtpPacketRow) (d : List UInt8) : Prop :=
  ∃ q ∈ rows, parseRtp d = some q.header ∧ q.pktBytes = d.length

theorem carried_flown {m : Muxed} {d : List UInt8} (hd : d ∈ flown (.mux m)) :
    Carried (m.packets.filterMap (rtpRow? slot)) d := by
  obtain ⟨p, hp, rfl⟩ := List.mem_map.mp hd
  obtain ⟨hp, hflies⟩ := List.mem_filter.mp hp
  rw [Bool.and_eq_true, Option.isSome_iff_exists] at hflies
  obtain ⟨hsent, header, hheader⟩ := hflies
  refine ⟨⟨p.now, header, p.buf.length, slot⟩, List.mem_filterMap.mpr ⟨p, hp, ?_⟩, ?_, rfl⟩
  · rw [rtpRow?, hheader, Option.bind_some, if_pos hsent]
  · rw [Datagram.rtp?] at hheader
    split at hheader
    · cases hheader
    · exact hheader

/-- Every datagram on the air has its row, whatever the muxer writes. -/
theorem Moves.carried (h : Moves c s a s') (hi : ∀ d ∈ air log, Carried s.wire.rtp d) :
    ∀ d ∈ air (log ++ [a]), Carried s'.wire.rtp d := by
  intro d hd
  rw [air_concat, List.mem_append] at hd
  cases h with
  | @mux m au hpc hau =>
    have hrows : ((s.write c au m).log c au (0 ≤ m.ret)).wire.rtp =
        s.wire.rtp ++ m.packets.filterMap (rtpRow? s.slot) :=
      writePackets_rtp s.slot m.packets { s.wire with curPts := s.pts, auSendFailed := false }
    rw [hrows]
    obtain hd | hd := hd
    · obtain ⟨q, hq, hrow⟩ := hi d hd
      exact ⟨q, List.mem_append_left _ hq, hrow⟩
    · obtain ⟨q, hq, hrow⟩ := carried_flown hd
      exact ⟨q, List.mem_append_right _ hq, hrow⟩
  | _ => exact hi d (hd.resolve_right List.not_mem_nil)

structure Sourced (c : Camera) (base : UInt32) (s : State) : Prop where
  based : s.wire.Based base
  rows : ∀ q ∈ s.wire.rtp, q.header.ts = c.wireTs base q.slot ∧
    ∃ f ∈ s.frames, f.gridSlot = q.slot ∧ f.rtpTs = q.header.ts

/-- A step that sends nothing. -/
theorem Sourced.of_eq (h : Sourced c base s) (hwire : s'.wire = s.wire)
    (hframes : s.frames ⊆ s'.frames) : Sourced c base s' := by
  refine ⟨hwire ▸ h.based, fun q hq => ?_⟩
  rw [hwire] at hq
  obtain ⟨hts, f, hf, hrow⟩ := h.rows q hq
  exact ⟨hts, f, hframes hf, hrow⟩

theorem Sourced.mux (h : Sourced c base s) {m : Muxed} (au : AnnexB.AccessUnit)
    (haimed : s.targetUs = s.at c s.slot) (hstamps : Stamps base s (.mux m)) :
    Sourced c base ((s.write c au m).log c au (0 ≤ m.ret)) := by
  have hwire : c.wireTs base s.slot = base + UInt32.ofInt s.pts := by
    rw [Camera.wireTs, pts_eq haimed]
  have hstart : Wire.Based base { s.wire with curPts := s.pts, auSendFailed := false } :=
    ⟨h.based.known, h.based.unknown⟩
  obtain ⟨hwrote, hany⟩ := hstart.writePackets s.slot hstamps
  have hrtp := writePackets_rtp s.slot m.packets
    { s.wire with curPts := s.pts, auSendFailed := false }
  refine ⟨hwrote.based, fun q hq => ?_⟩
  have hmem : q ∈ s.wire.rtp ++ m.packets.filterMap (rtpRow? s.slot) := hrtp ▸ hq
  obtain hold | hnew := List.mem_append.mp hmem
  · obtain ⟨hts, f, hf, hrow⟩ := h.rows q hold
    exact ⟨hts, f, List.mem_append_left _ hf, hrow⟩
  · obtain ⟨p, hp, hrow⟩ := List.mem_filterMap.mp hnew
    obtain ⟨hheader, hslot⟩ := rtpRow?_some hrow
    have hts : q.header.ts = base + UInt32.ofInt s.pts := hstamps p hp _ hheader
    have hknown := hany ⟨p, hp, by rw [hheader]; rfl⟩
    rw [hslot, hwire, hts]
    refine ⟨rfl, _, List.mem_append_right _ List.mem_cons_self, rfl, ?_⟩
    exact hwrote.based.rtpTs (.inl hknown) s.pts

theorem Moves.sourced (h : Moves c s a s') (htimed : Timed c s) (hstamps : Stamps base s a)
    (hi : Sourced c base s) : Sourced c base s' := by
  cases h with
  | skip => exact hi.of_eq rfl (List.subset_append_left _ _)
  | drain => exact hi.of_eq rfl (List.subset_append_left _ _)
  | @mux m au hpc hau =>
    rw [Timed, hpc] at htimed
    have hsent := hi.mux au htimed.1 hstamps
    exact ⟨hsent.based, hsent.rows⟩
  | _ => exact hi.of_eq rfl (List.Subset.refl _)

theorem sourced_init : Sourced c base (init c) :=
  ⟨⟨fun hknown => (nomatch hknown), fun _ => rfl⟩, fun _ hq => (nomatch hq)⟩

/-- Two rows of tx-frames are of different slots. -/
theorem Counted.eq_of_gridSlot (h : Counted s) {f g : CaptureFrameRow} (hf : f ∈ s.frames)
    (hg : g ∈ s.frames) (hslot : f.gridSlot = g.gridSlot) : f = g := by
  obtain ⟨i, hi⟩ := List.mem_iff_getElem?.mp hf
  obtain ⟨j, hj⟩ := List.mem_iff_getElem?.mp hg
  have hfi := h.slots i f hi
  have hgj := h.slots j g hj
  have hij : i = j := by omega
  rw [hij, hj] at hi
  exact (Option.some.inj hi).symm

end Sender
end P5G
