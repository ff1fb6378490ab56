import P5G.Rtp.Placement

/-!
# What a receiver delivers on any network

Whatever the network does to the packets of a stream, each event carries whole
NAL units of one access unit, in order.  Its IDR flag is raised by the packet
that starts a type-5 NAL unit, so it agrees with the bytes exactly when such a
unit came through whole.
-/

namespace P5G

theorem mem_replay {ps : List Sent} {g : Nat} {h : RtpHeader} :
    (∃ x ∈ replay g ps, x.packet = h) ↔ ∃ p ∈ ps, p.lost = false ∧ p.header = h := by
  induction ps generalizing g with
  | nil => simp [replay]
  | cons p ps ih =>
    cases hp : p.fate with
    | none => simp [replay_none hp, ih, Sent.lost, hp]
    | some r => simp [replay_some hp, ih, Sent.lost, hp]

theorem Alike.mem {es fs : List Entry} (h : Alike es fs) (p : RtpHeader) :
    (∃ x ∈ es, x.packet = p) ↔ ∃ x ∈ fs, x.packet = p := by
  cases es with
  | nil =>
    cases fs with
    | nil => exact Iff.rfl
    | cons y fs => exact h.elim
  | cons x es =>
    cases fs with
    | nil => exact h.elim
    | cons y fs =>
      obtain ⟨hxy, rfl⟩ := h
      have hpacket : x.packet = y.packet := congrArg Prod.fst hxy
      simp [hpacket]

theorem consecutive_nodup {s : UInt16} {ps : List Sent} (h : Consecutive s ps)
    (hlen : ps.length ≤ 65536) : (ps.map fun p => p.header.seq).Nodup := by
  rw [List.nodup_iff_injective_get]
  intro i j hij
  have hat : ∀ k (hk : k < ps.length), ps[k].header.seq = s + UInt16.ofNat k := by
    intro k hk
    have hsplit : ps = ps.take k ++ ps[k] :: ps.drop (k + 1) := by simp
    have hseq := consecutive_at h hsplit
    rwa [List.length_take, Nat.min_eq_left (Nat.le_of_lt hk)] at hseq
  have hi : i.val < ps.length := by simpa using i.isLt
  have hj : j.val < ps.length := by simpa using j.isLt
  simp only [List.get_eq_getElem, List.getElem_map, hat _ hi, hat _ hj] at hij
  have hnat := congrArg UInt16.toNat ((UInt16.add_right_inj s).mp hij)
  rw [UInt16.toNat_ofNat', UInt16.toNat_ofNat'] at hnat
  apply Fin.ext
  omega

/-- A packet of the access unit was received exactly if its header is in the group. -/
theorem received_iff {ps : List Sent} {es : List Entry} (h : Alike es (replay 0 ps))
    (hnodup : (ps.map fun p => p.header.seq).Nodup) {p : Sent} (hp : p ∈ ps) :
    p.lost = false ↔ ∃ x ∈ es, x.packet = p.header := by
  rw [h.mem, mem_replay]
  constructor
  · exact fun hr => ⟨p, hp, hr, rfl⟩
  · rintro ⟨q, hq, hr, hqp⟩
    have hseq : q.header.seq = p.header.seq := congrArg RtpHeader.seq hqp
    rwa [List.inj_on_of_nodup_map hnodup hq hp hseq] at hr

def StartsIdr (au : SentAu) (es : List Entry) : Prop :=
  ∃ p ∈ au.packets, p.piece.startsIdr = true ∧ ∃ x ∈ es, x.packet = p.header

/-- The group has every packet of a unit that carries a NAL unit of type 5. -/
def KeepsIdr (au : SentAu) (es : List Entry) : Prop :=
  ∃ u ∈ au.units, u.packing.nals.any Nal.isIdr = true ∧
    ∀ p ∈ u.packets, ∃ x ∈ es, x.packet = p.header

/-- A unit that carries a NAL unit of type 5 has a packet that starts one. -/
theorem starts_of_unit {u : SentUnit} (h : u.packing.nals.any Nal.isIdr = true) :
    ∃ p ∈ u.packets, p.piece.startsIdr = true := by
  have hpiece : ∃ k ∈ u.packing.pieces, k.startsIdr = true := by
    cases hk : u.packing with
    | single n =>
      rw [hk] at h
      exact ⟨.single n, List.mem_cons_self, by
        simpa [Packing.nals, Piece.startsIdr] using h⟩
    | stapA a =>
      rw [hk] at h
      exact ⟨.stapA a, List.mem_cons_self, h⟩
    | fuA f =>
      rw [hk] at h
      exact ⟨.fuA f.nal true false f.first, List.mem_cons_self, by
        simpa [Packing.nals, Piece.startsIdr] using h⟩
  obtain ⟨k, hk, hidr⟩ := hpiece
  rw [← u.cut] at hk
  obtain ⟨p, hp, rfl⟩ := List.mem_map.mp hk
  exact ⟨p, hp, hidr⟩

theorem startsIdr_of_keepsIdr {au : SentAu} {es : List Entry} (h : KeepsIdr au es) :
    StartsIdr au es := by
  obtain ⟨u, hu, hidr, hall⟩ := h
  obtain ⟨p, hp, hstart⟩ := starts_of_unit hidr
  exact ⟨p, List.mem_flatMap.mpr ⟨u, hu, hp⟩, hstart, hall p hp⟩

/-- What a group of one access unit says about IDR units, in terms of the
access unit as it was sent. -/
structure IdrReport (au : SentAu) (es : List Entry) (vs : List SentUnit) : Prop where
  starts : ((vs.flatMap SentUnit.packets).any fun p => !p.lost && p.piece.startsIdr) = true ↔
    StartsIdr au es
  keeps : (∃ n ∈ (vs.filter SentUnit.whole).flatMap fun u => u.packing.nals, n.isIdr = true) ↔
    KeepsIdr au es

theorem exists_of_key {ps qs : List Sent} (h : ps.map Sent.key = qs.map Sent.key) {p : Sent}
    (hp : p ∈ ps) : ∃ q ∈ qs, q.key = p.key := by
  have hmem : p.key ∈ qs.map Sent.key := h ▸ List.mem_map_of_mem hp
  exact List.mem_map.mp hmem

theorem flatMap_key {us vs : List SentUnit} (h : List.Forall₂ SameUnit us vs) :
    (vs.flatMap SentUnit.packets).map Sent.key = (us.flatMap SentUnit.packets).map Sent.key := by
  induction h with
  | nil => rfl
  | cons huv _ ih =>
    rw [List.flatMap_cons, List.flatMap_cons, List.map_append, List.map_append, ih, huv.2]

theorem same_left {us vs : List SentUnit} (h : List.Forall₂ SameUnit us vs) {u : SentUnit}
    (hu : u ∈ us) : ∃ v ∈ vs, SameUnit u v := by
  induction h with
  | nil => cases hu
  | cons huv _ ih =>
    rcases List.mem_cons.mp hu with rfl | hu
    · exact ⟨_, List.mem_cons_self, huv⟩
    · obtain ⟨v, hv, hsame⟩ := ih hu
      exact ⟨v, List.mem_cons_of_mem _ hv, hsame⟩

theorem same_right {us vs : List SentUnit} (h : List.Forall₂ SameUnit us vs) {v : SentUnit}
    (hv : v ∈ vs) : ∃ u ∈ us, SameUnit u v := by
  induction h with
  | nil => cases hv
  | cons huv _ ih =>
    rcases List.mem_cons.mp hv with rfl | hv
    · exact ⟨_, List.mem_cons_self, huv⟩
    · obtain ⟨u, hu, hsame⟩ := ih hv
      exact ⟨u, List.mem_cons_of_mem _ hu, hsame⟩

theorem idrReport {au : SentAu} {b : UInt16} (hseq : Consecutive b au.packets)
    (hlen : au.packets.length ≤ 32768) {es : List Entry} {vs : List SentUnit}
    (hsame : List.Forall₂ SameUnit au.units vs)
    (halike : Alike es (replay 0 (vs.flatMap SentUnit.packets))) : IdrReport au es vs := by
  have hkey : (vs.flatMap SentUnit.packets).map Sent.key = au.packets.map Sent.key :=
    flatMap_key hsame
  have hlength := congrArg List.length hkey
  rw [List.length_map, List.length_map] at hlength
  have hnodup := consecutive_nodup (consecutive_key hkey hseq) (by omega)
  have hreceived {p : Sent} (hp : p ∈ vs.flatMap SentUnit.packets) :=
    received_iff halike hnodup hp
  refine ⟨?_, ?_⟩
  · rw [List.any_eq_true]
    constructor
    · rintro ⟨p, hp, hstart⟩
      rw [Bool.and_eq_true, Bool.not_eq_true'] at hstart
      obtain ⟨q, hq, hqp⟩ := exists_of_key hkey hp
      have hpiece : q.piece = p.piece := congrArg Prod.fst hqp
      have hheader : q.header = p.header := congrArg Prod.snd hqp
      refine ⟨q, hq, hpiece ▸ hstart.2, ?_⟩
      rw [hheader]
      exact (hreceived hp).mp hstart.1
    · rintro ⟨q, hq, hstart, hin⟩
      obtain ⟨p, hp, hpq⟩ := exists_of_key hkey.symm hq
      have hpiece : p.piece = q.piece := congrArg Prod.fst hpq
      have hheader : p.header = q.header := congrArg Prod.snd hpq
      refine ⟨p, hp, ?_⟩
      rw [(hreceived hp).mpr (hheader ▸ hin), hpiece, hstart]
      rfl
  · constructor
    · rintro ⟨n, hn, hidr⟩
      obtain ⟨v, hv, hnv⟩ := List.mem_flatMap.mp hn
      obtain ⟨hv, hwhole⟩ := List.mem_filter.mp hv
      obtain ⟨u, hu, hpacking, hkeys⟩ := same_right hsame hv
      refine ⟨u, hu, List.any_eq_true.mpr ⟨n, hpacking ▸ hnv, hidr⟩, fun p hp => ?_⟩
      obtain ⟨q, hq, hqp⟩ := exists_of_key hkeys.symm hp
      have hheader : q.header = p.header := congrArg Prod.snd hqp
      have hlost : q.lost = false := by
        have hall := List.all_eq_true.mp hwhole q hq
        simpa using hall
      rw [← hheader]
      exact (hreceived (List.mem_flatMap.mpr ⟨v, hv, hq⟩)).mp hlost
    · rintro ⟨u, hu, hidr, hall⟩
      obtain ⟨v, hv, hpacking, hkeys⟩ := same_left hsame hu
      obtain ⟨n, hn, hn5⟩ := List.any_eq_true.mp hidr
      have hwhole : v.whole = true := by
        refine List.all_eq_true.mpr fun q hq => ?_
        obtain ⟨p, hp, hpq⟩ := exists_of_key hkeys hq
        have hheader : p.header = q.header := congrArg Prod.snd hpq
        have hlost := (hreceived (List.mem_flatMap.mpr ⟨v, hv, hq⟩)).mpr (hheader ▸ hall p hp)
        simp [hlost]
      exact ⟨n, List.mem_flatMap.mpr ⟨v, List.mem_filter.mpr ⟨hv, hwhole⟩, hpacking.symm ▸ hn⟩, hn5⟩

namespace Depacketizer

variable {cap : Nat}

/-- The NAL units of an event: whole ones of its access unit, in order. -/
structure Delivers (au : SentAu) (x : AuEvent × List UInt8) (ns : List Nal) : Prop where
  rtpTs : x.1.rtpTs = au.ts
  nals : ns.Sublist au.nals
  data : x.2 = annexB ns

/-- The event of a group of one access unit. -/
theorem delivers_of_shows {s : SentStream} (hs : Spaced s.aus)
    (hfit : ∀ au ∈ s.aus, (au.nals.map fun n => 4 + n.bytes.length).sum ≤ cap)
    {g : Group} {x : AuEvent × List UInt8} (hg : Belongs s g)
    (h : Fits cap g.entries → Shows (gather g.entries) (damages g.entries) g x) :
    ∃ au ∈ s.aus, ∃ ns, Delivers au x ns ∧ (x.1.isIdr = true ↔ StartsIdr au g.entries) ∧
      ((∃ n ∈ ns, n.isIdr = true) ↔ KeepsIdr au g.entries) := by
  obtain ⟨l, au, hau, hts, hplaced⟩ := hg
  have hshows := h (fits_of_weight (Nat.le_trans (weight_placed hplaced) (hfit au hau)))
  obtain ⟨b, hseq⟩ := consecutive_au hau
  obtain ⟨vs, hsame, halike⟩ := hplaced.units
  have hrec := recovered halike
  have hidr := idrReport hseq (hs.short au hau) hsame halike
  refine ⟨au, hau, (vs.filter SentUnit.whole).flatMap fun u => u.packing.nals, ⟨?_, ?_, ?_⟩, ?_,
    hidr.keeps⟩
  · rw [hshows.rtpTs, hts]
  · rw [SentAu.nals, ← nals_of_same hsame]
    exact List.Sublist.flatMap List.filter_sublist _
  · rw [hshows.data, hrec.whole]
  · rw [hshows.isIdr, hrec.idr]
    exact hidr.starts

theorem run_delivers (bufs : AuBuffers cap) {s : SentStream} (hs : Spaced s.aus)
    (hfit : ∀ au ∈ s.aus, (au.nals.map fun n => 4 + n.bytes.length).sum ≤ cap)
    {qs : List (RtpHeader × Int)} (hqs : FromStream s qs) :
    List.Forall₂ (fun g x => ∃ au ∈ s.aus, ∃ ns, Delivers au x ns ∧
        (x.1.isIdr = true ↔ StartsIdr au g.entries) ∧
        ((∃ n ∈ ns, n.isIdr = true) ↔ KeepsIdr au g.entries))
      (({} : Grouping).receiveAll qs).2 (({ buf := bufs } : Depacketizer cap).receiveAll qs).2 := by
  have hbelongs := receiveAll_belongs hs hqs (r := {}) (by rintro x ⟨⟩)
  have hshows := receiveAll_shows bufs qs
  refine List.Forall₂.imp (fun g x h => ?_) ((List.forall₂_and_left _ _).mpr ⟨hbelongs, hshows⟩)
  exact delivers_of_shows hs hfit h.1 h.2

/-- The bytes of every event are whole NAL units of the access unit with the
event's timestamp, in order, whatever is lost, duplicated and reordered. -/
theorem whole_nals_only (bufs : AuBuffers cap) (s : SentStream) (hs : Spaced s.aus)
    (hfit : ∀ au ∈ s.aus, (au.nals.map fun n => 4 + n.bytes.length).sum ≤ cap)
    (qs : List (RtpHeader × Int)) (hqs : FromStream s qs) :
    ∀ x ∈ (({ buf := bufs } : Depacketizer cap).receiveAll qs).2,
      ∃ au ∈ s.aus, x.1.rtpTs = au.ts ∧ ∃ ns, ns.Sublist au.nals ∧ x.2 = annexB ns := by
  refine forall_of_forall₂ (run_delivers bufs hs hfit hqs) fun g x h => ?_
  obtain ⟨au, hau, ns, hdelivers, -⟩ := h
  exact ⟨au, hau, hdelivers.rtpTs, ns, hdelivers.nals, hdelivers.data⟩

end Depacketizer

/-! The same three access units, with the first packets and the last ones out of
order and one of them twice. -/

def shuffled : List (RtpHeader × Int) :=
  [1, 0, 2, 3, 5, 5, 4, 6].filterMap fun i : Nat =>
    lossyStream.packets[i]?.map fun p => (p.header, Int.ofNat i)

theorem lossyStream_spaced : Spaced lossyStream.aus where
  stamps := by decide
  short := by decide

theorem whole_nals_only_shuffled :
    (({ buf := AuBuffers.zeroed 64 } : Depacketizer 64).receiveAll shuffled).2.length = 3 ∧
      ∀ x ∈ (({ buf := AuBuffers.zeroed 64 } : Depacketizer 64).receiveAll shuffled).2,
        ∃ au ∈ lossyStream.aus, x.1.rtpTs = au.ts ∧
          ∃ ns, ns.Sublist au.nals ∧ x.2 = annexB ns :=
  ⟨by decide +kernel, Depacketizer.whole_nals_only (AuBuffers.zeroed 64) lossyStream
    lossyStream_spaced (by decide) shuffled (by unfold FromStream; decide)⟩

namespace Depacketizer

variable {cap : Nat}

/-- The IDR flag of an event agrees with its NAL units exactly when a packet
that started a type-5 NAL unit was not received in vain. -/
theorem idr_agrees (bufs : AuBuffers cap) (s : SentStream) (hs : Spaced s.aus)
    (hfit : ∀ au ∈ s.aus, (au.nals.map fun n => 4 + n.bytes.length).sum ≤ cap)
    (qs : List (RtpHeader × Int)) (hqs : FromStream s qs) :
    List.Forall₂ (fun g x => ∃ au ∈ s.aus, x.1.rtpTs = au.ts ∧ ∃ ns, ns.Sublist au.nals ∧
        x.2 = annexB ns ∧ ((x.1.isIdr = true ↔ ∃ n ∈ ns, n.isIdr = true) ↔
          (StartsIdr au g.entries → KeepsIdr au g.entries)))
      (({} : Grouping).receiveAll qs).2 (({ buf := bufs } : Depacketizer cap).receiveAll qs).2 := by
  refine List.Forall₂.imp (fun g x h => ?_) (run_delivers bufs hs hfit hqs)
  obtain ⟨au, hau, ns, hdelivers, hstarts, hkeeps⟩ := h
  refine ⟨au, hau, hdelivers.rtpTs, ns, hdelivers.nals, hdelivers.data, ?_⟩
  rw [hstarts, hkeeps]
  constructor
  · intro hagree hs
    exact hagree.mp hs
  · intro himp
    exact ⟨himp, startsIdr_of_keepsIdr⟩

end Depacketizer

theorem lossyStream_arrivals : FromStream lossyStream lossyStream.arrivals := by
  unfold FromStream
  decide

theorem idr_agrees_lossyStream :
    List.Forall₂ (fun g x => ∃ au ∈ lossyStream.aus, x.1.rtpTs = au.ts ∧ ∃ ns,
        ns.Sublist au.nals ∧ x.2 = annexB ns ∧
          ((x.1.isIdr = true ↔ ∃ n ∈ ns, n.isIdr = true) ↔
            (StartsIdr au g.entries → KeepsIdr au g.entries)))
      (({} : Grouping).receiveAll lossyStream.arrivals).2
      (({ buf := AuBuffers.zeroed 64 } : Depacketizer 64).receiveAll lossyStream.arrivals).2 :=
  Depacketizer.idr_agrees (AuBuffers.zeroed 64) lossyStream lossyStream_spaced (by decide)
    lossyStream.arrivals lossyStream_arrivals

/-- The start fragment of an IDR unit raises the flag, and the unit is dropped
because its next fragment is lost. -/
theorem idr_of_dropped_unit :
    ¬∀ (s : SentStream), Spaced s.aus →
      (∀ au ∈ s.aus, (au.nals.map fun n => 4 + n.bytes.length).sum ≤ 64) →
      ∀ qs, FromStream s qs →
        ∀ x ∈ (({ buf := AuBuffers.zeroed 64 } : Depacketizer 64).receiveAll qs).2,
          ∃ au ∈ s.aus, x.1.rtpTs = au.ts ∧ ∃ ns, ns.Sublist au.nals ∧ x.2 = annexB ns ∧
            (x.1.isIdr = true ↔ ∃ n ∈ ns, n.isIdr = true) := by
  intro h
  have hevents := h lossyStream lossyStream_spaced (by decide) lossyStream.arrivals
    lossyStream_arrivals
  obtain ⟨x, hx, hts, hidr, hdata⟩ :
      ∃ x ∈ (({ buf := AuBuffers.zeroed 64 } : Depacketizer 64).receiveAll
        lossyStream.arrivals).2, x.1.rtpTs = 3000 ∧ x.1.isIdr = true ∧
          x.2 = annexB [spsNal, ppsNal] := by
    decide +kernel
  obtain ⟨au, hau, hau', ns, hns, hbytes, hagree⟩ := hevents x hx
  have hfirst : au = firstAu :=
    eq_of_ts lossyStream_spaced.stamps hau List.mem_cons_self (hau'.symm.trans hts)
  rw [hfirst] at hns
  have hnone : ∀ ns ∈ firstAu.nals.sublists, annexB ns = annexB [spsNal, ppsNal] →
      ¬∃ n ∈ ns, n.isIdr = true := by
    decide
  exact hnone ns (List.mem_sublists.mpr hns) (hbytes.symm.trans hdata) (hagree.mp hidr)

end P5G
