import P5G.Ffmpeg.Publication
import P5G.Rtp.Tally

/-!
# The receiver's books

Every datagram, access unit and picture that enters the receive thread is in one place of
its counters and traces, whatever the network sends, whatever the decoder does and wherever
the stream-start falls.
-/

namespace P5G
namespace Ffmpeg
namespace Receiver

open Depacketizer (UnitOf)

variable {cap : Nat} {s t : State cap}

def due : Rx → List EndedUnit
  | .units ended => ended
  | .logged _ => []
  | .counted _ => []
  | .picture _ _ ended => ended
  | .frame _ _ ended => ended

theorem due_deliver (ended : List EndedUnit) (ys : List Delivery) :
    due (.deliver ended ys) = ended := by
  cases ys <;> rfl

def assembled (bufs : AuBuffers cap) (s : State cap) : Depacketizer cap × List EndedUnit :=
  ({ buf := bufs } : Depacketizer cap).receiveAll (s.past.pushed.map Datagram.input)

structure Assembled (bufs : AuBuffers cap) (s : State cap) : Prop where
  depack : s.depack = (assembled bufs s).1
  units : s.past.handled ++ due s.rx = (assembled bufs s).2

theorem Assembled.of_eq {bufs : AuBuffers cap} (h : Assembled bufs s) (hdepack : t.depack = s.depack)
    (hpushed : t.past.pushed = s.past.pushed)
    (hdue : t.past.handled ++ due t.rx = s.past.handled ++ due s.rx) : Assembled bufs t := by
  have heq : assembled bufs t = assembled bufs s := by rw [assembled, assembled, hpushed]
  exact ⟨by rw [hdepack, heq, h.depack], by rw [hdue, heq, h.units]⟩

theorem Assembled.next {bufs : AuBuffers cap} {a : Act} (h : Assembled bufs s) (hm : Moves s a t) :
    Assembled bufs t := by
  cases hm with
  | store => rename_i st rest hp; cases st <;> exact ⟨h.depack, h.units⟩
  | receive hrx => exact h.of_eq rfl rfl (by rw [hrx]; rfl)
  | foreign hrx => exact h.of_eq rfl rfl (by rw [hrx]; rfl)
  | count hrx => exact h.of_eq rfl rfl (by rw [hrx]; rfl)
  | otherPt hrx => exact h.of_eq rfl rfl (by rw [hrx]; rfl)
  | push hrx =>
    rename_i q hpt
    have hunits := h.units
    rw [hrx, due, List.append_nil] at hunits
    have heq : assembled bufs (push s q) =
        ((s.depack.receive q.input).1, s.past.handled ++ (s.depack.receive q.input).2) := by
      show ({ buf := bufs } : Depacketizer cap).receiveAll
        ((s.past.pushed ++ [q]).map Datagram.input) = _
      rw [List.map_append, Depacketizer.receiveAll_append, hunits, h.depack]
      simp [assembled, Depacketizer.receiveAll]
    exact ⟨by rw [heq]; rfl, by rw [heq]; rfl⟩
  | decodeAu hrx =>
    rename_i x ended o
    refine h.of_eq rfl rfl ?_
    have hdue : due (decodeAu s x ended o).rx = ended := by
      rw [decodeAu]
      split
      · exact due_deliver _ _
      · rfl
    rw [hdue, hrx]
    show (s.past.handled ++ [x]) ++ ended = s.past.handled ++ (x :: ended)
    rw [List.append_assoc]
    rfl
  | writeDecoded hrx => exact h.of_eq rfl rfl (by rw [hrx]; rfl)
  | writeFrame hrx => exact h.of_eq rfl rfl (by rw [hrx]; exact congrArg _ (due_deliver _ _))
  | _ => exact ⟨h.depack, h.units⟩

/-! ## Counters -/

/-- The counters add up what has happened.  A complete access unit adds to none of the
losses. -/
structure Tallied (s : State cap) : Prop where
  pkts : s.n.pkts = s.past.counted.length
  bytes : s.n.bytes = (s.past.counted.map Datagram.size).sum
  incomplete : s.n.incomplete = s.past.handled.countP fun x => !x.1.complete
  lostPkts : s.n.lostPkts =
    (s.past.handled.map fun x => if x.1.complete then 0 else x.1.lostPackets).sum
  lostFrag : s.n.lostFrag =
    (s.past.handled.map fun x => if x.1.complete then 0 else x.1.lostFragments).sum
  damaged : s.n.damaged = s.past.handled.countP fun x => !x.1.complete && x.1.damaged
  emptyAus : s.n.emptyAus = s.past.handled.countP fun x => x.1.bytes == 0
  decodeFail : s.n.decodeFail = s.past.sent.countP fun x => !x.2
  sent : s.past.sent.map Prod.fst =
    (s.past.handled.filter fun x => x.1.bytes != 0).map Prod.snd

theorem Tallied.of_eq (h : Tallied s) (hcounted : t.past.counted = s.past.counted)
    (hhandled : t.past.handled = s.past.handled) (hsent : t.past.sent = s.past.sent)
    (hn : { t.n with frameIdx := 0 } = { s.n with frameIdx := 0 }) : Tallied t := by
  simp only [Counters.mk.injEq] at hn
  obtain ⟨hpkts, hbytes, -, hincomplete, hempty, hdamaged, hlost, hfrag, hfail, -⟩ := hn
  constructor
  · rw [hpkts, hcounted, h.pkts]
  · rw [hbytes, hcounted, h.bytes]
  · rw [hincomplete, hhandled, h.incomplete]
  · rw [hlost, hhandled, h.lostPkts]
  · rw [hfrag, hhandled, h.lostFrag]
  · rw [hdamaged, hhandled, h.damaged]
  · rw [hempty, hhandled, h.emptyAus]
  · rw [hfail, hsent, h.decodeFail]
  · rw [hsent, hhandled, h.sent]

/-- What one call of `DecodeAu` adds. -/
theorem decodeAu_counters (n : Counters) (ev : AuEvent) (o : Decoding) :
    (Counters.decodeAu n ev o).pkts = n.pkts ∧ (Counters.decodeAu n ev o).bytes = n.bytes ∧
      (Counters.decodeAu n ev o).frameIdx = n.frameIdx ∧
      (Counters.decodeAu n ev o).incomplete = n.incomplete + (if ev.complete then 0 else 1) ∧
      (Counters.decodeAu n ev o).lostPkts =
        n.lostPkts + (if ev.complete then 0 else ev.lostPackets) ∧
      (Counters.decodeAu n ev o).lostFrag =
        n.lostFrag + (if ev.complete then 0 else ev.lostFragments) ∧
      (Counters.decodeAu n ev o).damaged =
        n.damaged + (if !ev.complete && ev.damaged then 1 else 0) ∧
      (Counters.decodeAu n ev o).emptyAus = n.emptyAus + (if ev.bytes = 0 then 1 else 0) ∧
      (Counters.decodeAu n ev o).decodeFail =
        n.decodeFail + (if ev.bytes = 0 then 0 else if o.accepted then 0 else 1) := by
  cases hcomplete : ev.complete <;> by_cases hbytes : ev.bytes = 0 <;>
    simp [Counters.decodeAu, Counters.tally, hcomplete, hbytes]

theorem Tallied.decodeAu (h : Tallied s) (x : EndedUnit) (ended : List EndedUnit) (o : Decoding) :
    Tallied (decodeAu s x ended o) := by
  obtain ⟨hpkts, hbytes, -, hincomplete, hlost, hfrag, hdamaged, hempty, hfail⟩ :=
    decodeAu_counters s.n x.1 o
  have hhandled : (Receiver.decodeAu s x ended o).past.handled = s.past.handled ++ [x] := rfl
  have hsent : (Receiver.decodeAu s x ended o).past.sent =
      s.past.sent ++ if x.1.bytes = 0 then [] else [(x.2, o.accepted)] := rfl
  constructor
  · exact hpkts.trans h.pkts
  · exact hbytes.trans h.bytes
  · refine hincomplete.trans ?_
    rw [hhandled, h.incomplete, List.countP_append, List.countP_singleton]
    cases x.1.complete <;> rfl
  · refine hlost.trans ?_
    rw [hhandled, h.lostPkts, List.map_append, List.sum_append, List.map_singleton,
      List.sum_singleton]
  · refine hfrag.trans ?_
    rw [hhandled, h.lostFrag, List.map_append, List.sum_append, List.map_singleton,
      List.sum_singleton]
  · refine hdamaged.trans ?_
    rw [hhandled, h.damaged, List.countP_append, List.countP_singleton]
  · refine hempty.trans ?_
    rw [hhandled, h.emptyAus, List.countP_append, List.countP_singleton]
    simp only [beq_iff_eq]
  · refine hfail.trans ?_
    rw [hsent, h.decodeFail, List.countP_append]
    by_cases hzero : x.1.bytes = 0
    · rw [if_pos hzero, if_pos hzero, List.countP_nil]
    · rw [if_neg hzero, if_neg hzero, List.countP_singleton]
      cases o.accepted <;> rfl
  · rw [hsent, hhandled, List.map_append, h.sent, List.filter_append, List.map_append]
    by_cases hzero : x.1.bytes = 0
    · simp [hzero]
    · simp [hzero]

theorem Tallied.next {a : Act} (h : Tallied s) (hm : Moves s a t) : Tallied t := by
  cases hm with
  | @store st rest hp => cases st <;> exact h.of_eq rfl rfl rfl rfl
  | @count q hrx heq =>
    refine ⟨?_, ?_, h.incomplete, h.lostPkts, h.lostFrag, h.damaged, h.emptyAus, h.decodeFail,
      h.sent⟩
    · show s.n.pkts + 1 = (s.past.counted ++ [q]).length
      rw [h.pkts, List.length_append]
      rfl
    · show s.n.bytes + q.size = ((s.past.counted ++ [q]).map Datagram.size).sum
      rw [h.bytes, List.map_append, List.sum_append]
      rfl
  | decodeAu hrx => exact h.decodeAu _ _ _
  | _ => exact h.of_eq rfl rfl rfl rfl

/-! ## Pictures -/

/-- Of the pictures `ys` that have passed the ledger, those that have passed the frame trace. -/
def shown : Rx → List Delivery → List Delivery
  | .frame _ _ _, ys => ys.dropLast
  | _, ys => ys

/-- The pictures of the decoder's last call that are still to come. -/
def awaited : Rx → List Delivery
  | .picture y ys _ => y :: ys
  | .frame _ ys _ => ys
  | _ => []

def lag : Rx → Nat
  | .frame _ _ _ => 1
  | _ => 0

theorem deliver_cases (ended : List EndedUnit) (ys zs : List Delivery) :
    shown (.deliver ended ys) zs = zs ∧ awaited (.deliver ended ys) = ys ∧
      lag (.deliver ended ys) = 0 := by
  cases ys <;> exact ⟨rfl, rfl, rfl⟩

def frameRows (ssrc : UInt32) (ys : List Delivery) : List Trace.DecodedFrameRow :=
  ys.mapIdx fun i y => y.frameRow i ssrc

/-- Both traces hold the last of the pictures. -/
structure Delivered (s : State cap) : Prop where
  decoded : s.decoded.getD [] <:+ s.past.delivered.map Delivery.ledgerRow
  frames : ∃ early late, shown s.rx s.past.delivered = early ++ late ∧
    s.frames.getD [] = frameRows s.ssrc late ∧ s.n.frameIdx = late.length
  between : ∀ y ys ended, s.rx = .frame y ys ended → ∃ l, s.past.delivered = l ++ [y]
  race : s.frames.isSome = true →
    (s.frames.getD []).length + lag s.rx ≤ (s.decoded.getD []).length + 1
  units : ∀ y ∈ s.past.delivered ++ awaited s.rx, ∃ x ∈ s.past.handled, x.1 = y.unit

theorem frameRows_append (ssrc : UInt32) (ys : List Delivery) (y : Delivery) :
    frameRows ssrc (ys ++ [y]) = frameRows ssrc ys ++ [y.frameRow ys.length ssrc] := by
  simp [frameRows, List.mapIdx_append]

theorem frameRows_nil {ssrc : UInt32} {ys : List Delivery} (h : frameRows ssrc ys = []) :
    ys = [] := by
  have hlength := congrArg List.length h
  rwa [frameRows, List.length_mapIdx, List.length_nil, List.length_eq_zero_iff] at hlength

theorem suffix_append {α : Type} {xs ys : List α} (h : xs <:+ ys) (a : α) :
    xs ++ [a] <:+ ys ++ [a] := by
  obtain ⟨zs, rfl⟩ := h
  exact ⟨zs, (List.append_assoc _ _ _).symm⟩

/-- A step that leaves the traces and the pictures alone. -/
theorem Delivered.of_eq (h : Delivered s) (hdecoded : t.decoded = s.decoded)
    (hframes : t.frames = s.frames) (hssrc : t.ssrc = s.ssrc) (hidx : t.n.frameIdx = s.n.frameIdx)
    (hpast : t.past.delivered = s.past.delivered) (hlag : lag s.rx = 0) (ht : lag t.rx = 0)
    (hunits : ∀ y ∈ s.past.delivered ++ awaited t.rx, ∃ x ∈ t.past.handled, x.1 = y.unit) :
    Delivered t := by
  have hshown : ∀ {rx : Rx}, lag rx = 0 → ∀ ys, shown rx ys = ys := by
    intro rx hrx ys
    cases rx with
    | frame => cases hrx
    | _ => rfl
  refine ⟨?_, ?_, fun y ys ended hrx => ?_, fun hopen => ?_, ?_⟩
  · rw [hdecoded, hpast]
    exact h.decoded
  · obtain ⟨early, late, hsplit, hrows, hlength⟩ := h.frames
    rw [hshown hlag] at hsplit
    exact ⟨early, late, by rw [hshown ht, hpast, hsplit], by rw [hframes, hssrc, hrows],
      hidx.trans hlength⟩
  · rw [hrx] at ht
    cases ht
  · have hrace := h.race (hframes ▸ hopen)
    rw [hlag] at hrace
    rw [hframes, hdecoded, ht]
    exact hrace
  · rw [hpast]
    exact hunits

theorem Delivered.store (h : Delivered s) (hs : Staged s) {st : Store} {rest : List Store}
    (hp : s.pending = st :: rest) : Delivered (apply { s with pending := rest } st) := by
  have hclosed : s.frames.isSome = false := by
    rw [Bool.eq_false_iff]
    intro hopen
    rw [(hs.frames hopen).1] at hp
    cases hp
  have hnone : s.frames = none := Option.isSome_eq_false_iff.mp hclosed |> Option.isNone_iff_eq_none.mp
  obtain ⟨early, late, hsplit, hrows, hlength⟩ := h.frames
  have hnil : late = [] := by
    rw [hnone] at hrows
    exact frameRows_nil hrows.symm
  subst hnil
  have hrace {P : Prop} (hopen : s.frames.isSome = true) : P := by
    rw [hclosed] at hopen
    cases hopen
  cases st with
  | ssrc v =>
    exact ⟨h.decoded, ⟨early, [], hsplit, hrows, hlength⟩, h.between, hrace, h.units⟩
  | pt v => exact ⟨h.decoded, ⟨early, [], hsplit, hrows, hlength⟩, h.between, hrace, h.units⟩
  | rtp => exact ⟨h.decoded, ⟨early, [], hsplit, hrows, hlength⟩, h.between, hrace, h.units⟩
  | rtcp => exact ⟨h.decoded, ⟨early, [], hsplit, hrows, hlength⟩, h.between, hrace, h.units⟩
  | decoded =>
    exact ⟨List.nil_suffix, ⟨early, [], hsplit, hrows, hlength⟩, h.between, hrace, h.units⟩
  | frames =>
    refine ⟨h.decoded, ⟨early, [], hsplit, rfl, hlength⟩, h.between, fun _ => ?_, h.units⟩
    show 0 + lag s.rx ≤ (s.decoded.getD []).length + 1
    have hlag : lag s.rx ≤ 1 := by
      cases s.rx <;> simp [lag]
    omega

theorem Delivered.decodeAu (h : Delivered s) {x : EndedUnit} {ended : List EndedUnit}
    (hrx : s.rx = .units (x :: ended)) (o : Decoding) : Delivered (decodeAu s x ended o) := by
  refine h.of_eq rfl rfl rfl (decodeAu_counters s.n x.1 o).2.2.1 rfl (by rw [hrx]; rfl) ?_
    fun y hy => ?_
  · rw [Receiver.decodeAu]
    split
    · exact (deliver_cases ended _ []).2.2
    · rfl
  · rw [List.mem_append] at hy
    obtain hy | hy := hy
    · obtain ⟨z, hz, heq⟩ := h.units y (List.mem_append_left _ hy)
      exact ⟨z, List.mem_append_left [x] hz, heq⟩
    · refine ⟨x, List.mem_append_right _ List.mem_cons_self, ?_⟩
      rw [Receiver.decodeAu] at hy
      split at hy
      · rw [(deliver_cases ended _ []).2.1, List.mem_map] at hy
        obtain ⟨p, -, rfl⟩ := hy
        rfl
      · cases hy

theorem Delivered.writeDecoded (h : Delivered s) (hs : Staged s) {y : Delivery}
    {ys : List Delivery} {ended : List EndedUnit} (hrx : s.rx = .picture y ys ended) :
    Delivered (writeDecoded s y ys ended) := by
  obtain ⟨early, late, hsplit, hrows, hlength⟩ := h.frames
  rw [hrx] at hsplit
  have hunits := h.units
  rw [hrx] at hunits
  refine ⟨?_, ⟨early, late, ?_, hrows, hlength⟩, fun z zs e hz => ?_, fun hopen => ?_,
    fun z hz => hunits z ?_⟩
  · show (s.decoded.map (· ++ [y.ledgerRow])).getD [] <:+
      (s.past.delivered ++ [y]).map Delivery.ledgerRow
    have hrest := h.decoded
    cases hd : s.decoded with
    | none => exact List.nil_suffix
    | some rows =>
      rw [hd] at hrest
      rw [List.map_append]
      exact suffix_append hrest _
  · show (s.past.delivered ++ [y]).dropLast = early ++ late
    rw [List.dropLast_concat]
    exact hsplit
  · cases hz
    exact ⟨s.past.delivered, rfl⟩
  · have hrace := h.race hopen
    obtain ⟨rows, hd⟩ := Option.isSome_iff_exists.mp (hs.frames hopen).2
    rw [hrx, hd] at hrace
    show (s.frames.getD []).length + 1 ≤ ((s.decoded.map (· ++ [y.ledgerRow])).getD []).length + 1
    rw [hd, Option.map_some, Option.getD_some, List.length_append, List.length_singleton]
    exact Nat.add_le_add_right hrace 1
  · rw [show (s.past.delivered ++ awaited (.picture y ys ended)) =
      (s.past.delivered ++ [y]) ++ ys from (List.append_assoc s.past.delivered [y] ys).symm]
    exact hz

theorem Delivered.writeFrame (h : Delivered s) {y : Delivery} {ys : List Delivery}
    {ended : List EndedUnit} (hrx : s.rx = .frame y ys ended) :
    Delivered (writeFrame s y ys ended) := by
  obtain ⟨hshown, hawaited, hlag⟩ := deliver_cases ended ys s.past.delivered
  obtain ⟨l, hl⟩ := h.between y ys ended hrx
  obtain ⟨early, late, hsplit, hrows, hlength⟩ := h.frames
  rw [hrx] at hsplit
  have hinit : l = early ++ late := by
    rw [← hsplit, shown, hl, List.dropLast_concat]
  have hunits := h.units
  rw [hrx] at hunits
  have hbetween : ∀ z zs e, Rx.deliver ended ys = .frame z zs e →
      ∃ l, s.past.delivered = l ++ [z] := by
    intro z zs e hz
    rw [hz] at hlag
    cases hlag
  cases hf : s.frames with
  | none =>
    have hnil : late = [] := by
      rw [hf] at hrows
      exact frameRows_nil hrows.symm
    subst hnil
    refine ⟨h.decoded, ⟨s.past.delivered, [], ?_, ?_, ?_⟩, hbetween, fun hopen => ?_,
      fun z hz => hunits z ?_⟩
    · exact hshown.trans (List.append_nil _).symm
    · show (s.frames.map _).getD [] = _
      rw [hf]
      rfl
    · show s.n.frameIdx + (if s.frames.isSome then 1 else 0) = 0
      rw [hf]
      exact hlength
    · have hopen' : (s.frames.map (· ++ [y.frameRow s.n.frameIdx s.ssrc])).isSome = true := hopen
      rw [hf] at hopen'
      cases hopen'
    · exact hawaited ▸ hz
  | some rows =>
    have hsome : s.frames.isSome = true := by rw [hf]; rfl
    rw [hf, Option.getD_some] at hrows
    refine ⟨h.decoded, ⟨early, late ++ [y], ?_, ?_, ?_⟩, hbetween, fun _ => ?_,
      fun z hz => hunits z ?_⟩
    · refine hshown.trans ?_
      rw [hl, hinit, List.append_assoc]
    · show (s.frames.map (· ++ [y.frameRow s.n.frameIdx s.ssrc])).getD [] = _
      rw [hf, Option.map_some, Option.getD_some, hrows, hlength]
      exact (frameRows_append s.ssrc late y).symm
    · show s.n.frameIdx + (if s.frames.isSome then 1 else 0) = _
      rw [hsome, if_pos rfl, hlength, List.length_append]
      rfl
    · have hrace := h.race hsome
      rw [hrx, hf] at hrace
      show ((s.frames.map (· ++ [y.frameRow s.n.frameIdx s.ssrc])).getD []).length +
        lag (.deliver ended ys) ≤ _
      rw [hf, hlag, Option.map_some, Option.getD_some, List.length_append]
      exact hrace
    · exact hawaited ▸ hz

theorem Delivered.next {a : Act} (h : Delivered s) (hs : Staged s) (hm : Moves s a t) :
    Delivered t := by
  have hunits := h.units
  cases hm with
  | store hp => exact h.store hs hp
  | receive hrx =>
    rw [hrx] at hunits
    exact h.of_eq rfl rfl rfl rfl rfl (by rw [hrx]; rfl) rfl hunits
  | foreign hrx =>
    rw [hrx] at hunits
    exact h.of_eq rfl rfl rfl rfl rfl (by rw [hrx]; rfl) rfl hunits
  | count hrx =>
    rw [hrx] at hunits
    exact h.of_eq rfl rfl rfl rfl rfl (by rw [hrx]; rfl) rfl hunits
  | otherPt hrx =>
    rw [hrx] at hunits
    exact h.of_eq rfl rfl rfl rfl rfl (by rw [hrx]; rfl) rfl hunits
  | push hrx =>
    rw [hrx] at hunits
    exact h.of_eq rfl rfl rfl rfl rfl (by rw [hrx]; rfl) rfl hunits
  | decodeAu hrx => exact h.decodeAu hrx _
  | writeDecoded hrx => exact h.writeDecoded hs hrx
  | writeFrame hrx => exact h.writeFrame hrx
  | _ => exact ⟨h.decoded, h.frames, h.between, h.race, h.units⟩

/-! ## The books -/

/-- The datagrams: `late` are those of the packet trace, and `head` and `pre` those that were
counted and depacketized before it was open. -/
structure PacketBook (s : State cap) (early late head pre : List Datagram) : Prop where
  parsed : s.past.parsed = early ++ late
  rows : s.rtp.getD [] = late.map Datagram.rtpRow
  pkts : s.n.pkts = head.length + late.countP (own s.ssrc)
  bytes : s.n.bytes = (head.map Datagram.size).sum +
    ((late.filter (own s.ssrc)).map Datagram.size).sum
  pushed : s.past.pushed = pre ++ late.filter (mine s.ssrc s.pt)
  head_early : ∀ q ∈ head, q ∈ early ∧ (q.header.ssrc = 0 ∨ q.header.ssrc = s.ssrc)
  pre_head : ∀ q ∈ pre, q ∈ head

def accepted (bufs : AuBuffers cap) (s : State cap) : List (RtpHeader × Int) :=
  ({ buf := bufs } : Depacketizer cap).taken (s.past.pushed.map Datagram.input)

/-- The access units, each of them through `DecodeAu`. -/
structure UnitBook (bufs : AuBuffers cap) (s : State cap) : Prop where
  handled : s.past.handled = (assembled bufs s).2
  packets : s.depack.lateOrDup + (s.past.handled.map fun x => x.1.packets).sum +
    s.depack.packets = s.past.pushed.length
  lostPkts : s.n.lostPkts + s.depack.lost = missing none ((accepted bufs s).map Prod.fst)
  lostFrag : s.n.lostFrag = (s.past.handled.map fun x => x.1.lostFragments).sum
  incomplete : s.n.incomplete = s.past.handled.countP fun x => !x.1.complete
  damaged : s.n.damaged = s.past.handled.countP fun x => x.1.damaged
  emptyAus : s.n.emptyAus + s.past.sent.length = s.past.handled.length
  empty_incomplete : s.n.emptyAus ≤ s.n.incomplete
  sent : s.past.sent.map Prod.fst =
    (s.past.handled.filter fun x => x.1.bytes != 0).map Prod.snd
  decodeFail : s.n.decodeFail = s.past.sent.countP fun x => !x.2

/-- A row of the frame trace tells of these packets. -/
structure RowOf (ps : List (RtpHeader × Int)) (r : Trace.DecodedFrameRow) : Prop where
  numPackets : r.numPackets = Int32.ofNat ps.length
  first : ps.head?.map Prod.snd = some r.firstPktMonoNs.toInt
  last : ps.getLast?.map Prod.snd = some r.lastPktMonoNs.toInt

/-- The pictures: both traces end with the last of them, and the frame trace is at most one
row ahead of the ledger. -/
structure FrameBook (bufs : AuBuffers cap) (s : State cap) : Prop where
  decoded : s.decoded.getD [] <:+ s.past.delivered.map Delivery.ledgerRow
  frames : ∃ early late, s.past.delivered = early ++ late ∧
    s.frames.getD [] = frameRows s.ssrc late ∧ s.n.frameIdx = late.length
  race : (s.frames.getD []).length ≤ (s.decoded.getD []).length + 1
  rows : ∃ groups current, accepted bufs s = groups.flatten ++ current ∧
    current.length = s.depack.packets ∧ List.Forall₂ UnitOf groups s.past.handled ∧
    ∀ r ∈ s.frames.getD [], ∃ ps ∈ groups, RowOf ps r

structure Inv (bufs : AuBuffers cap) (s : State cap) : Prop where
  staged : Staged s
  logged : Logged s
  assembled : Assembled bufs s
  tallied : Tallied s
  delivered : Delivered s

theorem inv_init (bufs : AuBuffers cap) : Inv bufs (init bufs) := by
  refine ⟨⟨fun _ => ⟨rfl, rfl, rfl, rfl, rfl⟩, .nil, ?_, ?_, ?_, ?_, ?_⟩,
    ⟨[], [], [], [], rfl, rfl, fun _ => rfl, rfl, rfl, ?_, ?_, ?_, ?_⟩, ⟨rfl, rfl⟩,
    ⟨rfl, rfl, rfl, rfl, rfl, rfl, rfl, rfl, rfl⟩,
    ⟨List.nil_suffix, ⟨[], [], rfl, rfl, rfl⟩, ?_, ?_, ?_⟩⟩ <;> simp [init, awaited]

theorem inv_of_reachable {bufs : AuBuffers cap} (h : (machine bufs).ReachableBy NamesStream s) :
    Inv bufs s := by
  refine h.invariant (inv_init bufs) fun x a y hx hname hstep => ?_
  have hm := step_moves hstep
  exact ⟨hx.staged.next hname hm, hx.logged.next hx.staged hm, hx.assembled.next hm,
    hx.tallied.next hm, hx.delivered.next hx.staged hm⟩

theorem Inv.packetBook {bufs : AuBuffers cap} (h : Inv bufs s) (hidle : s.rx = .units []) :
    ∃ early late head pre, PacketBook s early late head pre := by
  obtain ⟨early, late, head, pre, hlogs⟩ := h.logged
  have hcounted := hlogs.counted
  have hpushed := hlogs.pushed
  rw [hidle] at hcounted hpushed
  refine ⟨early, late, head, pre, hlogs.parsed, hlogs.rows, ?_, ?_, hpushed, hlogs.head_early,
    hlogs.pre_head⟩
  · rw [h.tallied.pkts, hcounted, List.length_append, List.countP_eq_length_filter]
    rfl
  · rw [h.tallied.bytes, hcounted, List.map_append, List.sum_append]
    rfl

theorem sum_incomplete {f : AuEvent → Nat} {xs : List EndedUnit}
    (hf : ∀ x ∈ xs, x.1.complete = true → f x.1 = 0) :
    (xs.map fun x => if x.1.complete then 0 else f x.1).sum = (xs.map fun x => f x.1).sum := by
  refine congrArg List.sum (List.map_congr_left fun x hx => ?_)
  by_cases hcomplete : x.1.complete = true
  · rw [if_pos hcomplete, hf x hx hcomplete]
  · rw [if_neg hcomplete]

theorem Inv.unitBook {bufs : AuBuffers cap} (h : Inv bufs s) (hidle : s.rx = .units []) :
    UnitBook bufs s := by
  have hrun := Depacketizer.run_fresh bufs (s.past.pushed.map Datagram.input)
  have hhandled := h.assembled.units
  rw [hidle, due, List.append_nil] at hhandled
  rw [← Receiver.assembled, ← hhandled, ← h.assembled.depack] at hrun
  have htally := h.tallied
  refine ⟨hhandled, ?_, ?_, ?_, htally.incomplete, ?_, ?_, ?_, htally.sent, htally.decodeFail⟩
  · have hlate := hrun.late
    rw [← hrun.packets, List.length_map, ← Nat.add_assoc] at hlate
    exact hlate
  · rw [htally.lostPkts, sum_incomplete fun x hx => (hrun.sound x hx).lost]
    exact hrun.lost
  · rw [htally.lostFrag, sum_incomplete fun x hx => (hrun.sound x hx).fragments]
  · rw [htally.damaged]
    refine List.countP_congr fun x hx => ?_
    have hsound := (hrun.sound x hx).damaged
    cases hcomplete : x.1.complete with
    | true => simp [hsound hcomplete]
    | false => simp
  · have hlength := congrArg List.length htally.sent
    rw [List.length_map, List.length_map, ← List.countP_eq_length_filter] at hlength
    have hsplit := List.length_eq_countP_add_countP (fun x : EndedUnit => x.1.bytes == 0)
      (l := s.past.handled)
    have hne : s.past.handled.countP (fun x => x.1.bytes != 0) =
        s.past.handled.countP fun x => ¬(x.1.bytes == 0) = true :=
      List.countP_congr fun x _ => by simp
    rw [htally.emptyAus, hlength, hne]
    exact hsplit.symm
  · rw [htally.emptyAus, htally.incomplete]
    refine List.countP_mono_left fun x hx hzero => ?_
    have hsound := (hrun.sound x hx).bytes
    cases hcomplete : x.1.complete with
    | true =>
      have hpos := hsound hcomplete
      rw [eq_of_beq hzero] at hpos
      cases hpos
    | false => rfl

theorem exists_of_forall₂ {α β : Type} {R : α → β → Prop} {as : List α} {bs : List β}
    (h : List.Forall₂ R as bs) {b : β} (hb : b ∈ bs) : ∃ a ∈ as, R a b := by
  induction h with
  | nil => cases hb
  | @cons a c as bs hac _ ih =>
    rw [List.mem_cons] at hb
    obtain rfl | hb := hb
    · exact ⟨a, List.mem_cons_self, hac⟩
    · obtain ⟨x, hx, hxb⟩ := ih hb
      exact ⟨x, List.mem_cons_of_mem a hx, hxb⟩

/-- The arrival of an accepted packet goes through `int64_t` unchanged. -/
theorem arrival_toInt {bufs : AuBuffers cap} {p : RtpHeader × Int} (hp : p ∈ accepted bufs s) :
    (Int64.ofInt p.2).toInt = p.2 := by
  obtain ⟨q, -, rfl⟩ := List.mem_map.mp (Depacketizer.mem_of_mem_taken _ _ hp)
  exact congrArg Int64.toInt (Int64.ofInt_toInt q.arrivalMono)

theorem rowOf_frameRow {ps : List (RtpHeader × Int)} {x : EndedUnit} (hx : UnitOf ps x)
    (hps : ∀ p ∈ ps, (Int64.ofInt p.2).toInt = p.2) {y : Delivery} (hy : x.1 = y.unit)
    (i : Nat) (ssrc : UInt32) : RowOf ps (y.frameRow i ssrc) := by
  have hcount := hx.packets
  have hfirst := hx.first
  have hlast := hx.last
  rw [hy] at hcount hfirst hlast
  refine ⟨congrArg Int32.ofNat hcount, ?_, ?_⟩
  · obtain ⟨p, hp, hpe⟩ := Option.map_eq_some_iff.mp hfirst
    rw [hfirst]
    show some y.unit.firstArrivalNs = some (Int64.ofInt y.unit.firstArrivalNs).toInt
    rw [← hpe, hps p (List.mem_of_head? hp)]
  · obtain ⟨p, hp, hpe⟩ := Option.map_eq_some_iff.mp hlast
    rw [hlast]
    show some y.unit.lastArrivalNs = some (Int64.ofInt y.unit.lastArrivalNs).toInt
    rw [← hpe, hps p (List.mem_of_getLast? hp)]

theorem Inv.frameBook {bufs : AuBuffers cap} (h : Inv bufs s) (hidle : s.rx = .units []) :
    FrameBook bufs s := by
  have hrun := Depacketizer.run_fresh bufs (s.past.pushed.map Datagram.input)
  have hhandled := h.assembled.units
  rw [hidle, due, List.append_nil] at hhandled
  rw [← Receiver.assembled, ← hhandled, ← h.assembled.depack] at hrun
  obtain ⟨groups, current, hsplit, hcurrent, hgroups⟩ := hrun.groups
  obtain ⟨early, late, hlate, hrows, hidx⟩ := h.delivered.frames
  rw [hidle] at hlate
  have hrace := h.delivered.race
  rw [hidle] at hrace
  refine ⟨h.delivered.decoded, ⟨early, late, hlate, hrows, hidx⟩, ?_, groups, current, hsplit,
    hcurrent, hgroups, fun r hr => ?_⟩
  · cases hopen : s.frames with
    | none => exact Nat.zero_le _
    | some rows =>
      rw [hopen] at hrace
      exact hrace rfl
  · rw [hrows, frameRows, List.mem_mapIdx] at hr
    obtain ⟨i, hi, rfl⟩ := hr
    have hmem : late[i] ∈ s.past.delivered := by
      rw [show s.past.delivered = early ++ late from hlate]
      exact List.mem_append_right early (List.getElem_mem hi)
    obtain ⟨x, hx, hunit⟩ := h.delivered.units _ (List.mem_append_left _ hmem)
    obtain ⟨ps, hps, hcounts⟩ := exists_of_forall₂ hgroups hx
    refine ⟨ps, hps, rowOf_frameRow hcounts (fun p hp => ?_) hunit i s.ssrc⟩
    have haccepted : p ∈ accepted bufs s := by
      rw [accepted, hsplit]
      exact List.mem_append_left _ (List.mem_flatten_of_mem hps hp)
    exact arrival_toInt haccepted

/-- Between two datagrams, all that has come in is in the counters and the traces. -/
theorem receiver_books {bufs : AuBuffers cap} (h : (machine bufs).ReachableBy NamesStream s)
    (hidle : s.rx = .units []) :
    (∃ early late head pre, PacketBook s early late head pre) ∧ UnitBook bufs s ∧
      FrameBook bufs s := by
  have hinv := inv_of_reachable h
  exact ⟨hinv.packetBook hidle, hinv.unitBook hidle, hinv.frameBook hidle⟩

def Rx.idle : Rx → Bool
  | .units [] => true
  | _ => false

theorem eq_of_idle {rx : Rx} (h : Rx.idle rx = true) : rx = .units [] := by
  cases rx with
  | units ended =>
    cases ended with
    | nil => rfl
    | cons => cases h
  | _ => cases h

def announcement : Fields :=
  [("type", .str "stream-start"), ("stream", .str "cam0"), ("ssrc", .num 5), ("pt", .num 96)]

def packet : List UInt8 := [0x80, 0xe0, 0, 1, 0, 0, 0, 9, 0, 0, 0, 5, 0x65, 0xaa]

/-- The picture passes the ledger before it is open and the frame trace after. -/
def lateOpening : List Act :=
  [.message announcement, .overtake, .store, .store, .store, .datagram packet none 7 8, .testSsrc,
    .testPt, .decodeAu ⟨1, true, false, [⟨9, 64, 48, 10, 11⟩]⟩, .writeDecoded, .store, .store,
    .writeFrame]

theorem receiver_books_lateOpening : ∃ s, (machine (AuBuffers.zeroed 64)).ReachableBy NamesStream s ∧
    (s.frames.getD []).length = 1 ∧ (s.decoded.getD []).length = 0 ∧
    (∃ early late head pre, PacketBook s early late head pre) ∧
    UnitBook (AuBuffers.zeroed 64) s ∧ FrameBook (AuBuffers.zeroed 64) s := by
  obtain ⟨s, hreach, hidle, hframes, hdecoded⟩ :=
    (machine (AuBuffers.zeroed 64)).exists_of_execBy (G := NamesStream) lateOpening
      (P := fun s => Rx.idle s.rx = true ∧ (s.frames.getD []).length = 1 ∧
        (s.decoded.getD []).length = 0) rfl
  exact ⟨s, hreach, hframes, hdecoded, receiver_books hreach (eq_of_idle hidle)⟩

end Receiver
end Ffmpeg
end P5G
