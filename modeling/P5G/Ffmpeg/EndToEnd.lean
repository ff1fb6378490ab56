import P5G.Compose
import P5G.Ffmpeg.Accounts
import P5G.Sender.Air

/-!
# From the capture grid to the shown frame

The sender and the receiver of the ffmpeg tree, with the network between them.  The network
loses, repeats, delays and reorders datagrams as it likes, and brings others of other streams;
a row of rx-frames is one captured slot all the same.
-/

namespace P5G
namespace Ffmpeg

open Sender (Camera)
open Depacketizer (UnitOf)

variable {cap : Nat}

/-- The sender with what it has done so far, and the receiver. -/
abbrev World (cap : Nat) := (Sender.State × List Sender.Act) × State cap

def endToEnd (c : Camera) (bufs : AuBuffers cap) : Machine (World cap) (Sender.Act ⊕ Act) :=
  (Sender.machine c).logged.prod (Receiver.machine bufs)

/-- The stream-start is the sender's, a datagram of its SSRC or of SSRC 0 comes from it, and a
picture has the pts of its access unit. -/
def Delivers (ssrc : UInt32) (sent : List (List UInt8)) (s : State cap) : Act → Prop
  | .message m => m.valueStr "type" "" = some "stream-start" →
      m.valueStr "stream" "" ≠ some "" ∧ m.valueUInt32 "ssrc" 0 = some ssrc
  | .datagram d _ _ _ => ∀ h ∈ parseRtp d, h.ssrc = 0 ∨ h.ssrc = ssrc → d ∈ sent
  | .decodeAu o => ∀ x ∈ (Receiver.due s.rx).head?, ∀ p ∈ o.pictures,
      p.pts.toUInt64.toUInt32 = x.1.rtpTs
  | _ => True

def Carries (base ssrc : UInt32) (x : World cap) : Sender.Act ⊕ Act → Prop
  | .inl a => Sender.Stamps base x.1.1 a
  | .inr a => Delivers ssrc (Sender.air x.1.2) x.2 a

/-- The datagrams with this SSRC come from the sender; nothing else is promised of them, of the
muxer or of the decoder. -/
def Brings (ssrc : UInt32) (x : World cap) : Sender.Act ⊕ Act → Prop
  | .inl _ => True
  | .inr (.datagram d _ _ _) => ∀ h ∈ parseRtp d, h.ssrc = ssrc → d ∈ Sender.air x.1.2
  | .inr a => Receiver.NamesStream x.2 a

/-! ## The receiver's side -/

namespace Receiver

variable {ssrc : UInt32} {sent sent' : List (List UInt8)} {s t : State cap}

/-- The parsed datagrams with this SSRC came from the sender. -/
def Genuine (ssrc : UInt32) (sent : List (List UInt8)) (s : State cap) : Prop :=
  ∀ q ∈ s.past.parsed, q.header.ssrc = ssrc →
    ∃ d ∈ sent, parseRtp d = some q.header ∧ d.length = q.size

/-- The sender has sent more. -/
theorem Genuine.mono (h : Genuine ssrc sent s) (hsent : sent ⊆ sent') : Genuine ssrc sent' s := by
  intro q hq hours
  obtain ⟨d, hd, hparsed⟩ := h q hq hours
  exact ⟨d, hsent hd, hparsed⟩

theorem Genuine.next {a : Act} (h : Genuine ssrc sent s) (hm : Moves s a t)
    (ha : ∀ d stamp mono wall, a = .datagram d stamp mono wall →
      ∀ header ∈ parseRtp d, header.ssrc = ssrc → d ∈ sent) : Genuine ssrc sent t := by
  cases hm with
  | @receive d stamp mono wall header hrx hparse =>
    intro q hq hours
    obtain hq | hq := List.mem_append.mp hq
    · exact h q hq hours
    · rw [List.mem_singleton.mp hq] at hours ⊢
      exact ⟨d, ha d stamp mono wall rfl header hparse hours, hparse, rfl⟩
  | @store st rest hp => cases st <;> exact h
  | _ => exact h

structure Heard (ssrc : UInt32) (s : State cap) : Prop where
  known : s.ssrc = 0 ∨ s.ssrc = ssrc
  pending : ∀ v, .ssrc v ∈ s.pending → v = ssrc
  pictures : ∀ y ∈ s.past.delivered ++ awaited s.rx, y.rtpTs = y.unit.rtpTs

theorem Heard.of_eq (h : Heard ssrc s) (hssrc : t.ssrc = s.ssrc)
    (hpending : t.pending ⊆ s.pending)
    (hpictures : t.past.delivered ++ awaited t.rx ⊆ s.past.delivered ++ awaited s.rx) :
    Heard ssrc t :=
  ⟨hssrc ▸ h.known, fun v hv => h.pending v (hpending hv), fun y hy => h.pictures y (hpictures hy)⟩

theorem Heard.store (h : Heard ssrc s) {st : Store} {rest : List Store}
    (hp : s.pending = st :: rest) : Heard ssrc (apply { s with pending := rest } st) := by
  have hrest : ∀ v, Store.ssrc v ∈ rest → v = ssrc := fun v hv =>
    h.pending v (hp ▸ List.mem_cons_of_mem st hv)
  cases st with
  | ssrc v =>
    have hv := h.pending v (hp ▸ List.mem_cons_self)
    exact ⟨.inr hv, hrest, h.pictures⟩
  | _ => exact ⟨h.known, hrest, h.pictures⟩

theorem stores_ssrc {m : Fields} {v : UInt32} (h : Store.ssrc v ∈ stores m) :
    m.valueUInt32 "ssrc" 0 = some v := by
  rw [stores] at h
  split at h
  · cases h
  · next w hw =>
    split at h
    · simp only [List.mem_singleton, Store.ssrc.injEq] at h
      exact h ▸ hw
    · simp only [List.mem_cons, Store.ssrc.injEq, reduceCtorEq, List.not_mem_nil, or_false] at h
      exact h ▸ hw

theorem Heard.decodeAu (h : Heard ssrc s) {x : EndedUnit} {ended : List EndedUnit}
    (hrx : s.rx = .units (x :: ended)) {o : Decoding} (ho : Delivers ssrc sent s (.decodeAu o)) :
    Heard ssrc (decodeAu s x ended o) := by
  refine ⟨h.known, h.pending, fun y hy => ?_⟩
  obtain hy | hy := List.mem_append.mp hy
  · exact h.pictures y (List.mem_append_left _ hy)
  · have hpts := ho x (by rw [hrx]; rfl)
    rw [Receiver.decodeAu] at hy
    split at hy
    · rw [(deliver_cases ended _ []).2.1, List.mem_map] at hy
      obtain ⟨p, hp, rfl⟩ := hy
      exact hpts p hp
    · cases hy

theorem Heard.next {a : Act} (h : Heard ssrc s) (ha : Delivers ssrc sent s a)
    (hm : Moves s a t) : Heard ssrc t := by
  have hpictures := h.pictures
  cases hm with
  | announce hempty hpending htype hstream =>
    refine ⟨h.known, fun v hv => ?_, h.pictures⟩
    exact Option.some.inj ((stores_ssrc hv).symm.trans (ha htype).2)
  | store hp => exact h.store hp
  | @overtake v p rest hp =>
    refine h.of_eq rfl ?_ (List.Subset.refl _)
    rw [hp]
    exact List.cons_subset_cons _ (List.subset_cons_self _ _)
  | receive hrx =>
    rw [hrx] at hpictures
    exact ⟨h.known, h.pending, hpictures⟩
  | foreign hrx =>
    rw [hrx] at hpictures
    exact ⟨h.known, h.pending, hpictures⟩
  | count hrx =>
    rw [hrx] at hpictures
    exact ⟨h.known, h.pending, hpictures⟩
  | otherPt hrx =>
    rw [hrx] at hpictures
    exact ⟨h.known, h.pending, hpictures⟩
  | push hrx =>
    rw [hrx] at hpictures
    exact ⟨h.known, h.pending, hpictures⟩
  | decodeAu hrx => exact h.decodeAu hrx ha
  | @writeDecoded y ys ended hrx =>
    refine h.of_eq rfl (List.Subset.refl _) ?_
    rw [hrx]
    show (s.past.delivered ++ [y]) ++ ys ⊆ s.past.delivered ++ (y :: ys)
    rw [List.append_assoc]
    exact List.Subset.refl _
  | @writeFrame y ys ended hrx =>
    refine h.of_eq rfl (List.Subset.refl _) ?_
    rw [hrx]
    show s.past.delivered ++ awaited (.deliver ended ys) ⊆ s.past.delivered ++ ys
    rw [(deliver_cases ended ys []).2.1]
    exact List.Subset.refl _
  | _ => exact ⟨h.known, h.pending, h.pictures⟩

/-- Once a stream is announced, its SSRC is stored or about to be. -/
def Announced (ssrc : UInt32) (s : State cap) : Prop :=
  s.stream ≠ "" → s.ssrc = ssrc ∨ .ssrc ssrc ∈ s.pending

theorem ssrc_mem_stores {m : Fields} (h : m.valueUInt32 "ssrc" 0 = some ssrc) :
    Store.ssrc ssrc ∈ stores m := by
  rw [stores, h]
  cases m.valueInt "pt" 96 <;> exact List.mem_cons_self

theorem Announced.next {a : Act} (h : Announced ssrc s) (hheard : Heard ssrc s)
    (ha : Delivers ssrc sent s a) (hm : Moves s a t) : Announced ssrc t := by
  cases hm with
  | announce hempty hpending htype hstream => exact fun _ => .inr (ssrc_mem_stores (ha htype).2)
  | @store st rest hp =>
    intro hstream
    cases st with
    | ssrc v => exact .inl (hheard.pending v (hp ▸ List.mem_cons_self))
    | _ =>
      refine (h hstream).imp id fun hmem => ?_
      rw [hp] at hmem
      exact List.mem_of_ne_of_mem (by simp) hmem
  | @overtake v p rest hp =>
    intro hstream
    refine (h hstream).imp id fun hmem => ?_
    rw [hp] at hmem
    exact (List.mem_cons.mp hmem).elim (fun heq => heq ▸ List.mem_cons_self)
      fun htail => List.mem_cons_of_mem _ (List.mem_of_ne_of_mem (by simp) htail)
  | _ => exact h

/-- The rows of rx-frames have the SSRC that was announced. -/
theorem Announced.frames (h : Announced ssrc s) (hinv : Staged s) (hdelivered : Delivered s)
    {r : Trace.DecodedFrameRow} (hr : r ∈ s.frames.getD []) : r.ssrc = ssrc := by
  have hopen : s.frames.isSome = true := by
    cases hf : s.frames with
    | none =>
      rw [hf] at hr
      cases hr
    | some rows => rfl
  have hstream : s.stream ≠ "" := by
    intro hempty
    obtain ⟨-, -, -, -, hclosed⟩ := hinv.fresh hempty
    rw [hclosed] at hopen
    cases hopen
  have hssrc : s.ssrc = ssrc := by
    refine (h hstream).elim id fun hmem => ?_
    rw [(hinv.frames hopen).1] at hmem
    cases hmem
  obtain ⟨early, late, -, hrows, -⟩ := hdelivered.frames
  rw [hrows, frameRows, List.mem_mapIdx] at hr
  obtain ⟨i, hi, rfl⟩ := hr
  exact hssrc

/-- Every packet that reaches the depacketizer came from the sender. -/
theorem Heard.pushed (h : Heard ssrc s) (hzero : Genuine 0 sent s) (hown : Genuine ssrc sent s)
    (hlogged : Logged s) {q : Datagram} (hq : q ∈ s.past.pushed) :
    ∃ d ∈ sent, parseRtp d = some q.header := by
  have hgenuine : ∀ {p : Datagram}, p ∈ s.past.parsed →
      p.header.ssrc = 0 ∨ p.header.ssrc = s.ssrc → ∃ d ∈ sent, parseRtp d = some p.header := by
    intro p hp hours
    have hclaims : p.header.ssrc = 0 ∨ p.header.ssrc = ssrc := by
      obtain hzero | hsame := hours
      · exact .inl hzero
      · exact h.known.imp (fun hz => hsame.trans hz) fun hs => hsame.trans hs
    obtain ⟨d, hd, hparse, -⟩ := hclaims.elim (hzero p hp) (hown p hp)
    exact ⟨d, hd, hparse⟩
  obtain ⟨early, late, head, pre, hlogs⟩ := hlogged
  have hparsed := hlogs.parsed
  rw [hlogs.pushed, List.mem_append] at hq
  obtain hq | hq := hq
  · obtain ⟨hearly, hours⟩ := hlogs.head_early q (hlogs.pre_head q hq)
    exact hgenuine (hparsed ▸ List.mem_append_left late hearly) hours
  · obtain ⟨hlate, hmine⟩ := List.mem_filter.mp hq
    rw [mine, Bool.and_eq_true, beq_iff_eq] at hmine
    have hmem : q ∈ late := by
      cases hrx : s.rx with
      | logged p =>
        rw [hrx] at hlate
        exact List.dropLast_subset _ hlate
      | counted p =>
        rw [hrx] at hlate
        exact List.dropLast_subset _ hlate
      | units | picture | frame =>
        rw [hrx] at hlate
        exact hlate
    exact hgenuine (hparsed ▸ List.mem_append_right early hmem) (.inr hmine.1)

/-- A row of rx-frames is a picture that has passed the ledger. -/
theorem Delivered.frame (h : Delivered s) {r : Trace.DecodedFrameRow}
    (hr : r ∈ s.frames.getD []) :
    ∃ (i : Nat) (y : Delivery), y ∈ s.past.delivered ∧ r = y.frameRow i s.ssrc := by
  obtain ⟨early, late, hlate, hrows, -⟩ := h.frames
  rw [hrows, frameRows, List.mem_mapIdx] at hr
  obtain ⟨i, hi, rfl⟩ := hr
  refine ⟨i, late[i], ?_, rfl⟩
  have hshown : late[i] ∈ shown s.rx s.past.delivered := by
    rw [hlate]
    exact List.mem_append_right early (List.getElem_mem hi)
  cases hrx : s.rx with
  | frame =>
    rw [hrx] at hshown
    exact List.dropLast_subset _ hshown
  | units | logged | counted | picture =>
    rw [hrx] at hshown
    exact hshown

/-- The packets of a shown picture. -/
theorem Inv.frame {bufs : AuBuffers cap} (h : Inv bufs s) (hheard : Heard ssrc s)
    (hzero : Genuine 0 sent s) (hown : Genuine ssrc sent s) {r : Trace.DecodedFrameRow} (hr : r ∈ s.frames.getD []) :
    ∃ ps : List (RtpHeader × Int), RowOf ps r ∧
      ∀ p ∈ ps, p.1.ts = r.rtpTs ∧ ∃ d ∈ sent, parseRtp d = some p.1 := by
  obtain ⟨i, y, hy, rfl⟩ := h.delivered.frame hr
  obtain ⟨x, hx, hunit⟩ := h.delivered.units y (List.mem_append_left _ hy)
  have hrun := Depacketizer.run_fresh bufs (s.past.pushed.map Datagram.input)
  rw [← Receiver.assembled, ← h.assembled.units] at hrun
  obtain ⟨groups, current, hsplit, -, hgroups⟩ := hrun.groups
  obtain ⟨ps, hps, hof⟩ := exists_of_forall₂ hgroups (List.mem_append_left (due s.rx) hx)
  have haccepted : ∀ p ∈ ps, p ∈ accepted bufs s := by
    intro p hp
    rw [accepted, hsplit]
    exact List.mem_append_left _ (List.mem_flatten_of_mem hps hp)
  refine ⟨ps, rowOf_frameRow hof (fun p hp => arrival_toInt (haccepted p hp)) hunit i s.ssrc,
    fun p hp => ⟨?_, ?_⟩⟩
  · have hpts : y.rtpTs = y.unit.rtpTs := hheard.pictures y (List.mem_append_left _ hy)
    exact (hof.ts p hp).trans ((congrArg AuEvent.rtpTs hunit).trans hpts.symm)
  · obtain ⟨q, hq, rfl⟩ := List.mem_map.mp (Depacketizer.mem_of_mem_taken _ _ (haccepted p hp))
    exact hheard.pushed hzero hown h.logged hq

end Receiver

/-! ## Both sides -/

namespace World

variable {c : Camera} {base ssrc : UInt32} {bufs : AuBuffers cap} {x : World cap}

theorem namesStream_of_delivers {sent : List (List UInt8)} {s : State cap} {a : Act}
    (h : Delivers ssrc sent s a) : Receiver.NamesStream s a := by
  cases a with
  | message m =>
    show (m.valueStr "type" "" != some "stream-start" || m.valueStr "stream" "" != some "") = true
    rw [Bool.or_eq_true, bne_iff_ne, bne_iff_ne]
    exact or_iff_not_imp_left.mpr fun htype => (h (not_not.mp htype)).1
  | _ => rfl

theorem brings_of_carries {y : World cap} {a : Sender.Act ⊕ Act} (h : Carries base ssrc y a) :
    Brings 0 y a ∧ Brings ssrc y a := by
  cases a with
  | inl a => exact ⟨trivial, trivial⟩
  | inr a =>
    have hnames : Receiver.NamesStream y.2 a := namesStream_of_delivers h
    cases a with
    | datagram d stamp mono wall =>
      exact ⟨fun header hparse hours => h header hparse (.inl hours),
        fun header hparse hours => h header hparse (.inr hours)⟩
    | _ => exact ⟨hnames, hnames⟩

theorem namesStream_of_brings {y : World cap} {a : Act} (h : Brings ssrc y (.inr a)) :
    Receiver.NamesStream y.2 a := by
  cases a with
  | datagram => rfl
  | _ => exact h

theorem reachable_brings (h : (endToEnd c bufs).ReachableBy (Carries base ssrc) x) :
    (endToEnd c bufs).ReachableBy (Brings 0) x ∧ (endToEnd c bufs).ReachableBy (Brings ssrc) x := by
  obtain ⟨past, hrun⟩ := h
  exact ⟨⟨past, hrun.mono fun _ _ ha => (brings_of_carries ha).1⟩,
    ⟨past, hrun.mono fun _ _ ha => (brings_of_carries ha).2⟩⟩

/-- What is on the air has its row in tx-rtp, and what was parsed with this SSRC was on the air. -/
theorem genuine_of_reachable (h : (endToEnd c bufs).ReachableBy (Brings ssrc) x) :
    (∀ d ∈ Sender.air x.1.2, Sender.Carried x.1.1.wire.rtp d) ∧
      Receiver.Genuine ssrc (Sender.air x.1.2) x.2 := by
  refine h.invariant (I := fun x => (∀ d ∈ Sender.air x.1.2, Sender.Carried x.1.1.wire.rtp d) ∧
    Receiver.Genuine ssrc (Sender.air x.1.2) x.2) ?_ fun y a z hy hbrings hstep => ?_
  · exact ⟨List.forall_mem_nil _, List.forall_mem_nil _⟩
  · obtain ⟨hcarried, hgenuine⟩ := hy
    cases a with
    | inl a =>
      obtain ⟨hs, heq⟩ := Machine.prod_inl.mp hstep
      obtain ⟨hmove, hlog⟩ := Machine.logged_step.mp hs
      rw [heq, hlog]
      refine ⟨(Sender.step_moves hmove).carried hcarried, ?_⟩
      rw [Sender.air_concat]
      exact hgenuine.mono (List.subset_append_left _ _)
    | inr a =>
      obtain ⟨hs, heq⟩ := Machine.prod_inr.mp hstep
      rw [heq]
      refine ⟨hcarried, hgenuine.next (Receiver.step_moves hs) ?_⟩
      intro d stamp mono wall ha
      rw [ha] at hbrings
      exact hbrings

theorem sender_of_reachable (h : (endToEnd c bufs).ReachableBy (Carries base ssrc) x) :
    Sender.Counted x.1.1 ∧ Sender.Sourced c base x.1.1 := by
  have hleft : (Sender.machine c).logged.ReachableBy (fun y a => Sender.Stamps base y.1 a) x.1 :=
    h.left fun _ _ hc => hc
  have hinv : Sender.Counted x.1.1 ∧ Sender.Timed c x.1.1 ∧ Sender.Sourced c base x.1.1 := by
    refine hleft.invariant (I := fun y => Sender.Counted y.1 ∧ Sender.Timed c y.1 ∧
      Sender.Sourced c base y.1) ?_ fun y a z hy hstamps hstep => ?_
    · exact ⟨Sender.counted_init, Sender.timed_init, Sender.sourced_init⟩
    · obtain ⟨hcount, htimed, hsourced⟩ := hy
      obtain ⟨hs, -⟩ := Machine.logged_step.mp hstep
      have hmoves := Sender.step_moves hs
      exact ⟨hmoves.counted htimed hcount, hmoves.timed hcount htimed,
        hmoves.sourced htimed hstamps hsourced⟩
  exact ⟨hinv.1, hinv.2.2⟩

theorem heard_of_reachable (h : (endToEnd c bufs).ReachableBy (Carries base ssrc) x) :
    Receiver.Heard ssrc x.2 ∧ Receiver.Announced ssrc x.2 := by
  refine h.invariant (I := fun x => Receiver.Heard ssrc x.2 ∧ Receiver.Announced ssrc x.2) ?_
    fun y a z hy hcarries hstep => ?_
  · exact ⟨⟨.inl rfl, fun _ hv => (nomatch hv), fun _ hy => (nomatch hy)⟩,
      fun hstream => absurd rfl hstream⟩
  · obtain ⟨hheard, hannounced⟩ := hy
    cases a with
    | inl a =>
      obtain ⟨-, heq⟩ := Machine.prod_inl.mp hstep
      rw [heq]
      exact ⟨hheard, hannounced⟩
    | inr a =>
      obtain ⟨hs, -⟩ := Machine.prod_inr.mp hstep
      have hmoves := Receiver.step_moves hs
      exact ⟨hheard.next hcarries hmoves, hannounced.next hheard hcarries hmoves⟩

/-- The slot that a row of rx-frames shows: its only row of tx-frames, the timestamp of both,
and the packets that brought it. -/
structure Shows (c : Camera) (base : UInt32) (s : Sender.State) (r : Trace.DecodedFrameRow)
    (f : Sender.CaptureFrameRow) : Prop where
  frame : f ∈ s.frames
  only : ∀ g ∈ s.frames, g.gridSlot = f.gridSlot → g = f
  ts : r.rtpTs = f.rtpTs
  wire : f.rtpTs = c.wireTs base f.gridSlot
  packets : ∃ ps, Receiver.RowOf ps r ∧ ∀ p ∈ ps, ∃ q ∈ s.wire.rtp, q.header = p.1 ∧
    (|c.pts q.slot - c.pts f.gridSlot| < 2 ^ 31 → q.slot = f.gridSlot)

/-- A row of rx-rtp is a row of tx-rtp, but for the clocks. -/
def Copies (s : Sender.State) (r : Trace.RtpPacketRow) : Prop :=
  ∃ q ∈ s.wire.rtp, r = fillRtpRow q.pktBytes q.header 1 r.logMonoNs r.logWallNs

theorem copies (h : (endToEnd c bufs).ReachableBy (Brings ssrc) x)
    {r : Trace.RtpPacketRow} (hr : r ∈ x.2.rtp.getD []) (hours : r.ssrc = ssrc) :
    Copies x.1.1 r := by
  obtain ⟨hcarried, hgenuine⟩ := genuine_of_reachable h
  have hinv := Receiver.inv_of_reachable (h.right fun _ _ => namesStream_of_brings)
  obtain ⟨early, late, head, pre, hlogs⟩ := hinv.logged
  rw [hlogs.rows, List.mem_map] at hr
  obtain ⟨p, hp, rfl⟩ := hr
  have hparsed : p ∈ x.2.past.parsed := hlogs.parsed ▸ List.mem_append_right early hp
  obtain ⟨d, hd, hparse, hsize⟩ := hgenuine p hparsed hours
  obtain ⟨q, hq, hheader, hbytes⟩ := hcarried d hd
  refine ⟨q, hq, ?_⟩
  rw [← Option.some.inj (hparse.symm.trans hheader), hbytes, hsize]
  rfl

theorem shows (hfps : c.fps ≤ 83333) (h : (endToEnd c bufs).ReachableBy (Carries base ssrc) x)
    {r : Trace.DecodedFrameRow} (hr : r ∈ x.2.frames.getD []) :
    ∃ f, Shows c base x.1.1 r f := by
  obtain ⟨hcount, hsourced⟩ := sender_of_reachable h
  obtain ⟨hheard, -⟩ := heard_of_reachable h
  obtain ⟨hzero, hown⟩ := reachable_brings h
  obtain ⟨hcarried, hgenuine⟩ := genuine_of_reachable hown
  have hinv := Receiver.inv_of_reachable (h.right fun _ _ => namesStream_of_delivers)
  obtain ⟨ps, hrow, hps⟩ := hinv.frame hheard (genuine_of_reachable hzero).2 hgenuine hr
  have hsent : ∀ p ∈ ps, ∃ q ∈ x.1.1.wire.rtp, q.header = p.1 ∧ q.header.ts = r.rtpTs := by
    intro p hp
    obtain ⟨hts, d, hd, hparse⟩ := hps p hp
    obtain ⟨q, hq, hq1, -⟩ := hcarried d hd
    have hheader : q.header = p.1 := Option.some.inj (hq1.symm.trans hparse)
    exact ⟨q, hq, hheader, hheader ▸ hts⟩
  have hnonneg : ∀ q ∈ x.1.1.wire.rtp, 0 ≤ q.slot := by
    intro q hq
    obtain ⟨-, f, hf, hslot, -⟩ := hsourced.rows q hq
    obtain ⟨i, -, hi⟩ := hcount.slots.exists_lt hf
    have hfirst := hcount.first
    omega
  obtain ⟨p, hp, -⟩ := Option.map_eq_some_iff.mp hrow.first
  obtain ⟨q, hq, -, hts⟩ := hsent p (List.mem_of_head? hp)
  obtain ⟨hwire, f, hf, hslot, hfts⟩ := hsourced.rows q hq
  refine ⟨f, hf, fun g hg hsame => hcount.eq_of_gridSlot hg hf hsame, (hfts.trans hts).symm, ?_, ps,
    hrow, fun p' hp' => ?_⟩
  · rw [hfts, hslot, hwire]
  · obtain ⟨q', hq', hheader, hts'⟩ := hsent p' hp'
    refine ⟨q', hq', hheader, fun hnear => ?_⟩
    by_contra hne
    rw [hslot] at hne hnear
    have hsame : c.wireTs base q'.slot = c.wireTs base q.slot := by
      rw [← hwire, ← (hsourced.rows q' hq').1, hts, hts']
    exact Sender.wireTs_ne hfps (hnonneg q hq) (hnonneg q' hq') hne hnear hsame

theorem frame_ssrc (h : (endToEnd c bufs).ReachableBy (Carries base ssrc) x)
    {r : Trace.DecodedFrameRow} (hr : r ∈ x.2.frames.getD []) : r.ssrc = ssrc := by
  obtain ⟨-, hannounced⟩ := heard_of_reachable h
  have hinv := Receiver.inv_of_reachable (h.right fun _ _ => namesStream_of_delivers)
  exact hannounced.frames hinv.staged hinv.delivered hr

instance (sent : List (List UInt8)) (s : State cap) (a : Act) :
    Decidable (Delivers ssrc sent s a) :=
  match a with
  | .message _ => inferInstanceAs (Decidable (_ → _ ∧ _))
  | .datagram _ _ _ _ => inferInstanceAs (Decidable (∀ _ ∈ _, _ → _))
  | .decodeAu _ => inferInstanceAs (Decidable (∀ _ ∈ _, ∀ _ ∈ _, _))
  | .store | .overtake | .rtcpIn _ _ _ | .testSsrc | .testPt | .writeDecoded | .writeFrame =>
    .isTrue trivial

instance (a : Sender.Act ⊕ Act) : Decidable (Carries base ssrc x a) :=
  match a with
  | .inl _ => inferInstanceAs (Decidable (Sender.Stamps _ _ _))
  | .inr _ => inferInstanceAs (Decidable (Delivers _ _ _ _))

def slotZeroPacket : List UInt8 := [0x80, 0xe0, 0, 0, 0, 0, 0x03, 0xe8, 0, 0, 0, 5, 0x65, 0xaa]

/-- Slot 0 captured, sent twice by the network, decoded and shown. -/
def shownRun : List (Sender.Act ⊕ Act) :=
  ([Sender.Act.grid ⟨0, 0⟩, .grid ⟨0, 0⟩] ++ List.replicate 7 (Sender.Act.grid ⟨100000000, 0⟩) ++
    [Sender.Act.mux ⟨[⟨slotZeroPacket, ⟨0, 0⟩, true⟩], 0⟩]).map Sum.inl ++
  ([.message Receiver.announcement, .store, .store, .store, .store, .store, .store,
    .datagram slotZeroPacket none 7 8, .testSsrc, .testPt,
    .decodeAu ⟨1, true, false, [⟨1000, 64, 48, 10, 11⟩]⟩, .writeDecoded, .writeFrame,
    .datagram slotZeroPacket none 9 10] : List Act).map Sum.inr

end World

end Ffmpeg
end P5G
