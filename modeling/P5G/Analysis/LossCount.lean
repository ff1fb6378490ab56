import Mathlib.Data.Finset.SDiff
import P5G.Analysis.VerifyRun
import P5G.Ffmpeg.EndToEnd

/-!
# The packets that verify_run counts as lost

The RTP statistics of a stream, from the packet traces of its sender and its receiver.
-/

namespace P5G
namespace VerifyRun

open Trace TraceIo
open Ffmpeg (World endToEnd Brings Carries fillRtpRow)

/-- `sent` and `got`: the packets of each SSRC. -/
abbrev PacketSets := Dict Value (Finset (Value × Value))

/-- `sets[ssrc]`, or `sets.get(ssrc, set())` -/
def PacketSets.at (sets : PacketSets) (ssrc : Value) : Finset (Value × Value) :=
  (sets.get? ssrc).getD ∅

/-- `if p["dir"] == dir: sets[p["ssrc"]].add((p["seq"], p["rtp_ts"]))` -/
def addPacket (dir : String) (sets : PacketSets) (p : Dict (List Char) Value) :
    Option PacketSets := do
  if (← p.get? "dir".toList) = .str dir.toList then
    let ssrc ← p.get? "ssrc".toList
    let seq ← p.get? "seq".toList
    let rtpTs ← p.get? "rtp_ts".toList
    some (sets.set ssrc (insert (seq, rtpTs) (PacketSets.at sets ssrc)))
  else some sets

def packetSets (dir : String) (rows : List (Dict (List Char) Value)) : Option PacketSets :=
  rows.foldlM (addPacket dir) Dict.empty

structure RtpStats where
  sent : Nat
  received : Nat
  lost : Nat
  deriving DecidableEq

/-- `st["rtp"]`; a row without one of the columns is a `KeyError`. -/
def rtpStats (tx rx : List (Dict (List Char) Value)) : Option (List (Value × RtpStats)) := do
  let sent ← packetSets "out" tx
  let got ← packetSets "in" rx
  if tx.isEmpty || rx.isEmpty then some []
  else
    some (sent.entries.map fun e =>
      (e.1, ⟨e.2.card, (PacketSets.at got e.1).card, (e.2 \ PacketSets.at got e.1).card⟩))

def packetOf (r : RtpPacketRow) : Value × Value := (.int r.seq.toNat, .int r.rtpTs.toNat)

def ssrcOf (r : RtpPacketRow) : Value := .int r.ssrc.toNat

def items (r : RtpPacketRow) : List (List Char × Value) :=
  (rtpPacketFields r).map fun f => (f.1.toList, f.2)

def addRow (dir : String) (sets : PacketSets) (r : RtpPacketRow) : PacketSets :=
  if dirName r.dir = dir.toList then
    sets.set (ssrcOf r) (insert (packetOf r) (PacketSets.at sets (ssrcOf r)))
  else sets

theorem get?_row {p : Dict (List Char) Value} {r : RtpPacketRow}
    (h : p.entries = items r) :
    p.get? "dir".toList = some (.str (dirName r.dir)) ∧
      p.get? "ssrc".toList = some (ssrcOf r) ∧
      p.get? "seq".toList = some (.int r.seq.toNat) ∧
      p.get? "rtp_ts".toList = some (.int r.rtpTs.toNat) := by
  have hin : ∀ {f : String × Value}, f ∈ rtpPacketFields r → p.get? f.1.toList = some f.2 := by
    intro f hf
    rw [Dict.get?_eq_some_iff, h]
    exact List.mem_map.mpr ⟨f, hf, rfl⟩
  refine ⟨hin (f := ("dir", _)) ?_, hin (f := ("ssrc", _)) ?_, hin (f := ("seq", _)) ?_,
    hin (f := ("rtp_ts", _)) ?_⟩ <;> simp [rtpPacketFields]

theorem addPacket_row (dir : String) (sets : PacketSets) {p : Dict (List Char) Value}
    {r : RtpPacketRow} (h : p.entries = items r) :
    addPacket dir sets p = some (addRow dir sets r) := by
  obtain ⟨hdir, hssrc, hseq, hts⟩ := get?_row h
  rw [addPacket, addRow, hdir, hssrc, hseq, hts]
  by_cases hd : dirName r.dir = dir.toList
  · simp [hd, packetOf]
  · simp [hd]

theorem packetSets_rows (dir : String) {rows : List RtpPacketRow}
    {read : List (Dict (List Char) Value)}
    (h : read.map Dict.entries = rows.map items) :
    packetSets dir read = some (rows.foldl (addRow dir) Dict.empty) := by
  rw [packetSets]
  generalize (Dict.empty : PacketSets) = sets
  induction rows generalizing read sets with
  | nil =>
    rw [List.map_nil, List.map_eq_nil_iff] at h
    rw [h]
    rfl
  | cons r rows ih =>
    cases read with
    | nil => cases h
    | cons p read =>
      rw [List.map_cons, List.map_cons, List.cons.injEq] at h
      rw [List.foldlM_cons, addPacket_row dir sets h.1]
      exact ih h.2 _

theorem at_set (sets : PacketSets) (ssrc v : Value) (packets : Finset (Value × Value)) :
    PacketSets.at (sets.set ssrc packets) v =
      if v = ssrc then packets else PacketSets.at sets v := by
  by_cases hv : v = ssrc
  · rw [if_pos hv, hv, PacketSets.at, Dict.get?_set_self]
    rfl
  · rw [if_neg hv, PacketSets.at, Dict.get?_set_ne hv, PacketSets.at]

theorem mem_foldl_addRow (dir : String) (v : Value) (x : Value × Value) (rows : List RtpPacketRow)
    (sets : PacketSets) : x ∈ PacketSets.at (rows.foldl (addRow dir) sets) v ↔
      x ∈ PacketSets.at sets v ∨
        ∃ r ∈ rows, (dirName r.dir = dir.toList ∧ ssrcOf r = v) ∧ packetOf r = x := by
  induction rows generalizing sets with
  | nil => simp
  | cons r rows ih =>
    rw [List.foldl_cons, ih, addRow]
    by_cases hd : dirName r.dir = dir.toList
    · rw [if_pos hd, at_set]
      by_cases hv : v = ssrcOf r
      · rw [if_pos hv, Finset.mem_insert, hv]
        simp only [List.mem_cons, exists_eq_or_imp, hd, true_and]
        constructor
        · rintro ((rfl | hin) | hlater)
          · exact .inr (.inl rfl)
          · exact .inl hin
          · exact .inr (.inr hlater)
        · rintro (hin | rfl | hlater)
          · exact .inl (.inr hin)
          · exact .inl (.inl rfl)
          · exact .inr hlater
      · rw [if_neg hv]
        simp [Ne.symm hv]
    · rw [if_neg hd]
      simp [hd]

def packetsOf (dir : String) (rows : List RtpPacketRow) (v : Value) : Finset (Value × Value) :=
  ((rows.filter fun r => dirName r.dir = dir.toList ∧ ssrcOf r = v).map packetOf).toFinset

theorem at_rows (dir : String) (v : Value) (rows : List RtpPacketRow) :
    PacketSets.at (rows.foldl (addRow dir) Dict.empty) v = packetsOf dir rows v := by
  ext x
  rw [mem_foldl_addRow, packetsOf, List.mem_toFinset, List.mem_map]
  constructor
  · rintro (hempty | ⟨r, hr, hmatch, rfl⟩)
    · exact absurd hempty (Finset.notMem_empty x)
    · exact ⟨r, List.mem_filter.mpr ⟨hr, decide_eq_true hmatch⟩, rfl⟩
  · rintro ⟨r, hr, rfl⟩
    obtain ⟨hin, hmatch⟩ := List.mem_filter.mp hr
    exact .inr ⟨r, hin, of_decide_eq_true hmatch, rfl⟩

/-- The statistics of two traces, for each SSRC that was sent. -/
theorem rtpStats_rows {tx rx : List (Dict (List Char) Value)} {txRows rxRows : List RtpPacketRow}
    (htx : tx.map Dict.entries = txRows.map items)
    (hrx : rx.map Dict.entries = rxRows.map items) :
    ∃ stats, rtpStats tx rx = some stats ∧
      (∀ v, (packetsOf "out" txRows v).Nonempty → rx ≠ [] → ∃ s, (v, s) ∈ stats) ∧
      ∀ v s, (v, s) ∈ stats →
        s.sent = (packetsOf "out" txRows v).card ∧
          s.received = (packetsOf "in" rxRows v).card ∧
          s.lost = (packetsOf "out" txRows v \ packetsOf "in" rxRows v).card := by
  rw [rtpStats, packetSets_rows "out" htx, packetSets_rows "in" hrx]
  show ∃ stats, (if (tx.isEmpty || rx.isEmpty) = true then some [] else some _) = some stats ∧ _
  by_cases hempty : (tx.isEmpty || rx.isEmpty) = true
  · rw [if_pos hempty]
    refine ⟨[], rfl, fun v hsent hreceived => ?_, fun v s hs => absurd hs List.not_mem_nil⟩
    have hrows : txRows = [] := by
      rw [Bool.or_eq_true, List.isEmpty_iff, List.isEmpty_iff] at hempty
      rw [hempty.resolve_right hreceived, List.map_nil] at htx
      exact List.map_eq_nil_iff.mp htx.symm
    rw [hrows] at hsent
    exact absurd hsent Finset.not_nonempty_empty
  · rw [if_neg hempty]
    refine ⟨_, rfl, fun v hsent _ => ?_, fun v s hs => ?_⟩
    · rw [← at_rows, PacketSets.at] at hsent
      cases hget : (txRows.foldl (addRow "out") Dict.empty).get? v with
      | none =>
        rw [hget] at hsent
        exact absurd hsent Finset.not_nonempty_empty
      | some packets =>
        exact ⟨_, List.mem_map.mpr ⟨(v, packets), Dict.get?_eq_some_iff.mp hget, rfl⟩⟩
    obtain ⟨e, he, heq⟩ := List.mem_map.mp hs
    have hsent : e.2 = packetsOf "out" txRows e.1 := by
      rw [← at_rows, PacketSets.at, Dict.get?_eq_some_iff.mpr he]
      rfl
    rw [Prod.mk.injEq] at heq
    obtain ⟨rfl, rfl⟩ := heq
    rw [at_rows, hsent]
    exact ⟨rfl, rfl, rfl⟩

def packets (dir : String) (rows : List RtpPacketRow) (ssrc : UInt32) : Finset (UInt16 × UInt32) :=
  ((rows.filter fun r => dirName r.dir = dir.toList ∧ r.ssrc = ssrc).map
    fun r => (r.seq, r.rtpTs)).toFinset

def asRead (p : UInt16 × UInt32) : Value × Value := (.int p.1.toNat, .int p.2.toNat)

theorem asRead_injective : Function.Injective asRead := by
  intro p q h
  rw [asRead, asRead, Prod.mk.injEq, Value.int.injEq, Value.int.injEq] at h
  exact Prod.ext (UInt16.toNat_inj.mp (Int.ofNat_inj.mp h.1))
    (UInt32.toNat_inj.mp (Int.ofNat_inj.mp h.2))

theorem packetsOf_eq (dir : String) (rows : List RtpPacketRow) (ssrc : UInt32) :
    packetsOf dir rows (.int ssrc.toNat) = (packets dir rows ssrc).image asRead := by
  have hssrc (r : RtpPacketRow) : ssrcOf r = .int ssrc.toNat ↔ r.ssrc = ssrc := by
    rw [ssrcOf, Value.int.injEq, Int.ofNat_inj, UInt32.toNat_inj]
  ext x
  simp only [packetsOf, packets, hssrc, Finset.mem_image, List.mem_toFinset, List.mem_map,
    exists_exists_and_eq_and]
  rfl

/-- The text of a packet trace that its ring closed. -/
def closedTrace (rows : List RtpPacketRow) (bootId : BootId) (ov lt unpub : Nat) : List Char :=
  Kind.rtpPacket.fileText (.header Kind.rtpPacket.header :: rows.map .row ++
    Kind.rtpPacket.footer bootId rows.length ov lt unpub)

theorem readTrace_closedTrace (rows : List RtpPacketRow) (bootId : BootId) (ov lt unpub : Nat) :
    ∃ read footer, readTrace (some (closedTrace rows bootId ov lt unpub)) = .ok (read, footer) ∧
      read.map Dict.entries = rows.map items := by
  obtain ⟨read, footer, hread, hentries, -, -⟩ :=
    read_back Kind.rtpPacket rows bootId ov lt unpub
  exact ⟨read, footer, hread, hentries⟩

section

variable {cap : Nat} {c : Sender.Camera} {ssrc : UInt32} {bufs : AuBuffers cap}
  {x : World cap}

def txRow (q : Sender.RtpPacketRow) : RtpPacketRow :=
  fillRtpRow q.pktBytes q.header 0 (Int64.ofNat q.now.mono) (Int64.ofInt q.now.wall)

theorem received_subset (h : (endToEnd c bufs).ReachableBy (Brings ssrc) x)
    {rxRows : List RtpPacketRow} (hkept : rxRows ⊆ x.2.rtp.getD []) :
    packets "in" rxRows ssrc ⊆ packets "out" (x.1.1.wire.rtp.map txRow) ssrc := by
  intro p hp
  obtain ⟨r, hr, rfl⟩ := List.mem_map.mp (List.mem_toFinset.mp hp)
  obtain ⟨hin, hmatch⟩ := List.mem_filter.mp hr
  have hssrc : r.ssrc = ssrc := (of_decide_eq_true hmatch).2
  obtain ⟨q, hq, hcopy⟩ := World.copies h (hkept hin) hssrc
  rw [packets, List.mem_toFinset, List.mem_map]
  refine ⟨txRow q, List.mem_filter.mpr ⟨List.mem_map_of_mem hq, decide_eq_true ⟨rfl, ?_⟩⟩, ?_⟩
  · rw [← hssrc, hcopy]
    rfl
  · rw [hcopy]
    rfl

/-- What verify_run counts of a run of sender and receiver, whatever rows of rx-rtp its ring
kept: every packet of the stream is received or lost. -/
theorem lost_of_run (h : (endToEnd c bufs).ReachableBy (Brings ssrc) x)
    {rxRows : List RtpPacketRow} (hkept : rxRows ⊆ x.2.rtp.getD []) (txBoot rxBoot : BootId)
    (ov lt unpub : Nat) :
    let sent := packets "out" (x.1.1.wire.rtp.map txRow) ssrc
    let received := packets "in" rxRows ssrc
    ∃ tx txFooter rx rxFooter stats,
      readTrace (some (closedTrace (x.1.1.wire.rtp.map txRow) txBoot 0 0 0)) = .ok (tx, txFooter) ∧
      readTrace (some (closedTrace rxRows rxBoot ov lt unpub)) = .ok (rx, rxFooter) ∧
      rtpStats tx rx = some stats ∧
      (sent.Nonempty → rxRows ≠ [] → ∃ s, (.int ssrc.toNat, s) ∈ stats) ∧
      ∀ s, (.int ssrc.toNat, s) ∈ stats → s.sent = sent.card ∧ s.received = received.card ∧
        s.lost = (sent \ received).card ∧ s.sent = s.received + s.lost := by
  intro sent received
  obtain ⟨tx, txFooter, htx, htxRows⟩ :=
    readTrace_closedTrace (x.1.1.wire.rtp.map txRow) txBoot 0 0 0
  obtain ⟨rx, rxFooter, hrx, hrxRows⟩ := readTrace_closedTrace rxRows rxBoot ov lt unpub
  obtain ⟨stats, hstats, hentry, hcounts⟩ := rtpStats_rows htxRows hrxRows
  refine ⟨tx, txFooter, rx, rxFooter, stats, htx, hrx, hstats, fun hsent hrows => ?_,
    fun s hs => ?_⟩
  · refine hentry _ ?_ fun hnil => ?_
    · rw [packetsOf_eq]
      exact hsent.image asRead
    · rw [hnil, List.map_nil] at hrxRows
      exact hrows (List.map_eq_nil_iff.mp hrxRows.symm)
  · obtain ⟨hsent, hreceived, hlost⟩ := hcounts _ s hs
    rw [packetsOf_eq, Finset.card_image_of_injective _ asRead_injective] at hsent hreceived
    rw [packetsOf_eq, packetsOf_eq, ← Finset.image_sdiff _ _ asRead_injective,
      Finset.card_image_of_injective _ asRead_injective] at hlost
    refine ⟨hsent, hreceived, hlost, ?_⟩
    rw [hsent, hreceived, hlost, Nat.add_comm]
    exact (Finset.card_sdiff_add_card_eq_card (received_subset h hkept)).symm

end

/-- The run in which slot 0 is sent, brought twice and shown: one packet, received. -/
theorem lost_of_run_shownRun :
    ∃ x, (endToEnd Sender.twoFrames (AuBuffers.zeroed 64)).ReachableBy (Carries 1000 5) x ∧
      ∃ tx txFooter rx rxFooter stats,
        readTrace (some (closedTrace (x.1.1.wire.rtp.map txRow) bootId 0 0 0)) =
          .ok (tx, txFooter) ∧
        readTrace (some (closedTrace (x.2.rtp.getD []) bootId 0 0 0)) = .ok (rx, rxFooter) ∧
        rtpStats tx rx = some stats ∧ (.int 5, ⟨1, 1, 0⟩) ∈ stats := by
  obtain ⟨x, hreach, hrows, hsent, hreceived⟩ :=
    (endToEnd Sender.twoFrames (AuBuffers.zeroed 64)).exists_of_execBy (G := Carries 1000 5)
      World.shownRun (P := fun x => (x.2.rtp.getD []).length = 2 ∧
        packets "out" (x.1.1.wire.rtp.map txRow) 5 = {(0, 1000)} ∧
        packets "in" (x.2.rtp.getD []) 5 = {(0, 1000)}) (by decide +kernel)
  obtain ⟨tx, txFooter, rx, rxFooter, stats, htx, hrx, hstats, hentry, hcounts⟩ :=
    lost_of_run (World.reachable_brings hreach).2 (List.Subset.refl _) bootId bootId 0 0 0
  rw [hsent, hreceived] at hcounts
  rw [hsent] at hentry
  obtain ⟨⟨sent, received, lost⟩, hs⟩ := hentry (Finset.singleton_nonempty _)
    fun hnil => by rw [hnil] at hrows; cases hrows
  obtain ⟨rfl, rfl, rfl, -⟩ := hcounts _ hs
  exact ⟨x, hreach, tx, txFooter, rx, rxFooter, stats, htx, hrx, hstats, hs⟩

end VerifyRun
end P5G
