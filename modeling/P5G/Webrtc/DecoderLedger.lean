import P5G.Ring
import P5G.Trace.Formats

/-!
# The decoded-frame ledger

`LedgerVideoDecoder` of webrtc_tracing.h: every call of `Decode` is remembered in one
of 32 cells, and a frame that comes back from the decoder is joined to a remembered
call by its timestamp.  A decoder may hold frames, give them back in another order, or
never, so the calls come in any order.
-/

namespace P5G
namespace Webrtc

open Trace (DecodedFrameLedgerRow)

structure EncodedImage where
  rtpTs : UInt32
  size : UInt64
  frameType : Int32

structure VideoFrame where
  timestamp : UInt32
  width : Int32
  height : Int32

structure Pending where
  rtpTs : UInt32
  startMonoNs : Int64
  renderTimeMs : Int64
  bytes : Int32
  frameType : Int32

def Pending.zero : Pending := ⟨0, 0, 0, 0, 0⟩

def kPending : Nat := 32

instance kPending_neZero : NeZero kPending := ⟨by decide⟩

/-- The three overloads of `Decoded`, by what the decoder reports with the frame. -/
inductive Report where
  | plain
  | time (decodeTimeMs : Int64)
  | full (decodeTimeMs : Option Int32) (qp : Option UInt8)

def Report.columns : Report → Int32 × Int32
  | .plain => (-1, -1)
  | .time ms => (ms.toInt32, -1)
  | .full ms qp => (ms.getD (-1), (qp.map fun q => q.toUInt32.toInt32).getD (-1))

/-- The calls on the decode queue, with the readings of the clocks they take. -/
inductive DecoderCall where
  | decode (img : EncodedImage) (renderTimeMs nowMonoNs : Int64)
  | decoded (f : VideoFrame) (report : Report) (nowMonoNs nowWallNs : Int64)

/-- The wrapper's state.  `none` is a null `trace_`. -/
structure LedgerVideoDecoder where
  trace : Option (List DecodedFrameLedgerRow)
  pending : Fin kPending → Pending
  next : UInt64

namespace LedgerVideoDecoder

def init (trace : Option (List DecodedFrameLedgerRow)) : LedgerVideoDecoder :=
  ⟨trace, fun _ => Pending.zero, 0⟩

def remembered (img : EncodedImage) (renderTimeMs nowMonoNs : Int64) : Pending :=
  ⟨img.rtpTs, nowMonoNs, renderTimeMs, img.size.toUInt32.toInt32, img.frameType⟩

def remember (d : LedgerVideoDecoder) (p : Pending) : LedgerVideoDecoder :=
  { d with
    pending := Function.update d.pending (Fin.ofNat kPending (d.next % 32).toNat) p
    next := d.next + 1 }

/-- The test of `Record`'s loop.  A cell that has not been written has start 0. -/
def Pending.matches (ts : UInt32) (p : Pending) : Bool := p.rtpTs == ts && p.startMonoNs != 0

/-- The row of a frame whose call is `p`, or whose call is not found. -/
def row (p : Option Pending) (f : VideoFrame) (report : Report) (nowMonoNs nowWallNs : Int64) :
    DecodedFrameLedgerRow where
  rtpTs := f.timestamp
  decodeStartMonoNs := (p.map Pending.startMonoNs).getD (-1)
  decodeDoneMonoNs := nowMonoNs
  decodeDoneWallNs := nowWallNs
  inputBytes := (p.map Pending.bytes).getD (-1)
  frameType := (p.map Pending.frameType).getD (-1)
  renderTimeMs := (p.map Pending.renderTimeMs).getD (-1)
  decoderDecodeTimeMs := report.columns.1
  qp := report.columns.2
  width := f.width
  height := f.height

def record (d : LedgerVideoDecoder) (f : VideoFrame) (report : Report)
    (nowMonoNs nowWallNs : Int64) : LedgerVideoDecoder :=
  let found := (List.ofFn d.pending).find? (Pending.matches f.timestamp)
  { d with trace := d.trace.map fun rows => rows ++ [row found f report nowMonoNs nowWallNs] }

def call (d : LedgerVideoDecoder) : DecoderCall → LedgerVideoDecoder
  | .decode img renderTimeMs now => d.remember (remembered img renderTimeMs now)
  | .decoded f report nowMono nowWall => d.record f report nowMono nowWall

def run (d : LedgerVideoDecoder) (calls : List DecoderCall) : LedgerVideoDecoder :=
  calls.foldl call d

end LedgerVideoDecoder

open LedgerVideoDecoder

def started : List DecoderCall → List Pending
  | [] => []
  | .decode img renderTimeMs now :: calls => remembered img renderTimeMs now :: started calls
  | .decoded _ _ _ _ :: calls => started calls

def frames (calls : List DecoderCall) : Nat :=
  calls.countP fun c => match c with
    | .decode .. => false
    | .decoded .. => true

theorem started_append (as bs : List DecoderCall) : started (as ++ bs) = started as ++ started bs := by
  induction as with
  | nil => rfl
  | cons a as ih => cases a <;> simp [started, ih]

structure Remembers (d : LedgerVideoDecoder) (calls : List DecoderCall) : Prop where
  holds : Ring.Holds d.pending Pending.zero (started calls)
  next : d.next = UInt64.ofNat (started calls).length
  rows : ∀ rows ∈ d.trace, rows.length = frames calls

/-- The counter wraps at a multiple of the number of cells. -/
theorem slot_eq (k : Nat) :
    Fin.ofNat kPending (UInt64.ofNat k % 32).toNat = Ring.cell kPending k := by
  apply Fin.ext
  show (UInt64.ofNat k % 32).toNat % 32 = k % 32
  rw [UInt64.toNat_mod, UInt64.toNat_ofNat']
  show k % 2 ^ 64 % 32 % 32 = k % 32
  omega

theorem Remembers.call {d : LedgerVideoDecoder} {calls : List DecoderCall}
    (h : Remembers d calls) (c : DecoderCall) : Remembers (d.call c) (calls ++ [c]) := by
  cases c with
  | decode img renderTimeMs now =>
    have hstarted : started (calls ++ [.decode img renderTimeMs now]) =
        started calls ++ [remembered img renderTimeMs now] := by
      rw [started_append]
      rfl
    refine ⟨?_, ?_, ?_⟩
    · rw [hstarted]
      show Ring.Holds (Function.update d.pending (Fin.ofNat kPending (d.next % 32).toNat) _) _ _
      rw [h.next, slot_eq]
      exact h.holds.concat _
    · show d.next + 1 = _
      rw [hstarted, h.next, List.length_append, List.length_singleton, UInt64.ofNat_add]
      rfl
    · intro rows hrows
      rw [h.rows rows hrows, frames, frames, List.countP_append]
      rfl
  | decoded f report nowMono nowWall =>
    have hstarted : started (calls ++ [.decoded f report nowMono nowWall]) = started calls := by
      rw [started_append]
      exact List.append_nil _
    refine ⟨?_, ?_, ?_⟩
    · rw [hstarted]
      exact h.holds
    · rw [hstarted]
      exact h.next
    · intro rows hrows
      obtain ⟨rows', hrows', rfl⟩ := Option.map_eq_some_iff.mp hrows
      rw [List.length_append, h.rows rows' hrows', frames, frames, List.countP_append]
      rfl

theorem remembers_run (trace : Option (List DecodedFrameLedgerRow))
    (htrace : ∀ rows ∈ trace, rows = []) (calls : List DecoderCall) :
    Remembers ((init trace).run calls) calls := by
  induction calls using List.reverseRecOn with
  | nil =>
    refine ⟨Ring.Holds.nil, rfl, ?_⟩
    intro rows hrows
    rw [htrace rows hrows]
    rfl
  | append_singleton calls c ih =>
    rw [run, List.foldl_append]
    exact ih.call c

/-- Rows are only ever appended. -/
theorem trace_run (d : LedgerVideoDecoder) (calls : List DecoderCall) {rows : List DecodedFrameLedgerRow}
    (h : d.trace = some rows) : ∃ more, (d.run calls).trace = some (rows ++ more) := by
  induction calls generalizing d rows with
  | nil => exact ⟨[], by rw [List.append_nil]; exact h⟩
  | cons c calls ih =>
    cases c with
    | decode img renderTimeMs now => exact ih _ h
    | decoded f report nowMono nowWall =>
      obtain ⟨more, hmore⟩ := ih (d.record f report nowMono nowWall)
        (show d.trace.map _ = _ by rw [h]; rfl)
      exact ⟨_, hmore.trans (congrArg some (List.append_assoc ..))⟩

/-- The call of `Decode` with number `i` is among the last 32, started, and for a frame
with this timestamp. -/
def Candidate (calls : List DecoderCall) (ts : UInt32) (i : Nat) (p : Pending) : Prop :=
  (started calls)[i]? = some p ∧ (started calls).length ≤ i + kPending ∧
    p.rtpTs = ts ∧ p.startMonoNs ≠ 0

theorem found_iff (calls : List DecoderCall) (ts : UInt32) (i : Nat) (p : Pending) :
    Ring.Found kPending (started calls) (Pending.matches ts) i p ↔ Candidate calls ts i p := by
  rw [Ring.Found, Candidate, Pending.matches]
  simp

/-- The call that a frame's row is of: of the candidates the one in the lowest cell. -/
inductive JoinedTo (calls : List DecoderCall) (ts : UInt32) : Option Pending → Prop
  | nothing (h : ∀ i p, ¬ Candidate calls ts i p) : JoinedTo calls ts none
  | call {i : Nat} {p : Pending} (h : Candidate calls ts i p)
      (lowest : ∀ j q, Candidate calls ts j q → i % kPending ≤ j % kPending) :
      JoinedTo calls ts (some p)

theorem Remembers.joinedTo {d : LedgerVideoDecoder} {calls : List DecoderCall}
    (h : Remembers d calls) (ts : UInt32) :
    JoinedTo calls ts ((List.ofFn d.pending).find? (Pending.matches ts)) := by
  have hzero : Pending.matches ts Pending.zero = false := by simp [Pending.matches, Pending.zero]
  cases hfind : (List.ofFn d.pending).find? (Pending.matches ts) with
  | none =>
    apply JoinedTo.nothing
    intro i p hp
    exact (h.holds.find?_eq_none hzero).mp hfind i p ((found_iff ..).mpr hp)
  | some p =>
    obtain ⟨i, hi, hlowest⟩ := h.holds.find?_eq_some hzero hfind
    exact .call ((found_iff ..).mp hi) fun j q hq => hlowest j q ((found_iff ..).mpr hq)

/-- A frame whose own call is the only candidate is joined to it. -/
theorem JoinedTo.own {calls : List DecoderCall} {ts : UInt32} {o : Option Pending}
    (h : JoinedTo calls ts o) {i : Nat} {p : Pending} (hown : Candidate calls ts i p)
    (honly : ∀ j q, Candidate calls ts j q → j = i) : o = some p := by
  cases h with
  | nothing hno => exact absurd hown (hno i p)
  | @call j q hq _ =>
    have hj := honly j q hq
    subst hj
    rw [← hq.1, ← hown.1]

/-- Whatever the order of the calls: the rows are one a frame, in the order of the frames;
the row of a frame has the start, the size, the type and the render time of the lowest-cell
call with its timestamp among the last 32 calls of `Decode`, of its own call when no other
of them has its timestamp, and -1 in these columns when none has. -/
theorem decoded_rows_joined (before after : List DecoderCall) (f : VideoFrame) (report : Report)
    (nowMono nowWall : Int64) :
    ∃ rows o, ((init (some [])).run (before ++ .decoded f report nowMono nowWall :: after)).trace =
        some rows ∧
      rows.length = frames (before ++ .decoded f report nowMono nowWall :: after) ∧
      rows[frames before]? = some (row o f report nowMono nowWall) ∧
      JoinedTo before f.timestamp o ∧
      ∀ i p, Candidate before f.timestamp i p →
        (∀ j q, Candidate before f.timestamp j q → j = i) → o = some p := by
  have hnil : ∀ rows ∈ (some [] : Option (List DecodedFrameLedgerRow)), rows = [] := by
    intro rows hrows
    cases hrows
    rfl
  have hbefore := remembers_run (some []) hnil before
  have hall := remembers_run (some []) hnil (before ++ .decoded f report nowMono nowWall :: after)
  obtain ⟨old, hold⟩ := trace_run (init (some [])) before rfl
  have hjoined := hbefore.joinedTo f.timestamp
  rw [List.nil_append] at hold
  obtain ⟨more, hmore⟩ := trace_run
    (((init (some [])).run before).record f report nowMono nowWall) after
    (show ((init (some [])).run before).trace.map _ = _ by rw [hold]; rfl)
  have hrun : (init (some [])).run (before ++ .decoded f report nowMono nowWall :: after) =
      (((init (some [])).run before).record f report nowMono nowWall).run after := by
    rw [run, List.foldl_append]
    rfl
  refine ⟨_, _, hrun ▸ hmore, hall.rows _ (hrun ▸ hmore), ?_, hjoined, fun i p hp => hjoined.own hp⟩
  rw [List.append_assoc, ← hbefore.rows old hold, List.getElem?_append_right (Nat.le_refl _),
    Nat.sub_self]
  rfl

end Webrtc
end P5G
