import Mathlib
import P5G.Dict

/-!
# The recording of a fusion group

`load` of fusion_report.py, on the rows of the trace files.  Times are whole
nanoseconds, as the traces have them.  The uplink schedule and the columns that
only plots and other tables use are left out.
-/

namespace P5G
namespace Fusion

abbrev Cam := String

def baseFps : Nat := 30

def basePeriodNs : Int := 1000000 / 30 * 1000

def secondNs : Int := 1000000000

structure FrameRate where
  fps : Nat
  divides : fps ∣ baseFps

/-- Base instants from one slot of a camera to the next. -/
def FrameRate.step (f : FrameRate) : Nat := baseFps / f.fps

structure TxRtpRow where
  ssrc : String
  rtpTs : String
  logWallNs : Int
  payloadBytes : Int

structure TxFrameRow where
  rtpTs : String
  gridSlot : Int
  captureWallNs : Int

structure RxFrameRow where
  rtpTs : String
  ssrc : String
  recvWallNs : Int

/-- A gnb_pdcp_ul row; a flag says that its column is `1`.  The wall clock counts from
1970. -/
structure PdcpRow where
  wallNs : Nat
  ueIndex : String
  rtpLike : Bool
  rtpSsrc : String
  rtpTs : String
  rtpMarker : Bool
  sduBytes : Int
  deriving DecidableEq

structure BsrRow where
  wallNs : Nat
  ueIndex : String
  rnti : String
  lcgId : String
  bufferBytes : Int
  deriving DecidableEq

/-- experiment.json and what the senders logged. -/
structure SenderLogs where
  /-- `start_time_epoch` in nanoseconds -/
  epoch : Int
  durationS : Int
  /-- The cameras of the scenario. -/
  cams : List Cam
  nodup : cams.Nodup
  rate : Cam → FrameRate
  rtp : Cam → List TxRtpRow
  frames : Cam → List TxFrameRow

structure Recording where
  sender : SenderLogs
  app : Cam → List RxFrameRow
  pdcp : List PdcpRow
  bsr : List BsrRow

structure Group where
  first : Cam
  others : List Cam
  nodup : (first :: others).Nodup

namespace Group

variable (g : Group) {β : Type*}

def cams : List Cam := g.first :: g.others

/-- `max(f(c) for c in cams)` -/
def maxOf [Max β] (f : Cam → β) : β := g.others.foldl (fun m c => max m (f c)) (f g.first)

/-- `min(f(c) for c in cams)` -/
def minOf [Min β] (f : Cam → β) : β := g.others.foldl (fun m c => min m (f c)) (f g.first)

theorem maxOf_spec [LinearOrder β] (f : Cam → β) :
    (∃ c ∈ g.cams, g.maxOf f = f c) ∧ ∀ c ∈ g.cams, f c ≤ g.maxOf f := by
  have hfold (cs : List Cam) (m : β) :
      let r := cs.foldl (fun m c => max m (f c)) m
      (r = m ∨ ∃ c ∈ cs, r = f c) ∧ m ≤ r ∧ ∀ c ∈ cs, f c ≤ r := by
    induction cs generalizing m with
    | nil => exact ⟨.inl rfl, le_refl m, fun c hc => absurd hc List.not_mem_nil⟩
    | cons c cs ih =>
      obtain ⟨hfrom, hm, hall⟩ := ih (max m (f c))
      have hcle := le_trans (le_max_right m (f c)) hm
      refine ⟨?_, le_trans (le_max_left _ _) hm, List.forall_mem_cons.mpr ⟨hcle, hall⟩⟩
      rcases hfrom with hmax | ⟨c', hc', heq⟩
      · rcases max_choice m (f c) with hleft | hright
        · exact .inl (hmax.trans hleft)
        · exact .inr ⟨c, List.mem_cons_self, hmax.trans hright⟩
      · exact .inr ⟨c', List.mem_cons_of_mem _ hc', heq⟩
  obtain ⟨hfrom, hm, hall⟩ := hfold g.others (f g.first)
  refine ⟨?_, List.forall_mem_cons.mpr ⟨hm, hall⟩⟩
  rcases hfrom with heq | ⟨c, hc, heq⟩
  · exact ⟨g.first, List.mem_cons_self, heq⟩
  · exact ⟨c, List.mem_cons_of_mem _ hc, heq⟩

theorem maxOf_congr [Max β] {f f' : Cam → β} (h : ∀ c ∈ g.cams, f c = f' c) :
    g.maxOf f = g.maxOf f' := by
  rw [maxOf, maxOf, h g.first List.mem_cons_self]
  exact List.foldl_ext _ _ _ fun m c hc => by rw [h c (List.mem_cons_of_mem _ hc)]

theorem minOf_congr [Min β] {f f' : Cam → β} (h : ∀ c ∈ g.cams, f c = f' c) :
    g.minOf f = g.minOf f' := by
  rw [minOf, minOf, h g.first List.mem_cons_self]
  exact List.foldl_ext _ _ _ fun m c hc => by rw [h c (List.mem_cons_of_mem _ hc)]

end Group

namespace SenderLogs

variable (s : SenderLogs) (c : Cam)

def step : Int := (s.rate c).step

/-- `ssrc = ssrc or r["ssrc"]`, over the packets of a camera. -/
def ssrc : Option String :=
  (s.rtp c).foldl (fun found r => if found.any (· ≠ "") then found else some r.ssrc) none

/-- `pay.get(ts, 0)` -/
def payload (ts : String) : Int :=
  (((s.rtp c).filter fun r => r.rtpTs = ts).map TxRtpRow.payloadBytes).sum

/-- `by_ssrc`: a later camera replaces an earlier one. -/
def camOf (g : Group) (ssrc : String) : Option Cam :=
  g.cams.reverse.find? fun c => s.ssrc c = some ssrc

/-- `all_ssrc`, by the first packet of every camera of the scenario. -/
def anyCamOf (ssrc : String) : Option Cam :=
  s.cams.reverse.find? fun c => ((s.rtp c).head?).map TxRtpRow.ssrc = some ssrc

end SenderLogs

structure Frame where
  ts : Option String
  cap : Int
  payload : Int
  g0 : Option Nat
  g1 : Option Nat
  gpk : List PdcpRow
  app : Option Int
  absent : Bool

namespace Recording

variable (r : Recording) (g : Group) (c : Cam)

/-- `pk[c][ts]` -/
def packets (ts : String) : List PdcpRow :=
  r.pdcp.filter fun p => p.rtpLike ∧ r.sender.camOf g p.rtpSsrc = some c ∧ p.rtpTs = ts

/-- `C[c]["app"].get(ts)` -/
def appWallNs (ts : String) : Option Int :=
  ((r.app c).reverse.find? fun x => some x.ssrc = r.sender.ssrc c ∧ x.rtpTs = ts).map
    RxFrameRow.recvWallNs

def frame (x : TxFrameRow) : Frame where
  ts := some x.rtpTs
  cap := x.captureWallNs
  payload := r.sender.payload c x.rtpTs
  g0 := ((r.packets g c x.rtpTs).head?).map PdcpRow.wallNs
  g1 := ((r.packets g c x.rtpTs).find? PdcpRow.rtpMarker).map PdcpRow.wallNs
  gpk := r.packets g c x.rtpTs
  app := r.appWallNs c x.rtpTs
  absent := false

def logged : Dict Int Frame :=
  (r.sender.frames c).foldl (fun d x => d.set (x.gridSlot * r.sender.step c) (r.frame g c x))
    Dict.empty

end Recording

/-- `range(0, stop, step)` -/
def range (stop step : Int) : List Int :=
  (List.range ((stop + step - 1) / step).toNat).map fun i : Nat => (i : Int) * step

def SenderLogs.stepG (s : SenderLogs) (g : Group) : Int := g.maxOf s.step

/-- `lo <= T + k * BASE_PERIOD_NS < hi`; the warm-up is in nanoseconds. -/
def SenderLogs.inWindow (s : SenderLogs) (warmup k : Int) : Prop :=
  s.epoch + warmup ≤ s.epoch + k * basePeriodNs ∧
    s.epoch + k * basePeriodNs < s.epoch + s.durationS * secondNs

instance (s : SenderLogs) (warmup k : Int) : Decidable (s.inWindow warmup k) := instDecidableAnd

/-- `E` -/
def SenderLogs.expected (s : SenderLogs) (g : Group) (warmup : Int) : List Int :=
  (range (s.durationS * baseFps + 1) (s.stepG g)).filter fun k => s.inWindow warmup k

/-- What stands for a frame that a member never captured. -/
def SenderLogs.placeholder (s : SenderLogs) (k : Int) : Frame where
  ts := none
  cap := s.epoch + k * basePeriodNs
  payload := 0
  g0 := none
  g1 := none
  gpk := []
  app := none
  absent := true

namespace Recording

variable (r : Recording) (g : Group) (warmup : Int) (c : Cam)

/-- `frames.setdefault(k, placeholder)` for every expected frame. -/
def setDefault (d : Dict Int Frame) (k : Int) : Dict Int Frame :=
  if (d.get? k).isSome then d else d.set k (r.sender.placeholder k)

/-- `C[c]["frames"]` -/
def frames : Dict Int Frame := (r.sender.expected g warmup).foldl r.setDefault (r.logged g c)

def inRun (p : PdcpRow) : Prop :=
  r.sender.epoch ≤ p.wallNs ∧
    p.wallNs < r.sender.epoch + r.sender.durationS * secondNs + 5 * secondNs

instance (p : PdcpRow) : Decidable (r.inRun p) := instDecidableAnd

/-- `u in ue[c]` -/
def usesUe (u : String) : Bool :=
  r.pdcp.any fun p => p.rtpLike ∧ r.sender.camOf g p.rtpSsrc = some c ∧ r.inRun p ∧ p.ueIndex = u

/-- `owners[u]` -/
def owners (u : String) : List Cam :=
  r.sender.cams.filter fun oc => r.pdcp.any fun p =>
    p.rtpLike ∧ r.sender.anyCamOf p.rtpSsrc = some oc ∧ r.inRun p ∧ p.ueIndex = u

def ueIndexes : List String := (r.pdcp.map PdcpRow.ueIndex).dedup

def sharedUe : List String :=
  r.ueIndexes.filter fun u => 1 < (r.owners u).length ∧ (r.owners u).any (· ∈ g.cams)

def ranOk : Bool :=
  (g.cams.all fun c => r.ueIndexes.any fun u => r.usesUe g c u) && (r.sharedUe g).isEmpty

end Recording

end Fusion
end P5G
