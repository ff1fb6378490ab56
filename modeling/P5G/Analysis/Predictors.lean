import P5G.Analysis.ExpectedFrames
import P5G.Analysis.Frontier

/-!
# The straggler predictors

Item 6 of `analyse_group` in fusion_report.py: the decisions, and the five scores
a member has at one.  A score is exact; the division of the fourth is not rounded.
-/

namespace P5G
namespace Fusion

/-- Python's test of a time that may be missing. -/
def truthy {α : Type*} [Zero α] [DecidableEq α] (x : Option α) : Bool := x.any (· ≠ 0)

/-- `max(cams, key=f)` -/
def Group.argMax {β : Type*} [LT β] [DecidableLT β] (g : Group) (f : Cam → β) : Cam :=
  g.others.foldl (fun best c => if f best < f c then c else best) g.first

/-- The least spread of a straggler, `SPREAD_MEANINGFUL_MS`. -/
def spreadMeaningfulNs : Int := 5000000

/-- `DECISION_OFFSETS_MS`, in nanoseconds. -/
def decisionOffsetsNs : List Int := [0, 5000000, 10000000]

def rtpIpUdpOverhead : Int := 40

namespace Recording

variable (r : Recording) (g : Group) (warmup : Int)

/-- `F(c, k)`; every expected frame has an entry. -/
def frameAt (c : Cam) (k : Int) : Frame :=
  ((r.frames g warmup c).get? k).getD (r.sender.placeholder k)

def full : List Int :=
  (r.sender.expected g warmup).filter fun k =>
    g.cams.all fun c => truthy (r.frameAt g warmup c k).app

def strag : List Int :=
  (r.full g warmup).filter fun k =>
    let arr := fun c => ((r.frameAt g warmup c k).app).getD 0
    spreadMeaningfulNs < g.maxOf arr - g.minOf arr

def gnbStrag : List Int :=
  (r.strag g warmup).filter fun k => g.cams.all fun c =>
    truthy (r.frameAt g warmup c k).g1 ∧ truthy (r.frameAt g warmup c k).g0

def g0At (k : Int) (c : Cam) : Nat := ((r.frameAt g warmup c k).g0).getD 0

def g1At (k : Int) (c : Cam) : Nat := ((r.frameAt g warmup c k).g1).getD 0

/-- Item 6 is reached, and frame `k` has a decision at `t`. -/
structure DecidesAt (k t : Int) : Prop where
  members : g.others ≠ []
  ranOk : r.ranOk g = true
  frame : k ∈ r.gnbStrag g warmup
  offset : ∃ off ∈ decisionOffsetsNs, t = (g.minOf (r.g0At g warmup k) : Nat) + off
  inFlight : t < (g.maxOf (r.g1At g warmup k) : Nat)

def ue2cam (u : String) : Option Cam := g.cams.reverse.find? fun c => r.usesUe g c u

end Recording

/-- An item of `BS`, compared as Python compares tuples. -/
abbrev BsrItem := Int ×ₗ (String ×ₗ String ×ₗ String) ×ₗ Int

def BsrRow.item (x : BsrRow) : BsrItem :=
  toLex ((x.wallNs : Int), toLex (toLex (x.ueIndex, toLex (x.rnti, x.lcgId)), x.bufferBytes))

namespace BsrItem

def wall (x : BsrItem) : Int := (ofLex x).1

/-- `(u, rnti_v)` -/
def context (x : BsrItem) : String × String :=
  let key := ofLex (ofLex (ofLex x).2).1
  (key.1, (ofLex key.2).1)

def lcg (x : BsrItem) : String := (ofLex (ofLex (ofLex (ofLex x).2).1).2).2

def bytes (x : BsrItem) : Int := (ofLex (ofLex x).2).2

end BsrItem

/-- `ts` and `tot`, from `cur` and `state` on. -/
def totals : List BsrItem → Option (String × String) → Counter String → List (Int × Int)
  | [], _, _ => []
  | x :: xs, cur, state =>
    let state := if some x.context ≠ cur then Dict.empty else state
    let state := state.set x.lcg x.bytes
    (x.wall, Counter.total state fun _ => true) :: totals xs (some x.context) state

namespace Recording

variable (r : Recording) (g : Group) (warmup : Int)

/-- `BS[c]`, sorted. -/
def bsrItems (c : Cam) : List BsrItem :=
  ((r.bsr.filter fun x => r.ue2cam g x.ueIndex = some c).map BsrRow.item).insertionSort (· ≤ ·)

def bsrTotal (c : Cam) (t : Int) : Int :=
  (lastNotAbove Prod.fst (totals (r.bsrItems g c) none Dict.empty) t).elim 0 Prod.snd

def received (c : Cam) (k t : Int) : Int :=
  (((r.frameAt g warmup c k).gpk.filter fun p => (p.wallNs : Int) ≤ t).map fun p =>
    max 0 (p.sduBytes - rtpIpUdpOverhead)).sum

def doneList : List (Int ×ₗ Cam) :=
  ((r.sender.expected g warmup).filterMap fun k =>
    if g.cams.all fun c => truthy (r.frameAt g warmup c k).g1 then
      some (toLex (((g.maxOf (r.g1At g warmup k) : Nat) : Int), g.argMax (r.g1At g warmup k)))
    else none).insertionSort (· ≤ ·)

/-- `last_s` -/
def lastStraggler (t : Int) : Option Cam :=
  (lastNotAbove (fun x => (ofLex x).1) (r.doneList g warmup) t).map fun x => (ofLex x).2

end Recording

/-- The keys of `choices`. -/
inductive Predictor where
  | bsr
  | frontier
  | arrivalOrder
  | progress
  | lastStraggler
  deriving DecidableEq

/-- `choices[nm][c]` at frame `k` and time `t`. -/
def Recording.score (r : Recording) (g : Group) (warmup : Int) (p : Predictor) (c : Cam)
    (k t : Int) : WithTop Rat :=
  match p with
  | .bsr => ((r.bsrTotal g c t : Rat) : WithTop Rat)
  | .frontier =>
    ((-frontierIdx ((r.sender.expected g warmup).map fun k => (r.frameAt g warmup c k).g1) t :
      Rat) : WithTop Rat)
  | .arrivalOrder =>
    if (r.g0At g warmup k c : Int) ≤ t then ((r.g0At g warmup k c : Rat) : WithTop Rat) else ⊤
  | .progress =>
    ((-r.received g warmup c k t / max 1 (r.frameAt g warmup c k).payload : Rat) : WithTop Rat)
  | .lastStraggler => if some c = r.lastStraggler g warmup t then 1 else 0

end Fusion
end P5G
