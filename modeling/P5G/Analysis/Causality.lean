import P5G.Analysis.Predictors

/-!
# What the predictors have seen

Two recordings that are the same up to a time `t`: the scores at `t` differ in the
BSR totals only, and there only through the UE indexes, which are attributed to
cameras from the whole run.
-/

namespace P5G
namespace Fusion

section

variable {α : Type*} {wall : α → Nat} {l l' : List α} {t : Int}

/-- Two traces in the order of time, with the same rows up to `t`. -/
structure SameUntil (wall : α → Nat) (t : Int) (l l' : List α) : Prop where
  sorted : l.Pairwise fun x y => wall x ≤ wall y
  sorted' : l'.Pairwise fun x y => wall x ≤ wall y
  same : l.filter (fun x => (wall x : Int) ≤ t) = l'.filter fun x => (wall x : Int) ≤ t

theorem SameUntil.symm (h : SameUntil wall t l l') : SameUntil wall t l' l :=
  ⟨h.sorted', h.sorted, h.same.symm⟩

/-- Two times, either of them missing, that are the same if one of them is not after `t`. -/
def Agree (t : Int) (o o' : Option Nat) : Prop :=
  ∀ w : Nat, (w : Int) ≤ t → (o = some w ↔ o' = some w)

/-- What is found by `t` is found among what came by `t`. -/
theorem find?_filter_le (h : l.Pairwise fun x y => wall x ≤ wall y) (p : α → Bool) (x : α) :
    (l.filter fun x => (wall x : Int) ≤ t).find? p = some x ↔
      l.find? p = some x ∧ (wall x : Int) ≤ t := by
  induction l with
  | nil => simp
  | cons a l ih =>
    obtain ⟨ha, hl⟩ := List.pairwise_cons.mp h
    by_cases hat : (wall a : Int) ≤ t
    · have hcons : (a :: l).filter (fun x => (wall x : Int) ≤ t) =
          a :: l.filter fun x => (wall x : Int) ≤ t :=
        List.filter_cons_of_pos (decide_eq_true hat)
      rw [hcons, List.find?_cons, List.find?_cons]
      split
      · rw [Option.some_inj]
        exact ⟨fun hx => ⟨hx, hx ▸ hat⟩, And.left⟩
      · exact ih hl
    · have hlate : ∀ b ∈ a :: l, ¬ (wall b : Int) ≤ t := by
        refine List.forall_mem_cons.mpr ⟨hat, fun b hb => ?_⟩
        have hab := ha b hb
        omega
      have hnil : (a :: l).filter (fun x => decide ((wall x : Int) ≤ t)) = [] :=
        List.filter_eq_nil_iff.mpr fun b hb => by simpa using hlate b hb
      rw [hnil, List.find?_nil]
      refine iff_of_false (fun hx => nomatch hx) fun hx => ?_
      exact hlate x (List.mem_of_find?_eq_some hx.1) hx.2

theorem SameUntil.agree_find? (h : SameUntil wall t l l') (p : α → Bool) :
    Agree t ((l.find? p).map wall) ((l'.find? p).map wall) := by
  have hone {l l' : List α} (h : SameUntil wall t l l') {w : Nat} (hw : (w : Int) ≤ t)
      (hl : (l.find? p).map wall = some w) : (l'.find? p).map wall = some w := by
    obtain ⟨x, hx, rfl⟩ := Option.map_eq_some_iff.mp hl
    have hseen := (find?_filter_le h.sorted p x).mpr ⟨hx, hw⟩
    rw [h.same] at hseen
    have hfound := (find?_filter_le h.sorted' p x).mp hseen
    rw [hfound.1, Option.map_some]
  exact fun w hw => ⟨hone h hw, hone h.symm hw⟩

/-- What is selected from the rows by `t` is the same. -/
theorem SameUntil.filter_filter (h : SameUntil wall t l l') (p : α → Bool) :
    (l.filter p).filter (fun x => (wall x : Int) ≤ t) =
      (l'.filter p).filter fun x => (wall x : Int) ≤ t := by
  rw [List.filter_comm, h.same, List.filter_comm]

end

theorem Agree.completedBy {t : Int} {o o' : Option Nat} (h : Agree t o o')
    (ho : CompletedBy o t) : CompletedBy o' t := by
  obtain ⟨w, hw, hle⟩ := ho
  have hwt : w ≤ t := Int.cast_le.mp hle
  cases o with
  | none => exact absurd hw (WithTop.coe_ne_top).symm
  | some v =>
    rw [completion] at hw
    split at hw
    · exact absurd hw (WithTop.coe_ne_top).symm
    · next hv =>
      have hvw : (v : Int) = w := WithTop.coe_inj.mp hw
      rw [(h v (hvw ▸ hwt)).mp rfl]
      refine ⟨w, ?_, hle⟩
      rw [completion, if_neg hv, hvw]

theorem Agree.symm {t : Int} {o o' : Option Nat} (h : Agree t o o') : Agree t o' o :=
  fun w hw => (h w hw).symm

theorem frontierIdx_congr {ks : List Int} {t : Int} {f f' : Int → Option Nat}
    (h : ∀ k ∈ ks, Agree t (f k) (f' k)) :
    frontierIdx (ks.map f) t = frontierIdx (ks.map f') t := by
  have hf := isFrontier_floor (ks.map f) t
  have hf' := isFrontier_floor (ks.map f') t
  rw [Int.floor_intCast] at hf hf'
  refine hf.unique ⟨hf'.lower, ?_, fun i hi => ?_⟩
  · have hupper := hf'.upper
    rwa [List.length_map] at hupper ⊢
  · rw [List.length_map] at hi
    rw [hf'.iff i (by rwa [List.length_map])]
    simp only [List.length_map, List.getElem_map]
    refine forall₃_congr fun j hj _ => ?_
    have hagree := h _ (List.getElem_mem hj)
    exact ⟨hagree.symm.completedBy, hagree.completedBy⟩

theorem map_fst_totals (l : List BsrItem) (cur : Option (String × String))
    (state : Counter String) : (totals l cur state).map Prod.fst = l.map BsrItem.wall := by
  induction l generalizing cur state with
  | nil => rfl
  | cons x l ih => rw [totals, List.map_cons, List.map_cons, ih]

/-- The totals by `t` are those of the reports by `t`. -/
theorem filter_totals {l : List BsrItem} (h : l.Pairwise fun x y => x.wall ≤ y.wall) (t : Int)
    (cur : Option (String × String)) (state : Counter String) :
    (totals l cur state).filter (fun e => e.1 ≤ t) =
      totals (l.filter fun x => x.wall ≤ t) cur state := by
  induction l generalizing cur state with
  | nil => rfl
  | cons x l ih =>
    obtain ⟨hx, hl⟩ := List.pairwise_cons.mp h
    by_cases hxt : x.wall ≤ t
    · have hcons : (x :: l).filter (fun x => decide (x.wall ≤ t)) =
          x :: l.filter fun x => x.wall ≤ t :=
        List.filter_cons_of_pos (decide_eq_true hxt)
      rw [hcons, totals, totals, List.filter_cons]
      dsimp only
      rw [if_pos (decide_eq_true hxt), ih hl]
    · have hlate : ∀ w ∈ (x :: l).map BsrItem.wall, ¬ w ≤ t := by
        rw [List.forall_mem_map]
        refine List.forall_mem_cons.mpr ⟨hxt, fun y hy => ?_⟩
        have hxy := hx y hy
        omega
      have hnil : (x :: l).filter (fun x => decide (x.wall ≤ t)) = [] :=
        List.filter_eq_nil_iff.mpr fun y hy => by
          simpa using hlate _ (List.mem_map_of_mem hy)
      rw [hnil]
      refine List.filter_eq_nil_iff.mpr fun e he => ?_
      rw [← map_fst_totals (x :: l) cur state] at hlate
      simpa using hlate _ (List.mem_map_of_mem he)

namespace Recording

variable (r : Recording) (g : Group)

/-- `bsr_total` reads the reports by `t` of the UE indexes attributed to the camera. -/
theorem bsrTotal_eq (c : Cam) (t : Int) :
    r.bsrTotal g c t = ((totals ((((r.bsr.filter fun x => (x.wallNs : Int) ≤ t).filter
      fun x => r.ue2cam g x.ueIndex = some c).map BsrRow.item).insertionSort (· ≤ ·)) none
        Dict.empty).getLast?).elim 0 Prod.snd := by
  have hsorted : (r.bsrItems g c).Pairwise fun x y => x.wall ≤ y.wall :=
    (List.pairwise_insertionSort (· ≤ ·) _).imp fun hxy => Prod.Lex.monotone_fst _ _ hxy
  have hwalls : ((totals (r.bsrItems g c) none Dict.empty).map Prod.fst).Pairwise (· ≤ ·) := by
    rw [map_fst_totals]
    exact List.pairwise_map.mpr hsorted
  have hitems : (r.bsrItems g c).filter (fun x => x.wall ≤ t) =
      (((r.bsr.filter fun x => (x.wallNs : Int) ≤ t).filter
        fun x => r.ue2cam g x.ueIndex = some c).map BsrRow.item).insertionSort (· ≤ ·) := by
    rw [bsrItems, filter_insertionSort, List.filter_map, List.filter_filter, List.filter_filter]
    congr 2
    refine List.filter_congr fun x _ => ?_
    rw [Bool.and_comm]
    rfl
  rw [bsrTotal, lastNotAbove_eq hwalls, filter_totals hsorted, hitems]

end Recording

namespace Recording

section

variable (r : Recording) (g : Group) (warmup : Int) (c : Cam) (k : Int)

/-- A frame is made from the row of its slot, and a placeholder where there is none. -/
theorem frameAt_eq :
    r.frameAt g warmup c k =
      (r.sender.slotRow c k).elim (r.sender.placeholder k) (r.frame g c) := by
  rw [frameAt, frames_get?]
  cases r.sender.slotRow c k with
  | some x => rfl
  | none =>
    rw [Option.map_none, Option.none_or]
    split
    · rfl
    · rfl

end

/-- What two recordings with the same sender logs have in common at a frame. -/
structure SameFrame (t : Int) (f f' : Frame) : Prop where
  g0 : Agree t f.g0 f'.g0
  g1 : Agree t f.g1 f'.g1
  gpk : f.gpk.filter (fun p => (p.wallNs : Int) ≤ t) = f'.gpk.filter fun p => (p.wallNs : Int) ≤ t
  payload : f.payload = f'.payload

section

variable {a b : Recording} (g : Group) (warmup : Int) {t : Int}

theorem sameFrame (hsender : a.sender = b.sender)
    (hpdcp : SameUntil PdcpRow.wallNs t a.pdcp b.pdcp) (c : Cam) (k : Int) :
    SameFrame t (a.frameAt g warmup c k) (b.frameAt g warmup c k) := by
  rw [frameAt_eq, frameAt_eq, hsender]
  cases b.sender.slotRow c k with
  | none => exact ⟨fun _ _ => Iff.rfl, fun _ _ => Iff.rfl, rfl, rfl⟩
  | some x =>
    refine ⟨?_, ?_, ?_, ?_⟩
    · show Agree t (((a.packets g c x.rtpTs).head?).map _) (((b.packets g c x.rtpTs).head?).map _)
      rw [packets, packets, hsender, List.head?_filter, List.head?_filter]
      exact hpdcp.agree_find? _
    · show Agree t (((a.packets g c x.rtpTs).find? _).map _)
        (((b.packets g c x.rtpTs).find? _).map _)
      rw [packets, packets, hsender, List.find?_filter, List.find?_filter]
      exact hpdcp.agree_find? _
    · show (a.packets g c x.rtpTs).filter _ = (b.packets g c x.rtpTs).filter _
      rw [packets, packets, hsender]
      exact hpdcp.filter_filter _
    · show a.sender.payload c x.rtpTs = b.sender.payload c x.rtpTs
      rw [hsender]

theorem received_congr (hsender : a.sender = b.sender)
    (hpdcp : SameUntil PdcpRow.wallNs t a.pdcp b.pdcp) (c : Cam) (k : Int) :
    a.received g warmup c k t = b.received g warmup c k t := by
  rw [received, received, (sameFrame g warmup hsender hpdcp c k).gpk]

theorem truthy_iff {α : Type*} [Zero α] [DecidableEq α] {o : Option α} :
    truthy o = true ↔ ∃ x, o = some x ∧ x ≠ 0 := by
  cases o with
  | none => simp [truthy]
  | some x => simp [truthy]

def CompleteBy (r : Recording) (g : Group) (warmup t k : Int) : Prop :=
  (g.cams.all fun c => truthy (r.frameAt g warmup c k).g1) = true ∧
    ((g.maxOf (r.g1At g warmup k) : Nat) : Int) ≤ t

theorem filter_done_iff (r : Recording) (k : Int) {y x : Int ×ₗ Cam}
    (hy : (ofLex y).1 = (g.maxOf (r.g1At g warmup k) : Nat)) :
    (if (g.cams.all fun c => truthy (r.frameAt g warmup c k).g1) = true then some y
      else none).filter (fun x => decide ((ofLex x).1 ≤ t)) = some x ↔
      r.CompleteBy g warmup t k ∧ x = y := by
  rw [CompleteBy, ← hy]
  split
  · next hall =>
    rw [Option.filter_eq_some_iff, decide_eq_true_iff, Option.some_inj]
    constructor
    · rintro ⟨rfl, hle⟩
      exact ⟨⟨hall, hle⟩, rfl⟩
    · rintro ⟨⟨-, hle⟩, rfl⟩
      exact ⟨rfl, hle⟩
  · next hnot => exact iff_of_false (fun h => nomatch h) fun h => hnot h.1.1

theorem CompleteBy.congr {k : Int} (hsender : a.sender = b.sender)
    (hpdcp : SameUntil PdcpRow.wallNs t a.pdcp b.pdcp) (h : a.CompleteBy g warmup t k) :
    b.CompleteBy g warmup t k ∧ ∀ c ∈ g.cams, a.g1At g warmup k c = b.g1At g warmup k c := by
  obtain ⟨hall, hmax⟩ := h
  have hone (c : Cam) (hc : c ∈ g.cams) :
      truthy (b.frameAt g warmup c k).g1 = true ∧ a.g1At g warmup k c = b.g1At g warmup k c := by
    obtain ⟨w, hw, hne⟩ := truthy_iff.mp (List.all_eq_true.mp hall c hc)
    have hat : a.g1At g warmup k c = w := by rw [g1At, hw, Option.getD_some]
    have hle := (g.maxOf_spec (a.g1At g warmup k)).2 c hc
    have hb := ((sameFrame g warmup hsender hpdcp c k).g1 w (by omega)).mp hw
    refine ⟨truthy_iff.mpr ⟨w, hb, hne⟩, ?_⟩
    rw [hat, g1At, hb, Option.getD_some]
  refine ⟨⟨List.all_eq_true.mpr fun c hc => (hone c hc).1, ?_⟩, fun c hc => (hone c hc).2⟩
  rwa [← g.maxOf_congr fun c hc => (hone c hc).2]

theorem argMax_congr {β : Type*} [LT β] [DecidableLT β] {f f' : Cam → β}
    (h : ∀ c ∈ g.cams, f c = f' c) : g.argMax f = g.argMax f' := by
  have hfold (cs : List Cam) (best : Cam) (hbest : f best = f' best)
      (hcs : ∀ c ∈ cs, f c = f' c) :
      cs.foldl (fun best c => if f best < f c then c else best) best =
        cs.foldl (fun best c => if f' best < f' c then c else best) best := by
    induction cs generalizing best with
    | nil => rfl
    | cons c cs ih =>
      obtain ⟨hc, hrest⟩ := List.forall_mem_cons.mp hcs
      rw [List.foldl_cons, List.foldl_cons, hbest, hc]
      refine ih _ ?_ hrest
      split
      · exact hc
      · exact hbest
  exact hfold g.others g.first (h g.first List.mem_cons_self)
    fun c hc => h c (List.mem_cons_of_mem _ hc)

/-- `last_s` is an outcome known by `t`. -/
theorem lastStraggler_congr (hsender : a.sender = b.sender)
    (hpdcp : SameUntil PdcpRow.wallNs t a.pdcp b.pdcp) :
    a.lastStraggler g warmup t = b.lastStraggler g warmup t := by
  have hsorted (l : List (Int ×ₗ Cam)) :
      ((l.insertionSort (· ≤ ·)).map fun x => (ofLex x).1).Pairwise (· ≤ ·) :=
    List.pairwise_map.mpr ((List.pairwise_insertionSort (· ≤ ·) l).imp
      fun hxy => Prod.Lex.monotone_fst _ _ hxy)
  rw [lastStraggler, lastStraggler, doneList, doneList, lastNotAbove_eq (hsorted _),
    lastNotAbove_eq (hsorted _), filter_insertionSort, filter_insertionSort,
    List.filter_filterMap, List.filter_filterMap, hsender]
  congr 3
  refine List.filterMap_congr fun k _ => Option.ext fun x => ?_
  rw [filter_done_iff g warmup a k rfl, filter_done_iff g warmup b k rfl]
  constructor
  · rintro ⟨hdone, rfl⟩
    obtain ⟨hdone', heq⟩ := hdone.congr g warmup hsender hpdcp
    rw [g.maxOf_congr heq, argMax_congr g heq]
    exact ⟨hdone', rfl⟩
  · rintro ⟨hdone, rfl⟩
    obtain ⟨hdone', heq⟩ := hdone.congr g warmup hsender.symm hpdcp.symm
    rw [g.maxOf_congr heq, argMax_congr g heq]
    exact ⟨hdone', rfl⟩

/-- At a decision every member has sent data of the frame, by `t` or later. -/
theorem DecidesAt.exists_g0 {r : Recording} {k : Int} (h : r.DecidesAt g warmup k t) {c : Cam}
    (hc : c ∈ g.cams) : ∃ w, (r.frameAt g warmup c k).g0 = some w := by
  have hall := List.all_eq_true.mp (List.mem_filter.mp h.frame).2 c hc
  obtain ⟨w, hw, -⟩ := truthy_iff.mp (of_decide_eq_true hall).2
  exact ⟨w, hw⟩

theorem DecidesAt.nonneg {r : Recording} {k : Int} (h : r.DecidesAt g warmup k t) : 0 ≤ t := by
  obtain ⟨off, hoff, rfl⟩ := h.offset
  have hpos : ∀ off ∈ decisionOffsetsNs, 0 ≤ off := by decide
  have hle := hpos off hoff
  omega

theorem arrivalOrder_congr {o o' : Option Nat} (h : Agree t o o')
    (ho : ∃ w, o = some w) (ho' : ∃ w, o' = some w) :
    (if ((o.getD 0 : Nat) : Int) ≤ t then (((o.getD 0 : Nat) : Rat) : WithTop Rat) else ⊤) =
      if ((o'.getD 0 : Nat) : Int) ≤ t then (((o'.getD 0 : Nat) : Rat) : WithTop Rat) else ⊤ := by
  obtain ⟨w, rfl⟩ := ho
  obtain ⟨w', rfl⟩ := ho'
  by_cases hle : (w : Int) ≤ t
  · rw [(h w hle).mp rfl]
  · have hle' : ¬ (w' : Int) ≤ t := by
      intro hle'
      rw [Option.some_inj.mp ((h w' hle').mpr rfl)] at hle
      exact hle hle'
    rw [Option.getD_some, Option.getD_some, if_neg hle, if_neg hle']

/-- All predictors but the BSR totals use what came by `t`. -/
theorem score_congr {k : Int} (hsender : a.sender = b.sender)
    (hpdcp : SameUntil PdcpRow.wallNs t a.pdcp b.pdcp) (ha : a.DecidesAt g warmup k t)
    (hb : b.DecidesAt g warmup k t) {c : Cam} (hc : c ∈ g.cams)
    (hbsr : a.bsrTotal g c t = b.bsrTotal g c t) (p : Predictor) :
    a.score g warmup p c k t = b.score g warmup p c k t := by
  have hframe (k : Int) := sameFrame g warmup hsender hpdcp c k
  cases p with
  | bsr =>
    show ((a.bsrTotal g c t : Rat) : WithTop Rat) = ((b.bsrTotal g c t : Rat) : WithTop Rat)
    rw [hbsr]
  | frontier =>
    rw [score, score, hsender, frontierIdx_congr fun k _ => (hframe k).g1]
  | arrivalOrder =>
    exact arrivalOrder_congr (hframe k).g0 (ha.exists_g0 g warmup hc) (hb.exists_g0 g warmup hc)
  | progress =>
    rw [score, score, received_congr g warmup hsender hpdcp, (hframe k).payload]
  | lastStraggler =>
    rw [score, score, lastStraggler_congr g warmup hsender hpdcp]

theorem bsrTotal_congr (hbsr : SameUntil BsrRow.wallNs t a.bsr b.bsr)
    (hue : ∀ x ∈ a.bsr, (x.wallNs : Int) ≤ t → a.ue2cam g x.ueIndex = b.ue2cam g x.ueIndex)
    (c : Cam) : a.bsrTotal g c t = b.bsrTotal g c t := by
  have hrows : (a.bsr.filter fun x => (x.wallNs : Int) ≤ t).filter
        (fun x => a.ue2cam g x.ueIndex = some c) =
      (b.bsr.filter fun x => (x.wallNs : Int) ≤ t).filter
        fun x => b.ue2cam g x.ueIndex = some c := by
    rw [← hbsr.same]
    refine List.filter_congr fun x hx => ?_
    obtain ⟨hmem, hle⟩ := List.mem_filter.mp hx
    rw [hue x hmem (of_decide_eq_true hle)]
  rw [bsrTotal_eq, bsrTotal_eq, hrows]

theorem mem_cams_of_ue2cam {r : Recording} {u : String} {c : Cam} (h : r.ue2cam g u = some c) :
    c ∈ g.cams := List.mem_reverse.mp (List.mem_of_find?_eq_some h)

def oneReport (u : String) : List BsrRow := [⟨0, u, "", "", 1⟩]

theorem bsrTotal_oneReport (r : Recording) (u : String) (ht : 0 ≤ t) (c : Cam) :
    ({ r with bsr := oneReport u } : Recording).bsrTotal g c t =
      if r.ue2cam g u = some c then 1 else 0 := by
  have hrows : (oneReport u).filter (fun x => decide ((x.wallNs : Int) ≤ t)) = oneReport u :=
    List.filter_cons_of_pos (decide_eq_true ht)
  have hcam : (oneReport u).filter (fun x =>
      decide (({ r with bsr := oneReport u } : Recording).ue2cam g x.ueIndex = some c)) =
      if r.ue2cam g u = some c then oneReport u else [] := by
    split
    · next h => exact List.filter_cons_of_pos (decide_eq_true h)
    · next h => exact List.filter_cons_of_neg fun hd => h (of_decide_eq_true hd)
  rw [bsrTotal_eq, hrows, hcam]
  split
  · rfl
  · rfl

/-- The predictors use data observable by `t`, whatever the BSR reports of the UE indexes
in `reporting`, exactly when both recordings attribute each of these to the same camera. -/
theorem scores_causal_iff {k : Int} (hsender : a.sender = b.sender)
    (hpdcp : SameUntil PdcpRow.wallNs t a.pdcp b.pdcp) (ha : a.DecidesAt g warmup k t)
    (hb : b.DecidesAt g warmup k t) (reporting : Set String) :
    (∀ bsrA bsrB : List BsrRow, SameUntil BsrRow.wallNs t bsrA bsrB →
      (∀ x ∈ bsrA, (x.wallNs : Int) ≤ t → x.ueIndex ∈ reporting) →
      ∀ p, ∀ c ∈ g.cams,
        ({ a with bsr := bsrA } : Recording).score g warmup p c k t =
          ({ b with bsr := bsrB } : Recording).score g warmup p c k t) ↔
      ∀ u ∈ reporting, a.ue2cam g u = b.ue2cam g u := by
  constructor
  · intro hcausal u hu
    have hsame : SameUntil BsrRow.wallNs t (oneReport u) (oneReport u) :=
      ⟨List.pairwise_singleton _ _, List.pairwise_singleton _ _, rfl⟩
    have hin : ∀ x ∈ oneReport u, (x.wallNs : Int) ≤ t → x.ueIndex ∈ reporting :=
      fun x hx _ => List.mem_singleton.mp hx ▸ hu
    have hiff (c : Cam) (hc : c ∈ g.cams) : a.ue2cam g u = some c ↔ b.ue2cam g u = some c := by
      have hscore := hcausal _ _ hsame hin .bsr c hc
      have htotal : ({ a with bsr := oneReport u } : Recording).bsrTotal g c t =
          ({ b with bsr := oneReport u } : Recording).bsrTotal g c t :=
        Rat.intCast_injective (WithTop.coe_injective hscore)
      rw [bsrTotal_oneReport g a u (ha.nonneg g warmup),
        bsrTotal_oneReport g b u (hb.nonneg g warmup)] at htotal
      constructor
      · intro hcam
        by_contra hnot
        rw [if_pos hcam, if_neg hnot] at htotal
        exact absurd htotal (by decide)
      · intro hcam
        by_contra hnot
        rw [if_neg hnot, if_pos hcam] at htotal
        exact absurd htotal (by decide)
    refine Option.ext fun c => ⟨fun h => ?_, fun h => ?_⟩
    · exact (hiff c (mem_cams_of_ue2cam g h)).mp h
    · exact (hiff c (mem_cams_of_ue2cam g h)).mpr h
  · intro hue bsrA bsrB hbsr hin p c hc
    have htotal : ({ a with bsr := bsrA } : Recording).bsrTotal g c t =
        ({ b with bsr := bsrB } : Recording).bsrTotal g c t :=
      bsrTotal_congr g (a := { a with bsr := bsrA }) (b := { b with bsr := bsrB }) hbsr
        (fun x hx hle => hue x.ueIndex (hin x hx hle)) c
    refine score_congr (a := { a with bsr := bsrA }) (b := { b with bsr := bsrB }) g warmup
      hsender hpdcp ?_ ?_ hc htotal p
    · exact ⟨ha.members, ha.ranOk, ha.frame, ha.offset, ha.inFlight⟩
    · exact ⟨hb.members, hb.ranOk, hb.frame, hb.offset, hb.inFlight⟩

end

end Recording

def lastFrame : SenderLogs where
  epoch := 0
  durationS := 1
  cams := ["cam0", "cam1"]
  nodup := twoCams_nodup
  rate _ := ⟨30, by decide⟩
  rtp c := [⟨if c = "cam0" then "1" else "2", "a", 1000000000, 9000⟩]
  frames _ := [⟨"a", 30, 999990000⟩]

/-- The second camera is at the gNB 50 ms after the first; `later` comes after that. -/
def inFlight (later : List PdcpRow) : Recording where
  sender := lastFrame
  app c := if c = "cam0" then [⟨"a", "1", 1020000000⟩] else [⟨"a", "2", 1070000000⟩]
  pdcp :=
    [⟨1010000000, "0", true, "1", "a", true, 1040⟩, ⟨1012000000, "1", true, "2", "a", false, 1040⟩,
      ⟨1060000000, "1", true, "2", "a", true, 1040⟩] ++ later
  bsr := [⟨1005000000, "2", "17", "4", 50000⟩]

def reconnected : List PdcpRow := [⟨1065000000, "2", true, "2", "b", false, 1040⟩]

theorem decidesAt_inFlight :
    (inFlight []).DecidesAt bothCams 999990000 30 1010000000 where
  members := by decide
  ranOk := by decide
  frame := by decide
  offset := ⟨0, by decide, by decide⟩
  inFlight := by decide

theorem decidesAt_reconnected :
    (inFlight reconnected).DecidesAt bothCams 999990000 30 1010000000 where
  members := by decide
  ranOk := by decide
  frame := by decide
  offset := ⟨0, by decide, by decide⟩
  inFlight := by decide

theorem sameUntil_reconnected :
    SameUntil PdcpRow.wallNs 1010000000 (inFlight reconnected).pdcp (inFlight []).pdcp :=
  ⟨by decide, by decide, by decide⟩

/-- The reports of the UE indexes that both recordings attribute alike do no harm. -/
theorem scores_causal_reconnected :
    SameUntil PdcpRow.wallNs 1010000000 (inFlight reconnected).pdcp (inFlight []).pdcp ∧
      ∀ bsrA bsrB : List BsrRow, SameUntil BsrRow.wallNs 1010000000 bsrA bsrB →
        (∀ x ∈ bsrA, (x.wallNs : Int) ≤ 1010000000 → x.ueIndex ∈ ({"0", "1"} : Set String)) →
        ∀ p, ∀ c ∈ bothCams.cams,
          ({ inFlight reconnected with bsr := bsrA } : Recording).score bothCams 999990000 p c 30
              1010000000 =
            ({ inFlight [] with bsr := bsrB } : Recording).score bothCams 999990000 p c 30
              1010000000 := by
  have hue : ∀ u ∈ ({"0", "1"} : Set String),
      (inFlight reconnected).ue2cam bothCams u = (inFlight []).ue2cam bothCams u := by
    rintro u (rfl | rfl)
    · decide
    · decide
  exact ⟨sameUntil_reconnected, (Recording.scores_causal_iff (a := inFlight reconnected)
    (b := inFlight []) bothCams 999990000 rfl sameUntil_reconnected decidesAt_reconnected
    decidesAt_inFlight {"0", "1"}).mpr hue⟩

/-- At 1.01 s the report of UE index 2 counts for the second camera only if the camera
uses that index after 1.065 s. -/
theorem scores_not_causal :
    ¬ ∀ (a b : Recording) (g : Group) (warmup k t : Int), a.sender = b.sender →
      SameUntil PdcpRow.wallNs t a.pdcp b.pdcp → SameUntil BsrRow.wallNs t a.bsr b.bsr →
      a.DecidesAt g warmup k t → b.DecidesAt g warmup k t →
      ∀ p, ∀ c ∈ g.cams, a.score g warmup p c k t = b.score g warmup p c k t := by
  intro h
  have hscore := h (inFlight reconnected) (inFlight []) bothCams 999990000 30 1010000000 rfl
    sameUntil_reconnected ⟨by decide, by decide, rfl⟩ decidesAt_reconnected decidesAt_inFlight
    .bsr "cam1" (by decide)
  have hlater : (inFlight reconnected).bsrTotal bothCams "cam1" 1010000000 = 50000 := by decide
  have hnever : (inFlight []).bsrTotal bothCams "cam1" 1010000000 = 0 := by decide
  have htotal : (inFlight reconnected).bsrTotal bothCams "cam1" 1010000000 =
      (inFlight []).bsrTotal bothCams "cam1" 1010000000 :=
    Rat.intCast_injective (WithTop.coe_injective hscore)
  rw [hlater, hnever] at htotal
  cases htotal

end Fusion
end P5G
