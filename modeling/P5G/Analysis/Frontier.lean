import Mathlib.Data.List.Sort
import P5G.Analysis.FusionLoad
import P5G.Bisect
import P5G.Counter
import P5G.Timeline

/-!
# Frontier lag

Item 3 of `analyse_group` in fusion_report.py: how far the members' frontiers at
the gNB are apart, as shares of time, as amounts per second and as episodes.
Durations stay whole nanoseconds; the rounding of the printed figures is left out.
-/

namespace P5G
namespace Fusion

/-- `g1 if g1 else INF` -/
def completion : Option Nat → WithTop Int
  | some w => if w = 0 then ⊤ else ((w : Int) : WithTop Int)
  | none => ⊤

/-- The loop that makes `prefix`, from `m` on. -/
def runMax : WithTop Int → List (WithTop Int) → List (WithTop Int)
  | _, [] => []
  | m, x :: xs => max m x :: runMax (max m x) xs

/-- `bisect.bisect_right(prefix[c], t) - 1` for a member whose frames of `E` complete at `g1`. -/
def frontierIdx (g1 : List (Option Nat)) (t : Int) : Int :=
  (bisectRight (runMax 0 (g1.map completion)) (t : WithTop Int) : Int) - 1

section

variable (g : Group) (g1 : Cam → List (Option Nat)) (epoch wEnd : Int)

/-- `max_i f_i(t) - min_i f_i(t)` -/
def gap (t : Int) : Int :=
  g.maxOf (fun c => frontierIdx (g1 c) t) - g.minOf fun c => frontierIdx (g1 c) t

/-- What `prefix` holds of times before the end of the window. -/
def beforeEnd : WithTop Int → Option Int
  | ⊤ => none
  | (w : Int) => if w < wEnd then Option.some w else none

/-- `evt` -/
def events : List Int :=
  List.insertionSort (· ≤ ·)
    (wEnd :: g.cams.flatMap fun c => (runMax 0 ((g1 c).map completion)).filterMap
      (beforeEnd wEnd)).dedup

def gapT : List (Int × Int) := (events g g1 wEnd).map fun w => (w, gap g g1 w)

end

/-- `tw`, `s2` and `smax`. -/
structure Shares where
  tw : Counter Int
  s2 : Counter Int
  smax : Counter Int

/-- The `while` loop from `a` on; `none` where the fuel ends before the loop does. -/
def splitSeconds (epoch gp w1 : Int) : Nat → Int → Shares → Option Shares
  | 0, a, s => if a < w1 then none else some s
  | fuel + 1, a, s =>
    if a < w1 then
      let sec := (a - epoch) / secondNs
      let b := min w1 (epoch + (sec + 1) * secondNs)
      splitSeconds epoch gp w1 fuel b
        { s with
          smax := s.smax.set sec (max (s.smax.get sec) gp)
          s2 := if 2 ≤ gp then s.s2.add sec (b - a) else s.s2 }
    else some s

/-- `zip(gap_t, gap_t[1:])`; every turn of the inner loop moves on, so the length of an
interval is fuel enough. -/
def shares (epoch : Int) : List ((Int × Int) × (Int × Int)) → Shares → Option Shares
  | [], s => some s
  | ((w0, gp), (w1, _)) :: rest, s =>
    (splitSeconds epoch gp w1 (w1 - w0).toNat w0 { s with tw := s.tw.add gp (w1 - w0) }).bind
      (shares epoch rest)

/-- `episodes` and `start`. -/
def episodes : List (Int × Int) → Option Int → List Int × Option Int
  | [], start => ([], start)
  | (w, gp) :: rest, start =>
    let start := if 2 ≤ gp ∧ start = none then some w else start
    if gp < 2 then
      match start with
      | some w0 => ((w - w0) :: (episodes rest none).1, (episodes rest none).2)
      | none => episodes rest none
    else episodes rest start

structure FrontierLag where
  shares : Shares
  episodes : List Int
  censored : Nat

/-- Item 3, with the episode that is still open at the end of the window. -/
def frontierLag (g : Group) (g1 : Cam → List (Option Nat)) (epoch wEnd : Int) :
    Option FrontierLag :=
  let gaps := gapT g g1 wEnd
  (shares epoch (gaps.zip gaps.tail) ⟨Dict.empty, Dict.empty, Dict.empty⟩).map fun s =>
    match episodes gaps none with
    | (es, some w0) => ⟨s, es ++ [wEnd - w0], 1⟩
    | (es, none) => ⟨s, es, 0⟩

theorem completion_nonneg (x : Option Nat) : 0 ≤ completion x := by
  cases x with
  | none => exact le_top
  | some w =>
    rw [completion]
    split
    · exact le_top
    · exact WithTop.coe_nonneg.mpr (Int.natCast_nonneg w)

theorem runMax_ge {m : WithTop Int} {xs : List (WithTop Int)} : ∀ p ∈ runMax m xs, m ≤ p := by
  induction xs generalizing m with
  | nil => exact fun p hp => absurd hp List.not_mem_nil
  | cons x xs ih =>
    refine List.forall_mem_cons.mpr ⟨le_max_left m x, fun p hp => ?_⟩
    exact le_trans (le_max_left m x) (ih p hp)

theorem runMax_pairwise (m : WithTop Int) (xs : List (WithTop Int)) :
    (runMax m xs).Pairwise (· ≤ ·) := by
  induction xs generalizing m with
  | nil => exact .nil
  | cons x xs ih => exact .cons runMax_ge (ih _)

theorem length_runMax (m : WithTop Int) (xs : List (WithTop Int)) :
    (runMax m xs).length = xs.length := by
  induction xs generalizing m with
  | nil => rfl
  | cons x xs ih => rw [runMax, List.length_cons, List.length_cons, ih]

/-- A running maximum is passed when everything up to it is. -/
theorem getElem_runMax_le {m t : WithTop Int} {xs : List (WithTop Int)} {f : Nat}
    (hf : f < (runMax m xs).length) :
    (runMax m xs)[f] ≤ t ↔ m ≤ t ∧ ∀ i (hi : i < xs.length), i ≤ f → xs[i] ≤ t := by
  induction xs generalizing m f with
  | nil => exact absurd hf (Nat.not_lt_zero f)
  | cons x xs ih =>
    have hhead : (∀ i (hi : i < (x :: xs).length), i ≤ f → (x :: xs)[i] ≤ t) ↔
        x ≤ t ∧ ∀ i (hi : i < xs.length), i + 1 ≤ f → xs[i] ≤ t := by
      constructor
      · exact fun h => ⟨h 0 (Nat.succ_pos _) (Nat.zero_le f),
          fun i hi hif => h (i + 1) (Nat.succ_lt_succ hi) hif⟩
      · rintro ⟨hx, hxs⟩ i hi hif
        cases i with
        | zero => exact hx
        | succ i => exact hxs i (Nat.lt_of_succ_lt_succ hi) hif
    rw [hhead]
    cases f with
    | zero =>
      show max m x ≤ t ↔ _
      rw [max_le_iff]
      exact ⟨fun h => ⟨h.1, h.2, fun i _ hi => absurd hi (Nat.not_succ_le_zero i)⟩,
        fun h => ⟨h.1, h.2.1⟩⟩
    | succ f =>
      simp only [runMax, List.getElem_cons_succ]
      rw [ih (Nat.lt_of_succ_lt_succ hf), max_le_iff, and_assoc]
      simp only [Nat.succ_le_succ_iff]

/-- `frontier_idx` is the last frame up to which all have completed by `t`, or -1. -/
theorem frontierIdx_spec (g1 : List (Option Nat)) (t : Int) :
    -1 ≤ frontierIdx g1 t ∧ frontierIdx g1 t < g1.length ∧
      ∀ f : Nat, f < g1.length → (f ≤ frontierIdx g1 t ↔
        ∀ i (hi : i < g1.length), i ≤ f → completion g1[i] ≤ (t : WithTop Int)) := by
  have hsorted := runMax_pairwise 0 (g1.map completion)
  have hlen : (runMax 0 (g1.map completion)).length = g1.length := by
    rw [length_runMax, List.length_map]
  have hle : bisectRight (runMax 0 (g1.map completion)) (t : WithTop Int) ≤ g1.length :=
    hlen ▸ bisect_le (separates_le hsorted _)
  refine ⟨by rw [frontierIdx]; omega, by rw [frontierIdx]; omega, fun f hf => ?_⟩
  have hlt := lt_bisectRight hsorted (x := (t : WithTop Int)) (hlen ▸ hf)
  have hindex : (f : Int) ≤ frontierIdx g1 t ↔
      f < bisectRight (runMax 0 (g1.map completion)) (t : WithTop Int) := by
    rw [frontierIdx]
    omega
  rw [hindex, hlt, getElem_runMax_le]
  simp only [List.length_map, List.getElem_map]
  constructor
  · exact And.right
  · intro hall
    exact ⟨le_trans (completion_nonneg _) (hall f hf (Nat.le_refl f)), hall⟩

def CompletedBy (x : Option Nat) (t : ℝ) : Prop := ∃ w : Int, completion x = w ∧ (w : ℝ) ≤ t

/-- `f` is the last frame up to which all have completed by `t`, or -1. -/
structure IsFrontier (g1 : List (Option Nat)) (t : ℝ) (f : Int) : Prop where
  lower : -1 ≤ f
  upper : f < g1.length
  iff : ∀ k : Nat, k < g1.length → (k ≤ f ↔
    ∀ i (hi : i < g1.length), i ≤ k → CompletedBy g1[i] t)

def GapAt (g : Group) (g1 : Cam → List (Option Nat)) (t : ℝ) (d : Int) : Prop :=
  ∃ f : Cam → Int, (∀ c ∈ g.cams, IsFrontier (g1 c) t (f c)) ∧ g.maxOf f - g.minOf f = d

theorem completedBy_iff (x : Option Nat) (t : ℝ) :
    CompletedBy x t ↔ completion x ≤ ((⌊t⌋ : Int) : WithTop Int) := by
  constructor
  · rintro ⟨w, hw, hle⟩
    rw [hw]
    exact WithTop.coe_le_coe.mpr (Int.le_floor.mpr hle)
  · intro hle
    obtain ⟨w, hw⟩ := WithTop.ne_top_iff_exists.mp (ne_top_of_le_ne_top WithTop.coe_ne_top hle)
    rw [← hw] at hle
    exact ⟨w, hw.symm, Int.le_floor.mp (WithTop.coe_le_coe.mp hle)⟩

theorem isFrontier_floor (g1 : List (Option Nat)) (t : ℝ) :
    IsFrontier g1 t (frontierIdx g1 ⌊t⌋) := by
  obtain ⟨hlower, hupper, hiff⟩ := frontierIdx_spec g1 ⌊t⌋
  refine ⟨hlower, hupper, fun k hk => ?_⟩
  simp only [completedBy_iff]
  exact hiff k hk

theorem IsFrontier.unique {g1 : List (Option Nat)} {t : ℝ} {f f' : Int} (h : IsFrontier g1 t f)
    (h' : IsFrontier g1 t f') : f = f' := by
  have hle {f f' : Int} (h : IsFrontier g1 t f) (h' : IsFrontier g1 t f') : f ≤ f' := by
    rcases lt_or_ge f 0 with hneg | hpos
    · have hlower := h'.lower
      omega
    · obtain ⟨k, rfl⟩ := Int.eq_ofNat_of_zero_le hpos
      have hk : k < g1.length := Int.ofNat_lt.mp h.upper
      exact (h'.iff k hk).mpr ((h.iff k hk).mp (Int.le_refl _))
  exact Int.le_antisymm (hle h h') (hle h' h)

/-- In continuous time the gap is the one at the last whole nanosecond. -/
theorem gapAt_iff (g : Group) (g1 : Cam → List (Option Nat)) (t : ℝ) (d : Int) :
    GapAt g g1 t d ↔ gap g g1 ⌊t⌋ = d := by
  constructor
  · rintro ⟨f, hf, hd⟩
    have heq (c : Cam) (hc : c ∈ g.cams) : frontierIdx (g1 c) ⌊t⌋ = f c :=
      (isFrontier_floor (g1 c) t).unique (hf c hc)
    rw [gap, g.maxOf_congr heq, g.minOf_congr heq, hd]
  · intro hd
    exact ⟨fun c => frontierIdx (g1 c) ⌊t⌋, fun c _ => isFrontier_floor (g1 c) t, hd⟩

/-! ## The events -/

section

variable {g : Group} {g1 : Cam → List (Option Nat)} {epoch wEnd : Int}

theorem mem_events {w : Int} : w ∈ events g g1 wEnd ↔
    w = wEnd ∨ w < wEnd ∧ ∃ c ∈ g.cams, (w : WithTop Int) ∈ runMax 0 ((g1 c).map completion) := by
  have hbefore (p : WithTop Int) : beforeEnd wEnd p = some w ↔ p = w ∧ w < wEnd := by
    cases p with
    | top => simp [beforeEnd]
    | coe q =>
      show (if q < wEnd then some q else none) = some w ↔ _
      split
      · next hq =>
        rw [Option.some_inj, WithTop.coe_inj]
        exact ⟨fun h => ⟨h, h ▸ hq⟩, And.left⟩
      · next hq =>
        refine iff_of_false (fun h => ?_) fun h => hq (WithTop.coe_inj.mp h.1 ▸ h.2)
        cases h
  rw [events, List.mem_insertionSort, List.mem_dedup, List.mem_cons, List.mem_flatMap]
  simp only [List.mem_filterMap, hbefore]
  constructor
  · rintro (rfl | ⟨c, hc, p, hp, rfl, hw⟩)
    · exact .inl rfl
    · exact .inr ⟨hw, c, hc, hp⟩
  · rintro (rfl | ⟨hw, c, hc, hp⟩)
    · exact .inl rfl
    · exact .inr ⟨c, hc, w, hp, rfl, hw⟩

theorem events_pairwise : (events g g1 wEnd).Pairwise (· < ·) := by
  have hle := List.pairwise_insertionSort (· ≤ ·)
    (wEnd :: g.cams.flatMap fun c => (runMax 0 ((g1 c).map completion)).filterMap
      (beforeEnd wEnd)).dedup
  have hnodup : (events g g1 wEnd).Nodup :=
    (List.perm_insertionSort (· ≤ ·) _).nodup_iff.mpr (List.nodup_dedup _)
  exact hle.imp₂ (fun a b hab hne => lt_of_le_of_ne hab hne) hnodup

/-- Between two events in a row no frontier moves. -/
theorem gap_between {w t : Int} (hwt : w ≤ t) (ht : t < wEnd)
    (hnone : ∀ x ∈ events g g1 wEnd, x ≤ t → x ≤ w) : gap g g1 t = gap g g1 w := by
  have heq (c : Cam) (hc : c ∈ g.cams) : frontierIdx (g1 c) t = frontierIdx (g1 c) w := by
    have hsorted := runMax_pairwise 0 ((g1 c).map completion)
    rw [frontierIdx, frontierIdx, bisectRight, bisectRight, bisect_eq (separates_le hsorted _),
      bisect_eq (separates_le hsorted _)]
    congr 3
    refine List.filter_congr fun p hp => ?_
    congr 1
    rw [decide_eq_decide, not_iff_not.symm, not_lt, not_lt]
    constructor
    · intro hpt
      obtain ⟨q, rfl⟩ := WithTop.ne_top_iff_exists.mp (ne_top_of_le_ne_top WithTop.coe_ne_top hpt)
      have hqt := WithTop.coe_le_coe.mp hpt
      have hq : q ∈ events g g1 wEnd := mem_events.mpr (.inr ⟨by omega, c, hc, hp⟩)
      exact WithTop.coe_le_coe.mpr (hnone q hq hqt)
    · intro hpw
      exact le_trans hpw (WithTop.coe_le_coe.mpr hwt)
  rw [gap, gap, g.maxOf_congr heq, g.minOf_congr heq]

/-- The gaps at a list of events are the steps the gap takes in continuous time. -/
theorem steps_events {a : Int} {l : List Int} (hsorted : (a :: l).Pairwise (· < ·))
    (hend : ∀ x ∈ l, x ≤ wEnd) (hall : ∀ x ∈ events g g1 wEnd, x ≤ a ∨ x ∈ l) :
    Timeline.Steps (fun t : ℝ => gap g g1 ⌊t⌋) (a, gap g g1 a)
      (l.map fun w => (w, gap g g1 w)) := by
  induction l generalizing a with
  | nil => trivial
  | cons b l ih =>
    obtain ⟨ha, hl⟩ := List.pairwise_cons.mp hsorted
    have hab := ha b List.mem_cons_self
    have hb := (List.pairwise_cons.mp hl).1
    refine ⟨hab, fun t hat htb => ?_, ih hl (fun x hx => hend x (List.mem_cons_of_mem _ hx))
      fun x hx => ?_⟩
    · have hfloor : ⌊t⌋ < b := Int.floor_lt.mpr htb
      have hbEnd := hend b List.mem_cons_self
      have hbefore : ⌊t⌋ < wEnd := by omega
      refine gap_between (Int.le_floor.mpr hat) hbefore fun x hx hxt => ?_
      rcases hall x hx with hxa | hxl
      · exact hxa
      · rcases List.mem_cons.mp hxl with rfl | hxl
        · omega
        · have hbx := hb x hxl
          omega
    · rcases hall x hx with hxa | hxl
      · exact .inl (by omega)
      · exact (List.mem_cons.mp hxl).imp_left fun hxb => Int.le_of_eq hxb

theorem last_events {a : Int} {l : List Int} (f : Int → Int)
    (hsorted : (a :: l).Pairwise (· < ·)) (hend : ∀ x ∈ a :: l, x ≤ wEnd) (hmem : wEnd ∈ a :: l) :
    Timeline.lastFrom (a, f a) (l.map fun w => (w, f w)) = wEnd := by
  induction l generalizing a with
  | nil => exact (List.mem_singleton.mp hmem).symm
  | cons b l ih =>
    obtain ⟨ha, hl⟩ := List.pairwise_cons.mp hsorted
    have hab := ha b List.mem_cons_self
    have hb := hend b (List.mem_cons_of_mem _ List.mem_cons_self)
    have hne : wEnd ≠ a := by omega
    rw [List.map_cons, Timeline.lastFrom_cons]
    exact ih hl (fun x hx => hend x (List.mem_cons_of_mem _ hx))
      ((List.mem_cons.mp hmem).resolve_left hne)

end

/-! ## The three loops -/

/-- The inner loop ends, and spreads the whole interval over the seconds. -/
theorem splitSeconds_spec (epoch gp w1 : Int) {fuel : Nat} {a : Int} (hle : a ≤ w1)
    (hfuel : w1 - a ≤ fuel) (s : Shares) :
    ∃ s', splitSeconds epoch gp w1 fuel a s = some s' ∧ s'.tw = s.tw ∧
      s'.s2.total (fun _ => true) =
        s.s2.total (fun _ => true) + if 2 ≤ gp then w1 - a else 0 := by
  induction fuel generalizing a s with
  | zero =>
    have ha : a = w1 := by omega
    subst ha
    rw [splitSeconds, if_neg (Int.lt_irrefl a), Int.sub_self, ite_self, Int.add_zero]
    exact ⟨s, rfl, rfl, rfl⟩
  | succ fuel ih =>
    rw [splitSeconds]
    split
    · next hlt =>
      dsimp only
      have hsec := Int.lt_ediv_add_one_mul_self (a - epoch) (show 0 < secondNs by decide)
      generalize (a - epoch) / secondNs = sec at hsec
      -- the next boundary is behind `a`
      have hab : a < min w1 (epoch + (sec + 1) * secondNs) := by omega
      have hb : min w1 (epoch + (sec + 1) * secondNs) ≤ w1 := Int.min_le_left _ _
      generalize min w1 (epoch + (sec + 1) * secondNs) = b at hab hb
      obtain ⟨s', hs', htw, htotal⟩ := ih hb (by omega)
        { s with
          smax := s.smax.set sec (max (s.smax.get sec) gp)
          s2 := if 2 ≤ gp then s.s2.add sec (b - a) else s.s2 }
      refine ⟨s', hs', htw, ?_⟩
      rw [htotal]
      split
      · rw [Counter.total_add, if_pos rfl]
        omega
      · rfl
    · have ha : a = w1 := by omega
      subst ha
      rw [Int.sub_self, ite_self, Int.add_zero]
      exact ⟨s, rfl, rfl, rfl⟩

section

open Timeline

variable {v : ℝ → Int} {a : Int × Int} {l : List (Int × Int)}

theorem shares_spec (epoch : Int) (h : Steps v a l) (s : Shares) :
    ∃ s', shares epoch ((a :: l).zip l) s = some s' ∧
      (∀ P, s'.tw.total P = s.tw.total P + timeIn P a l) ∧
      (∀ d, s'.tw.get d = s.tw.get d + timeIn (fun x => decide (x = d)) a l) ∧
      s'.s2.total (fun _ => true) =
        s.s2.total (fun _ => true) + timeIn (fun x => decide (2 ≤ x)) a l := by
  induction l generalizing a s with
  | nil => exact ⟨s, rfl, fun _ => (Int.add_zero _).symm, fun _ => (Int.add_zero _).symm,
      (Int.add_zero _).symm⟩
  | cons b l ih =>
    obtain ⟨hab, -, hl⟩ := h
    obtain ⟨s₁, hs₁, htw, htotal⟩ := splitSeconds_spec epoch a.2 b.1 (Int.le_of_lt hab)
      (Int.self_le_toNat (b.1 - a.1)) { s with tw := s.tw.add a.2 (b.1 - a.1) }
    obtain ⟨s', hs', hP, hget, hsum⟩ := ih hl s₁
    refine ⟨s', ?_, fun P => ?_, fun d => ?_, ?_⟩
    · rw [List.zip_cons_cons, shares, hs₁, Option.bind_some]
      exact hs'
    · rw [hP, htw, Counter.total_add, timeIn, Int.add_assoc]
    · rw [hget, htw, Counter.get_add, timeIn, Int.add_assoc]
      by_cases hd : d = a.2
      · rw [if_pos hd, if_pos (decide_eq_true hd.symm)]
      · rw [if_neg hd, if_neg fun h => hd (of_decide_eq_true h).symm]
    · rw [hsum, htotal, timeIn, Int.add_assoc]
      simp only [decide_eq_true_eq]

/-- A gap of two or more opens an episode where none is open. -/
theorem episodes_open {gp : Int} (h : 2 ≤ gp) (w : Int) (rest : List (Int × Int))
    (start : Option Int) :
    episodes ((w, gp) :: rest) start = episodes rest (some (start.getD w)) := by
  have hnot : ¬ gp < 2 := by omega
  rw [episodes]
  cases start with
  | none => simp [h, hnot]
  | some w0 => simp [hnot]

/-- A smaller gap ends the one that is open. -/
theorem episodes_close {gp : Int} (h : gp < 2) (w : Int) (rest : List (Int × Int))
    (start : Option Int) :
    (episodes ((w, gp) :: rest) start).1.sum =
        start.elim 0 (w - ·) + (episodes rest none).1.sum ∧
      (episodes ((w, gp) :: rest) start).2 = (episodes rest none).2 := by
  have hnot : ¬ 2 ≤ gp := by omega
  rw [episodes]
  cases start with
  | none => simp [h, hnot]
  | some w0 => simp [h]

/-- The episodes, with the one that is open from `start` on and the one still open at the
end, take up the time with a gap of two or more. -/
theorem episodes_spec (h : Steps v a l) (start : Option Int) :
    (episodes (a :: l) start).1.sum + (episodes (a :: l) start).2.elim 0 (lastFrom a l - ·) =
        start.elim 0 (a.1 - ·) + timeIn (fun x => decide (2 ≤ x)) a l ∧
      ((episodes (a :: l) start).2.isSome ↔
        2 ≤ ((a :: l).getLast (List.cons_ne_nil a l)).2) := by
  obtain ⟨w, gp⟩ := a
  induction l generalizing w gp start with
  | nil =>
    rw [timeIn, Int.add_zero, List.getLast_singleton]
    by_cases hgp : 2 ≤ gp
    · rw [episodes_open hgp]
      cases start with
      | none => simp [episodes, lastFrom, hgp]
      | some w0 => simp [episodes, lastFrom, hgp]
    · obtain ⟨hsum, hopen⟩ := episodes_close (Int.not_le.mp hgp) w [] start
      rw [hsum, hopen]
      simp [episodes, hgp]
  | cons b l ih =>
    obtain ⟨w', gp'⟩ := b
    rw [timeIn, lastFrom_cons, List.getLast_cons (List.cons_ne_nil _ _)]
    by_cases hgp : 2 ≤ gp
    · obtain ⟨hsum, hopen⟩ := ih (some (start.getD w)) w' gp' h.2.2
      rw [episodes_open hgp, hsum, if_pos (decide_eq_true hgp)]
      refine ⟨?_, hopen⟩
      cases start with
      | none => simp
      | some w0 =>
        simp only [Option.getD_some, Option.elim_some]
        omega
    · obtain ⟨hsum, hopen⟩ := ih none w' gp' h.2.2
      obtain ⟨hclose, hleft⟩ := episodes_close (Int.not_le.mp hgp) w ((w', gp') :: l) start
      rw [hclose, hleft, Int.add_assoc, hsum, if_neg (by simpa using hgp)]
      refine ⟨?_, hopen⟩
      simp

end

theorem exists_events (g : Group) (g1 : Cam → List (Option Nat)) (wEnd : Int) :
    ∃ first rest, events g g1 wEnd = first :: rest ∧
      Timeline.Steps (fun t : ℝ => gap g g1 ⌊t⌋) (first, gap g g1 first)
        (rest.map fun w => (w, gap g g1 w)) ∧
      Timeline.lastFrom (first, gap g g1 first) (rest.map fun w => (w, gap g g1 w)) = wEnd := by
  have hsorted : (events g g1 wEnd).Pairwise (· < ·) := events_pairwise
  have hmem : wEnd ∈ events g g1 wEnd := mem_events.mpr (.inl rfl)
  have hend : ∀ x ∈ events g g1 wEnd, x ≤ wEnd := fun x hx =>
    (mem_events.mp hx).elim Int.le_of_eq fun h => Int.le_of_lt h.1
  obtain ⟨first, rest, heq⟩ := List.exists_cons_of_ne_nil (List.ne_nil_of_mem hmem)
  have hall : ∀ x ∈ events g g1 wEnd, x ≤ first ∨ x ∈ rest := fun x hx =>
    (List.mem_cons.mp (heq ▸ hx)).imp_left Int.le_of_eq
  rw [heq] at hsorted hmem hend
  exact ⟨first, rest, heq, steps_events hsorted (List.forall_mem_cons.mp hend).2 hall,
    last_events (gap g g1) hsorted hend hmem⟩

/-- The gap recorded at the last event is the one at the end of the window. -/
theorem getLast_gap {f : Int → Int} {a wEnd : Int} {l : List Int}
    (h : Timeline.lastFrom (a, f a) (l.map fun w => (w, f w)) = wEnd) :
    (((a, f a) :: l.map fun w => (w, f w)).getLast (List.cons_ne_nil _ _)).2 = f wEnd := by
  have hlast := List.getLast_mem
    (List.cons_ne_nil (a, f a) (l.map fun w => (w, f w)))
  rw [← h, Timeline.lastFrom]
  rcases List.mem_cons.mp hlast with heq | hmem
  · rw [heq]
  · obtain ⟨w, -, heq⟩ := List.mem_map.mp hmem
    rw [← heq]

/-- The three summaries of the frontier lag agree with one another and with the gap in
continuous time, for any completion times. -/
theorem frontier_lag_accounting (g : Group) (g1 : Cam → List (Option Nat)) (epoch wEnd : Int) :
    (∀ c ∈ g.cams, ∀ t : Int, -1 ≤ frontierIdx (g1 c) t ∧ frontierIdx (g1 c) t < (g1 c).length ∧
      ∀ f : Nat, f < (g1 c).length → (f ≤ frontierIdx (g1 c) t ↔
        ∀ i (hi : i < (g1 c).length), i ≤ f → completion (g1 c)[i] ≤ (t : WithTop Int))) ∧
    ∃ first rest lag, events g g1 wEnd = first :: rest ∧
      frontierLag g g1 epoch wEnd = some lag ∧
      (∀ d, 0 ≤ lag.shares.tw.get d ∧
        MeasureTheory.volume {t : ℝ | first ≤ t ∧ t < wEnd ∧ GapAt g g1 t d} =
          ENNReal.ofReal (lag.shares.tw.get d : Int)) ∧
      lag.shares.s2.total (fun _ => true) = lag.shares.tw.total (fun d => decide (2 ≤ d)) ∧
      lag.episodes.sum = lag.shares.tw.total (fun d => decide (2 ≤ d)) ∧
      (lag.censored = 1 ↔ 2 ≤ gap g g1 wEnd) ∧ (lag.censored = 0 ↔ gap g g1 wEnd < 2) := by
  refine ⟨fun c _ t => frontierIdx_spec (g1 c) t, ?_⟩
  obtain ⟨first, rest, hevents, hsteps, hlast⟩ := exists_events g g1 wEnd
  obtain ⟨s, hs, htotal, hget, hs2⟩ :=
    shares_spec epoch hsteps ⟨Dict.empty, Dict.empty, Dict.empty⟩
  obtain ⟨hsum, hopen⟩ := episodes_spec hsteps none
  rw [getLast_gap hlast] at hopen
  have hgaps : gapT g g1 wEnd =
      (first, gap g g1 first) :: rest.map fun w => (w, gap g g1 w) := by
    rw [gapT, hevents, List.map_cons]
  have htw := htotal fun d => decide (2 ≤ d)
  rw [Counter.total_empty, Int.zero_add] at htw hs2
  have hshares (d : Int) : 0 ≤ s.tw.get d ∧
      MeasureTheory.volume {t : ℝ | first ≤ t ∧ t < wEnd ∧ GapAt g g1 t d} =
        ENNReal.ofReal (s.tw.get d : Int) := by
    have hvolume := Timeline.volume_timeIn (P := fun x => decide (x = d)) hsteps
    rw [hlast] at hvolume
    simp only [decide_eq_true_eq] at hvolume
    rw [hget d, Counter.get_empty, Int.zero_add]
    refine ⟨hsteps.timeIn_nonneg, ?_⟩
    simp only [gapAt_iff]
    exact hvolume
  rw [frontierLag, hgaps, List.tail_cons, hs, Option.map_some]
  generalize episodes ((first, gap g g1 first) :: rest.map fun w => (w, gap g g1 w)) none = es
    at hsum hopen
  obtain ⟨es, start⟩ := es
  cases start with
  | none =>
    have hnot : ¬ 2 ≤ gap g g1 wEnd := mt hopen.mpr (by simp)
    refine ⟨first, rest, _, hevents, rfl, hshares, by rw [hs2, htw], ?_, ?_, ?_⟩
    · simpa [htw] using hsum
    · exact iff_of_false (by simp) hnot
    · exact iff_of_true rfl (by omega)
  | some w0 =>
    have hge : 2 ≤ gap g g1 wEnd := hopen.mp rfl
    refine ⟨first, rest, _, hevents, rfl, hshares, by rw [hs2, htw], ?_, ?_, ?_⟩
    · rw [List.sum_append, List.sum_singleton, htw]
      simpa [hlast] using hsum
    · exact iff_of_true rfl hge
    · exact iff_of_false (by simp) (by omega)

end Fusion
end P5G
