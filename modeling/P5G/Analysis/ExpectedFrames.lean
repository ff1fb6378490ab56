import P5G.Analysis.FusionLoad

/-!
# The expected frames of a group

Which base instants `load` expects, against those at which every member
captures.
-/

namespace P5G
namespace Fusion

theorem FrameRate.fps_pos (f : FrameRate) : 0 < f.fps :=
  Nat.pos_of_dvd_of_pos f.divides (by decide)

theorem FrameRate.step_pos (f : FrameRate) : 0 < f.step :=
  Nat.div_pos (Nat.le_of_dvd (by decide) f.divides) f.fps_pos

namespace SenderLogs

variable (s : SenderLogs) (g : Group)

theorem step_pos (c : Cam) : 0 < s.step c := Int.natCast_pos.mpr (s.rate c).step_pos

theorem mem_range {stop step k : Int} (hstep : 0 < step) :
    k ∈ range stop step ↔ 0 ≤ k ∧ k < stop ∧ step ∣ k := by
  have hcount (i : Nat) : i < ((stop + step - 1) / step).toNat ↔ (i : Int) * step < stop := by
    have hle := Int.le_ediv_iff_mul_le (a := (i : Int) + 1) (b := stop + step - 1) hstep
    rw [add_mul, one_mul] at hle
    omega
  simp only [range, List.mem_map, List.mem_range, hcount]
  constructor
  · rintro ⟨i, hi, rfl⟩
    exact ⟨Int.mul_nonneg (Int.natCast_nonneg i) hstep.le, hi, Int.dvd_mul_left _ _⟩
  · rintro ⟨hk, hlt, j, rfl⟩
    have hj : 0 ≤ j := nonneg_of_mul_nonneg_right hk hstep
    obtain ⟨i, rfl⟩ := Int.eq_ofNat_of_zero_le hj
    exact ⟨i, by rwa [mul_comm], mul_comm _ _⟩

theorem exists_stepG : ∃ c ∈ g.cams, s.stepG g = s.step c := (g.maxOf_spec s.step).1

theorem stepG_pos : 0 < s.stepG g := by
  obtain ⟨c, -, hc⟩ := s.exists_stepG g
  rw [hc]
  exact s.step_pos c

def firstIndex (warmup : Int) : Int := max 0 (-(-warmup / basePeriodNs))

def lastIndex : Int := (s.durationS * secondNs - 1) / basePeriodNs

theorem inWindow_iff {warmup k : Int} (hk : 0 ≤ k) :
    s.inWindow warmup k ↔ firstIndex warmup ≤ k ∧ k ≤ s.lastIndex := by
  have hlast := Int.le_ediv_iff_mul_le (a := k) (b := s.durationS * secondNs - 1)
    (show 0 < basePeriodNs by decide)
  have hfirst := Int.le_ediv_iff_mul_le (a := -k) (b := -warmup) (show 0 < basePeriodNs by decide)
  rw [neg_mul] at hfirst
  rw [inWindow, firstIndex, lastIndex]
  omega

theorem firstIndex_nonneg (warmup : Int) : 0 ≤ firstIndex warmup := le_max_left _ _

/-- The base instants at which every member has a slot. -/
def Common (k : Int) : Prop := ∀ c ∈ g.cams, ∃ j : Int, 0 ≤ j ∧ k = s.step c * j

theorem common_iff {k : Int} (hk : 0 ≤ k) : s.Common g k ↔ ∀ c ∈ g.cams, s.step c ∣ k := by
  refine forall₂_congr fun c _ => ⟨fun ⟨j, _, hj⟩ => ⟨j, hj⟩, fun ⟨j, hj⟩ => ⟨j, ?_, hj⟩⟩
  rw [hj] at hk
  exact nonneg_of_mul_nonneg_right hk (s.step_pos c)

theorem mem_expected {warmup k : Int} :
    k ∈ s.expected g warmup ↔ 0 ≤ k ∧ k ≤ s.durationS * 30 ∧ s.stepG g ∣ k ∧
      firstIndex warmup ≤ k ∧ k ≤ s.lastIndex := by
  have hpos := s.stepG_pos g
  have hbase : ((baseFps : Nat) : Int) = 30 := rfl
  rw [expected, List.mem_filter, mem_range hpos, decide_eq_true_iff, hbase]
  constructor
  · rintro ⟨⟨hk, hlt, hdvd⟩, hin⟩
    exact ⟨hk, by omega, hdvd, (s.inWindow_iff hk).mp hin⟩
  · rintro ⟨hk, hle, hdvd, hin⟩
    exact ⟨⟨hk, by omega, hdvd⟩, (s.inWindow_iff hk).mpr hin⟩

/-- The base instants common to all members are its multiples. -/
def commonStep : Int := ((g.cams.map fun c => (s.rate c).step).foldr Nat.lcm 1 : Nat)

theorem commonStep_dvd_iff {k : Int} :
    s.commonStep g ∣ k ↔ ∀ c ∈ g.cams, s.step c ∣ k := by
  have hfold (cs : List Cam) :
      (((cs.map fun c => (s.rate c).step).foldr Nat.lcm 1 : Nat) : Int) ∣ k ↔
        ∀ c ∈ cs, s.step c ∣ k := by
    induction cs with
    | nil => simp
    | cons c cs ih =>
      rw [List.forall_mem_cons, ← ih, List.map_cons, List.foldr_cons, Int.natCast_dvd,
        Int.natCast_dvd, step, Int.natCast_dvd, Nat.lcm_dvd_iff]
  exact hfold g.cams

theorem commonStep_pos : 0 < s.commonStep g := by
  have hfold (cs : List Cam) : 0 < (cs.map fun c => (s.rate c).step).foldr Nat.lcm 1 := by
    induction cs with
    | nil => exact Nat.one_pos
    | cons c cs ih => exact Nat.lcm_pos (s.rate c).step_pos ih
  exact Int.natCast_pos.mpr (hfold g.cams)

def firstExpected (warmup : Int) : Int :=
  s.stepG g * ((firstIndex warmup + s.stepG g - 1) / s.stepG g)

/-- The last instant before the end of the run at which every member has a slot. -/
def lastCommon : Int := s.commonStep g * (s.lastIndex / s.commonStep g)

/-- The largest step is a multiple of every step, or no more than one instant is left of
it, and that one a common one; and no common instant lies behind `30 * duration`. -/
structure Exact (warmup : Int) : Prop where
  step : (∀ c ∈ g.cams, s.step c ∣ s.stepG g) ∨
    min (s.durationS * 30) s.lastIndex < s.firstExpected g warmup ∨
    ((∀ c ∈ g.cams, s.step c ∣ s.firstExpected g warmup) ∧
      min (s.durationS * 30) s.lastIndex < s.firstExpected g warmup + s.stepG g)
  length : s.lastCommon g ≤ s.durationS * 30 ∨ s.lastCommon g < firstIndex warmup

/-- Up to 3333 seconds the truncated period loses less than one base instant. -/
theorem Exact.of_short {warmup : Int} (hdur : s.durationS ≤ 3333)
    (hstep : ∀ c ∈ g.cams, s.step c ∣ s.stepG g) : s.Exact g warmup where
  step := .inl hstep
  length := by
    have hlast : s.lastCommon g ≤ s.lastIndex := Int.mul_ediv_self_le (s.commonStep_pos g).ne'
    have hshort : s.lastIndex < s.durationS * 30 + 1 := by
      rw [lastIndex, Int.ediv_lt_iff_lt_mul (by decide), secondNs, basePeriodNs]
      omega
    exact .inl (by omega)

theorem firstExpected_spec (warmup : Int) :
    firstIndex warmup ≤ s.firstExpected g warmup ∧ s.stepG g ∣ s.firstExpected g warmup ∧
      ∀ k, s.stepG g ∣ k → firstIndex warmup ≤ k → s.firstExpected g warmup ≤ k := by
  have hpos := s.stepG_pos g
  refine ⟨?_, Int.dvd_mul_right _ _, ?_⟩
  · have hmod := Int.emod_add_mul_ediv (firstIndex warmup + s.stepG g - 1) (s.stepG g)
    have hlt := Int.emod_lt_of_pos (firstIndex warmup + s.stepG g - 1) hpos
    rw [firstExpected]
    omega
  · rintro k ⟨j, rfl⟩ hk
    have hle : (firstIndex warmup + s.stepG g - 1) / s.stepG g ≤ j := by
      have hlt : (firstIndex warmup + s.stepG g - 1) / s.stepG g < j + 1 := by
        rw [Int.ediv_lt_iff_lt_mul hpos, add_mul, one_mul, mul_comm j]
        omega
      omega
    exact Int.mul_le_mul_of_nonneg_left hle hpos.le

theorem lastCommon_spec :
    s.lastCommon g ≤ s.lastIndex ∧ s.commonStep g ∣ s.lastCommon g ∧
      ∀ k, s.commonStep g ∣ k → k ≤ s.lastIndex → k ≤ s.lastCommon g := by
  refine ⟨Int.mul_ediv_self_le (s.commonStep_pos g).ne', Int.dvd_mul_right _ _, ?_⟩
  rintro k ⟨j, rfl⟩ hk
  have hle : j ≤ s.lastIndex / s.commonStep g := by
    rw [Int.le_ediv_iff_mul_le (s.commonStep_pos g), mul_comm]
    exact hk
  exact Int.mul_le_mul_of_nonneg_left hle (s.commonStep_pos g).le

/-- The instants that should be expected, as multiples of a common step. -/
theorem common_inWindow_iff (warmup k : Int) : (0 ≤ k ∧ s.inWindow warmup k ∧ s.Common g k) ↔
    firstIndex warmup ≤ k ∧ k ≤ s.lastIndex ∧ s.commonStep g ∣ k := by
  have hn := firstIndex_nonneg warmup
  rw [commonStep_dvd_iff]
  constructor
  · rintro ⟨hk, hin, hcommon⟩
    obtain ⟨hlo, hhi⟩ := (s.inWindow_iff hk).mp hin
    exact ⟨hlo, hhi, (s.common_iff g hk).mp hcommon⟩
  · rintro ⟨hlo, hhi, hdvd⟩
    have hk : 0 ≤ k := le_trans hn hlo
    exact ⟨hk, (s.inWindow_iff hk).mpr ⟨hlo, hhi⟩, (s.common_iff g hk).mpr hdvd⟩

/-- Expected instants in a row make every step divide the largest one; the last common
instant tells whether the list is long enough. -/
theorem exact_of_expected {warmup : Int}
    (h : ∀ k, k ∈ s.expected g warmup ↔
      firstIndex warmup ≤ k ∧ k ≤ s.lastIndex ∧ s.commonStep g ∣ k) : s.Exact g warmup := by
  simp only [mem_expected] at h
  obtain ⟨hfirst, hfirstDvd, -⟩ := s.firstExpected_spec g warmup
  obtain ⟨hlast, hlastDvd, -⟩ := s.lastCommon_spec g
  have hn := firstIndex_nonneg warmup
  have hpos := s.stepG_pos g
  refine ⟨?_, ?_⟩
  · by_cases hempty : min (s.durationS * 30) s.lastIndex < s.firstExpected g warmup
    · exact .inr (.inl hempty)
    · have hfirstIn := (h (s.firstExpected g warmup)).mp
        ⟨le_trans hn hfirst, by omega, hfirstDvd, hfirst, by omega⟩
      have hfirstAll := (s.commonStep_dvd_iff g).mp hfirstIn.2.2
      by_cases hnext : min (s.durationS * 30) s.lastIndex < s.firstExpected g warmup + s.stepG g
      · exact .inr (.inr ⟨hfirstAll, hnext⟩)
      · have hnextIn := (h (s.firstExpected g warmup + s.stepG g)).mp
          ⟨by omega, by omega, Int.dvd_add hfirstDvd (Int.dvd_refl _), by omega, by omega⟩
        have hnextAll := (s.commonStep_dvd_iff g).mp hnextIn.2.2
        exact .inl fun c hc => (Int.dvd_add_right (hfirstAll c hc)).mp (hnextAll c hc)
  · by_contra hlong
    obtain ⟨hlong, hwarm⟩ := not_or.mp hlong
    have hin := (h (s.lastCommon g)).mpr ⟨by omega, hlast, hlastDvd⟩
    exact hlong hin.2.1

/-- Between a multiple and the next one there is no other. -/
theorem eq_of_dvd_of_lt {d a k : Int} (hpos : 0 < d) (hk : d ∣ k) (ha : d ∣ a) (hle : a ≤ k)
    (hlt : k < a + d) : k = a := by
  obtain ⟨j, hj⟩ := Int.dvd_sub hk ha
  have hj1 : d * j < d * 1 := by omega
  have hj0 : 0 ≤ d * j := by omega
  have hjlt := Int.lt_of_mul_lt_mul_left hj1 hpos.le
  have hjge := nonneg_of_mul_nonneg_right hj0 hpos
  have hzero : j = 0 := by omega
  rw [hzero, mul_zero] at hj
  omega

theorem Exact.mem_expected_iff {warmup : Int} (h : s.Exact g warmup) (k : Int) :
    k ∈ s.expected g warmup ↔
      firstIndex warmup ≤ k ∧ k ≤ s.lastIndex ∧ s.commonStep g ∣ k := by
  obtain ⟨c₀, hc₀, hg⟩ := s.exists_stepG g
  obtain ⟨-, hfirstDvd, hfirstLe⟩ := s.firstExpected_spec g warmup
  obtain ⟨-, -, hlastLe⟩ := s.lastCommon_spec g
  have hn := firstIndex_nonneg warmup
  rw [mem_expected]
  constructor
  · rintro ⟨-, hdur, hdvd, hlo, hhi⟩
    refine ⟨hlo, hhi, (s.commonStep_dvd_iff g).mpr ?_⟩
    have hge := hfirstLe k hdvd hlo
    rcases h.step with hall | hempty | ⟨hall, hone⟩
    · exact fun c hc => (hall c hc).trans hdvd
    · omega
    · rw [eq_of_dvd_of_lt (s.stepG_pos g) hdvd hfirstDvd hge (by omega)]
      exact hall
  · rintro ⟨hlo, hhi, hdvd⟩
    have hle := hlastLe k hdvd hhi
    refine ⟨le_trans hn hlo, ?_, ?_, hlo, hhi⟩
    · rcases h.length with hshort | hwarm
      · omega
      · omega
    · exact hg ▸ (s.commonStep_dvd_iff g).mp hdvd c₀ hc₀

theorem expected_iff_exact (warmup : Int) :
    (∀ k, k ∈ s.expected g warmup ↔ 0 ≤ k ∧ s.inWindow warmup k ∧ s.Common g k) ↔
      s.Exact g warmup := by
  simp only [common_inWindow_iff]
  exact ⟨s.exact_of_expected g, fun h k => h.mem_expected_iff s g k⟩

end SenderLogs

def SenderLogs.slotRow (s : SenderLogs) (c : Cam) (k : Int) : Option TxFrameRow :=
  (s.frames c).reverse.find? fun x => x.gridSlot * s.step c = k

namespace Recording

variable (r : Recording) (g : Group) (warmup : Int) (c : Cam) (k : Int)

theorem logged_get? :
    (r.logged g c).get? k = (r.sender.slotRow c k).map (r.frame g c) :=
  Dict.get?_foldl_set (fun x : TxFrameRow => x.gridSlot * r.sender.step c) (r.frame g c)
    (r.sender.frames c) k

theorem setDefault_get? (d : Dict Int Frame) (j : Int) :
    (r.setDefault d j).get? k =
      (d.get? k).or (if k = j then some (r.sender.placeholder k) else none) := by
  rw [setDefault]
  by_cases hk : k = j
  · subst hk
    cases hget : d.get? k with
    | none => rw [if_neg (by simp), Dict.get?_set_self, if_pos rfl]; rfl
    | some f => rw [if_pos (by simp), hget]; rfl
  · rw [if_neg hk, Option.or_none]
    split
    · rfl
    · rw [Dict.get?_set_ne hk]

/-- A frame that was logged is not replaced, and the others are placeholders of the
expected ones. -/
theorem frames_get? :
    (r.frames g warmup c).get? k = ((r.sender.slotRow c k).map (r.frame g c)).or
      (if k ∈ r.sender.expected g warmup then some (r.sender.placeholder k) else none) := by
  have hfold (ks : List Int) (d : Dict Int Frame) : (ks.foldl r.setDefault d).get? k =
      (d.get? k).or (if k ∈ ks then some (r.sender.placeholder k) else none) := by
    induction ks generalizing d with
    | nil => exact Option.or_none.symm
    | cons j ks ih =>
      rw [List.foldl_cons, ih, setDefault_get?, Option.or_assoc]
      by_cases hk : k = j
      · rw [if_pos hk, if_pos (List.mem_cons.mpr (.inl hk)), Option.some_or]
      · rw [if_neg hk, Option.none_or]
        simp only [List.mem_cons, hk, false_or]
  rw [← logged_get?]
  exact hfold _ _

/-- The expected frames are the base instants of the window at which every member has
a slot, and an absent frame is one its own member's schedule asks for, exactly when
the steps and the length of the run are as `Exact` says. -/
theorem expected_frames_iff :
    ((∀ k, k ∈ r.sender.expected g warmup ↔
        0 ≤ k ∧ r.sender.inWindow warmup k ∧ r.sender.Common g k) ∧
      ∀ c ∈ g.cams, ∀ k f, (r.frames g warmup c).get? k = some f → f.absent = true →
        ∃ j : Int, 0 ≤ j ∧ k = r.sender.step c * j) ↔
      r.sender.Exact g warmup := by
  rw [← SenderLogs.expected_iff_exact]
  refine ⟨And.left, fun hexpected => ⟨hexpected, fun c hc k f hf habsent => ?_⟩⟩
  rw [frames_get?] at hf
  cases hrow : r.sender.slotRow c k with
  | some x =>
    -- a logged frame is not absent
    rw [hrow] at hf
    cases hf
    cases habsent
  | none =>
    rw [hrow, Option.map_none, Option.none_or] at hf
    have hk : k ∈ r.sender.expected g warmup := by
      by_contra hnot
      rw [if_neg hnot] at hf
      cases hf
    exact ((hexpected k).mp hk).2.2 c hc

end Recording

theorem twoCams_nodup : ["cam0", "cam1"].Nodup := by decide

/-- A camera of 15 fps and one of 10, and a run of one second. -/
def mixedRates : SenderLogs where
  epoch := 0
  durationS := 1
  cams := ["cam0", "cam1"]
  nodup := twoCams_nodup
  rate c := if c = "cam0" then ⟨15, by decide⟩ else ⟨10, by decide⟩
  rtp _ := []
  frames _ := []

def bothCams : Group := ⟨"cam0", ["cam1"], by decide⟩

/-- Base instant 3 is expected of a camera that captures at the even ones only, and its
frame there counts as absent. -/
theorem expected_frames_mixedRates :
    ¬ ∀ (r : Recording) (g : Group) (warmup : Int),
      (∀ k, k ∈ r.sender.expected g warmup ↔
        0 ≤ k ∧ r.sender.inWindow warmup k ∧ r.sender.Common g k) ∧
      ∀ c ∈ g.cams, ∀ k f, (r.frames g warmup c).get? k = some f → f.absent = true →
        ∃ j : Int, 0 ≤ j ∧ k = r.sender.step c * j := by
  intro h
  have hin : (3 : Int) ∈ mixedRates.expected bothCams 0 := by decide
  have hcommon := (((h ⟨mixedRates, fun _ => [], [], []⟩ bothCams 0).1 3).mp hin).2.2
  obtain ⟨j, -, hj⟩ := hcommon "cam0" (by decide)
  have hstep : mixedRates.step "cam0" = 2 := by decide
  rw [hstep] at hj
  omega

end Fusion
end P5G
