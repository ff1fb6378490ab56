import P5G.Analysis.FusionLoad
import P5G.Combinations
import P5G.Counter

/-!
# Deadlines of a group

Item 1 of `analyse_group` in fusion_report.py: the latencies of the members and
of the group, the shares of frames in time, by camera, for the group and for
every smaller group of its members, and the misses by intervals of 10 s.  The
rounding of the printed shares is left out.
-/

namespace P5G
namespace Fusion

section

variable (g : Group) (frame : Cam → Int → Frame) (deadline : ℚ) (E : List Int)

/-- `cap[k]` -/
def groupCap (k : Int) : Int := g.minOf fun c => (frame c k).cap

/-- `lat[c]` at the frame `k`, in milliseconds. -/
def latency (c : Cam) (k : Int) : WithTop ℚ :=
  match (frame c k).app with
  | none => ⊤
  | some w => if w = 0 then ⊤ else (((w - groupCap g frame k : Int) : ℚ) / 1000000 : ℚ)

/-- `glat` -/
def groupLatency (k : Int) : WithTop ℚ := g.maxOf fun c => latency g frame c k

/-- `sum(x <= D for x in l)` -/
def metCount (l : Int → WithTop ℚ) : Nat := E.countP fun k => l k ≤ (deadline : WithTop ℚ)

/-- `deadline_met` -/
def metShare (l : Int → WithTop ℚ) : ℚ := metCount deadline E l / E.length

/-- `sum(x == INF for x in l)` -/
def missing (l : Int → WithTop ℚ) : Nat := E.countP fun k => l k = ⊤

/-- `sum(max(lat[c][i] for c in S) <= D for i in range(n))`; `max` has no value where `S` has no
member, and no such `S` is asked for. -/
def subsetMet (S : List Cam) : Nat :=
  E.countP fun k =>
    ((S.map fun c => latency g frame c k).max?).any fun x => x ≤ (deadline : WithTop ℚ)

/-- `ok` -/
def subsetShares (m : Nat) : List ℚ :=
  (combinations g.cams m).map fun S => (subsetMet g frame deadline E S : ℚ) / E.length

/-- A row of `by_group_size`; `min` of no shares has no value. -/
structure SizeRow where
  members : Nat
  subsets : Nat
  mean : ℚ
  worst : Option ℚ

def sizeRow (m : Nat) : SizeRow :=
  let ok := subsetShares g frame deadline E m
  ⟨m, ok.length, ok.sum / ok.length, ok.min?⟩

/-- `by_group_size`, for `m in range(2, len(cams) + 1)`. -/
def byGroupSize : List SizeRow :=
  (List.range' 2 (g.cams.length - 1)).map (sizeRow g frame deadline E)

/-- `miss_bins`, the misses and the frames of each interval. -/
structure MissBins where
  misses : Counter Int
  frames : Counter Int

/-- `int((cap[k] - T) / 10e9)` -/
def binOf (epoch k : Int) : Int := (groupCap g frame k - epoch).tdiv 10000000000

def missBins (epoch : Int) : MissBins :=
  E.foldl (fun b k =>
    ⟨b.misses.add (binOf g frame epoch k)
        (if (deadline : WithTop ℚ) < groupLatency g frame k then 1 else 0),
      b.frames.add (binOf g frame epoch k) 1⟩) ⟨Dict.empty, Dict.empty⟩

end

variable {g : Group} {frame : Cam → Int → Frame} {deadline : ℚ} {E : List Int}

/-! ## Members in time -/

variable (g frame deadline) in
def inTime (c : Cam) (k : Int) : Bool := latency g frame c k ≤ (deadline : WithTop ℚ)

variable (g frame deadline) in
def onTime (k : Int) : Nat := g.cams.countP fun c => inTime g frame deadline c k

theorem groupLatency_le {k : Int} {d : WithTop ℚ} :
    groupLatency g frame k ≤ d ↔ ∀ c ∈ g.cams, latency g frame c k ≤ d := by
  obtain ⟨⟨c, hc, heq⟩, hmax⟩ := g.maxOf_spec fun c => latency g frame c k
  constructor
  · intro h c hc
    exact (hmax c hc).trans h
  · intro h
    rw [groupLatency, heq]
    exact h c hc

theorem groupLatency_eq_top {k : Int} :
    groupLatency g frame k = ⊤ ↔ ∃ c ∈ g.cams, latency g frame c k = ⊤ := by
  obtain ⟨⟨c, hc, heq⟩, hmax⟩ := g.maxOf_spec fun c => latency g frame c k
  constructor
  · intro h
    exact ⟨c, hc, heq.symm.trans h⟩
  · intro ⟨c, hc, htop⟩
    exact top_le_iff.mp (htop ▸ hmax c hc)

theorem metCount_group : metCount deadline E (groupLatency g frame) =
    E.countP fun k => g.cams.all fun c => inTime g frame deadline c k := by
  refine List.countP_congr fun k _ => ?_
  rw [decide_eq_true_iff, groupLatency_le, List.all_eq_true]
  exact forall₂_congr fun c _ => (decide_eq_true_iff).symm

theorem missing_group : missing E (groupLatency g frame) =
    E.countP fun k => g.cams.any fun c => latency g frame c k = ⊤ := by
  refine List.countP_congr fun k _ => ?_
  rw [decide_eq_true_iff, groupLatency_eq_top, List.any_eq_true]
  exact exists_congr fun c => and_congr_right fun _ => (decide_eq_true_iff).symm

theorem subsetMet_eq {S : List Cam} (h : S ≠ []) : subsetMet g frame deadline E S =
    E.countP fun k => S.all fun c => inTime g frame deadline c k := by
  refine List.countP_congr fun k _ => ?_
  have hne : S.map (fun c => latency g frame c k) ≠ [] := by simpa using h
  obtain ⟨x, hx⟩ := Option.isSome_iff_exists.mp (List.isSome_max?_of_ne_nil hne)
  rw [hx, Option.any_some, decide_eq_true_iff, List.max?_le_iff hx, List.all_eq_true]
  simp only [List.forall_mem_map, inTime, decide_eq_true_iff]

/-- Fewer members meet the deadline together more often. -/
theorem subsetMet_mono {S S' : List Cam} (h : S ≠ []) (hsub : S.Sublist S') :
    subsetMet g frame deadline E S' ≤ subsetMet g frame deadline E S := by
  have h' : S' ≠ [] := by
    rintro rfl
    exact h (List.sublist_nil.mp hsub)
  rw [subsetMet_eq h, subsetMet_eq h']
  refine List.countP_mono_left fun k _ hall => ?_
  rw [List.all_eq_true] at hall ⊢
  exact fun c hc => hall c (hsub.subset hc)

theorem ne_nil_of_mem_combinations {S : List Cam} {m : Nat} (hm : 0 < m)
    (hS : S ∈ combinations g.cams m) : S ≠ [] := by
  rintro rfl
  have hlength := (mem_combinations.mp hS).2
  exact absurd hlength hm.ne

/-- Over all subsets of a size, a frame counts once for each choice of members in time. -/
theorem sum_subsetMet {m : Nat} (hm : 0 < m) :
    ((combinations g.cams m).map (subsetMet g frame deadline E)).sum =
      (E.map fun k => (onTime g frame deadline k).choose m).sum := by
  have heq : (combinations g.cams m).map (subsetMet g frame deadline E) =
      (combinations g.cams m).map fun S =>
        E.countP fun k => S.all fun c => inTime g frame deadline c k :=
    List.map_congr_left fun S hS => subsetMet_eq (ne_nil_of_mem_combinations hm hS)
  rw [heq, sum_countP_comm]
  exact congrArg List.sum (List.map_congr_left fun k _ => countP_all_combinations _ _ _)

/-- Counted by members, the frames in time are counted by frames. -/
theorem sum_metCount : (g.cams.map fun c => metCount deadline E (latency g frame c)).sum =
    (E.map (onTime g frame deadline)).sum :=
  sum_countP_comm g.cams E fun c k => inTime g frame deadline c k

theorem onTime_le (k : Int) : onTime g frame deadline k ≤ g.cams.length := List.countP_le_length

/-- A frame that the group misses has been late at one member at least. -/
theorem onTime_lt {k : Int} (h : (g.cams.all fun c => inTime g frame deadline c k) = false) :
    onTime g frame deadline k < g.cams.length := by
  refine lt_of_le_of_ne (onTime_le k) fun heq => ?_
  have hall := List.countP_eq_length.mp heq
  rw [List.all_eq_true.mpr hall] at h
  cases h

/-- Not more frames are lost to the group than the members lose together. -/
theorem sum_metCount_le : (g.cams.map fun c => metCount deadline E (latency g frame c)).sum ≤
    metCount deadline E (groupLatency g frame) + (g.cams.length - 1) * E.length := by
  rw [sum_metCount, metCount_group]
  induction E with
  | nil => exact Nat.zero_le _
  | cons k E ih =>
    rw [List.map_cons, List.sum_cons, List.countP_cons, List.length_cons, Nat.mul_succ]
    have hpos : 0 < g.cams.length := Nat.succ_pos _
    cases hall : g.cams.all fun c => inTime g frame deadline c k with
    | true =>
      have hle : onTime g frame deadline k ≤ g.cams.length := onTime_le k
      rw [if_pos rfl]
      omega
    | false =>
      have hlt := onTime_lt hall
      rw [if_neg Bool.false_ne_true]
      omega

/-! ## Means and worst cases by size -/

theorem length_subsetShares (m : Nat) :
    (subsetShares g frame deadline E m).length = g.cams.length.choose m := by
  rw [subsetShares, List.length_map, length_combinations]

theorem sum_subsetShares {m : Nat} (hm : 0 < m) : (subsetShares g frame deadline E m).sum =
    ((E.map fun k => (onTime g frame deadline k).choose m).sum : ℕ) / E.length := by
  rw [← sum_subsetMet hm, subsetShares, Nat.cast_list_sum, List.map_map, div_eq_mul_inv,
    ← List.sum_map_mul_right]
  rfl

theorem mean_eq {m : Nat} (hm : 0 < m) : (sizeRow g frame deadline E m).mean =
    ((E.map fun k => (onTime g frame deadline k).choose m).sum : ℕ) /
      (E.length * g.cams.length.choose m) := by
  show (subsetShares g frame deadline E m).sum / ((subsetShares g frame deadline E m).length : ℚ) = _
  rw [sum_subsetShares hm, length_subsetShares, div_div]

theorem mean_succ_le {m : Nat} (hm : 0 < m) (hlt : m < g.cams.length) :
    (sizeRow g frame deadline E (m + 1)).mean ≤ (sizeRow g frame deadline E m).mean := by
  have hsum : (E.map fun k => (onTime g frame deadline k).choose (m + 1)).sum *
        g.cams.length.choose m ≤
      (E.map fun k => (onTime g frame deadline k).choose m).sum *
        g.cams.length.choose (m + 1) := by
    rw [← List.sum_map_mul_right, ← List.sum_map_mul_right]
    exact List.sum_le_sum fun k _ => choose_mul_choose_le (onTime_le k) m
  have hpos : (0 : ℚ) < g.cams.length.choose m := by exact_mod_cast Nat.choose_pos hlt.le
  have hpos' : (0 : ℚ) < g.cams.length.choose (m + 1) := by exact_mod_cast Nat.choose_pos hlt
  have hsum : ((E.map fun k => (onTime g frame deadline k).choose (m + 1)).sum : ℚ) *
        g.cams.length.choose m ≤
      ((E.map fun k => (onTime g frame deadline k).choose m).sum : ℕ) *
        g.cams.length.choose (m + 1) := by
    exact_mod_cast hsum
  rw [mean_eq (Nat.succ_pos m), mean_eq hm, mul_comm (E.length : ℚ), mul_comm (E.length : ℚ),
    ← div_div, ← div_div]
  apply div_le_div_of_nonneg_right _ (Nat.cast_nonneg _)
  rw [div_le_div_iff₀ hpos' hpos]
  exact_mod_cast hsum

/-- Groups of one: the mean of the members' own shares. -/
theorem mean_one : (sizeRow g frame deadline E 1).mean =
    (g.cams.map fun c => metShare deadline E (latency g frame c)).sum / g.cams.length := by
  have hsum : (g.cams.map fun c => metShare deadline E (latency g frame c)).sum =
      ((E.map (onTime g frame deadline)).sum : ℕ) / E.length := by
    rw [← sum_metCount, Nat.cast_list_sum, List.map_map, div_eq_mul_inv,
      ← List.sum_map_mul_right]
    rfl
  have hone : (E.map fun k => (onTime g frame deadline k).choose 1) =
      E.map (onTime g frame deadline) := List.map_congr_left fun k _ => Nat.choose_one_right _
  rw [mean_eq Nat.one_pos, hsum, hone, Nat.choose_one_right, div_div]

theorem mean_le_mean_one {m : Nat} (hm : 0 < m) (hle : m ≤ g.cams.length) :
    (sizeRow g frame deadline E m).mean ≤ (sizeRow g frame deadline E 1).mean := by
  induction m with
  | zero => exact absurd hm (Nat.lt_irrefl 0)
  | succ m ih =>
    by_cases hzero : m = 0
    · rw [hzero]
    · exact (mean_succ_le (Nat.pos_of_ne_zero hzero) hle).trans
        (ih (Nat.pos_of_ne_zero hzero) (Nat.le_of_succ_le hle))

theorem exists_worst {m : Nat} (hle : m ≤ g.cams.length) :
    ∃ w, (sizeRow g frame deadline E m).worst = some w ∧
      w ∈ subsetShares g frame deadline E m ∧ ∀ x ∈ subsetShares g frame deadline E m, w ≤ x := by
  have hne : subsetShares g frame deadline E m ≠ [] := by
    apply List.ne_nil_of_length_pos
    rw [length_subsetShares]
    exact Nat.choose_pos hle
  obtain ⟨w, hw⟩ := Option.isSome_iff_exists.mp (List.isSome_min?_of_ne_nil hne)
  exact ⟨w, hw, List.min?_eq_some_iff.mp hw⟩

theorem share_le_share {a b : Nat} (h : a ≤ b) : (a : ℚ) / E.length ≤ b / E.length :=
  div_le_div_of_nonneg_right (Nat.cast_le.mpr h) (Nat.cast_nonneg _)

/-- A larger group has a worse worst case. -/
theorem worst_succ_le {m : Nat} (hm : 0 < m) (hlt : m < g.cams.length) {w w' : ℚ}
    (hw : (sizeRow g frame deadline E m).worst = some w)
    (hw' : (sizeRow g frame deadline E (m + 1)).worst = some w') : w' ≤ w := by
  obtain ⟨u, hu, hmem, -⟩ := exists_worst hlt.le
  obtain ⟨u', hu', -, hleast⟩ := exists_worst
    (Nat.succ_le_of_lt hlt)
  obtain rfl := Option.some.inj (hw.symm.trans hu)
  obtain rfl := Option.some.inj (hw'.symm.trans hu')
  obtain ⟨S, hS, rfl⟩ := List.mem_map.mp hmem
  obtain ⟨S', hS', hsub⟩ := exists_combination_succ hS hlt
  have hle := hleast _ (List.mem_map.mpr ⟨S', hS', rfl⟩)
  exact hle.trans (share_le_share (subsetMet_mono (ne_nil_of_mem_combinations hm hS) hsub))

theorem subsetMet_cams :
    subsetMet g frame deadline E g.cams = metCount deadline E (groupLatency g frame) := by
  have hne : g.cams ≠ [] := List.cons_ne_nil _ _
  rw [subsetMet_eq hne, metCount_group]

theorem group_le_subset {S : List Cam} {m : Nat} (hm : 0 < m) (hS : S ∈ combinations g.cams m) :
    metShare deadline E (groupLatency g frame) ≤ (subsetMet g frame deadline E S : ℚ) / E.length := by
  rw [metShare, ← subsetMet_cams]
  exact share_le_share
    (subsetMet_mono (ne_nil_of_mem_combinations hm hS) (mem_combinations.mp hS).1)

/-- The mean is not below the least. -/
theorem le_mean {m : Nat} (hle : m ≤ g.cams.length) {w : ℚ}
    (h : ∀ x ∈ subsetShares g frame deadline E m, w ≤ x) :
    w ≤ (sizeRow g frame deadline E m).mean := by
  have hpos : (0 : ℚ) < (subsetShares g frame deadline E m).length := by
    rw [length_subsetShares]
    exact_mod_cast Nat.choose_pos hle
  show w ≤ (subsetShares g frame deadline E m).sum / _
  rw [le_div_iff₀ hpos, mul_comm, ← nsmul_eq_mul]
  exact List.card_nsmul_le_sum _ _ h

/-- All members together are the group. -/
theorem sizeRow_cams : (sizeRow g frame deadline E g.cams.length).mean =
      metShare deadline E (groupLatency g frame) ∧
    (sizeRow g frame deadline E g.cams.length).worst =
      some (metShare deadline E (groupLatency g frame)) := by
  have hshares : subsetShares g frame deadline E g.cams.length =
      [metShare deadline E (groupLatency g frame)] := by
    rw [subsetShares, combinations_length, List.map_singleton, subsetMet_cams]
    rfl
  rw [sizeRow]
  simp only [hshares]
  exact ⟨by simp, rfl⟩

/-! ## Misses by interval -/

variable (g frame deadline) in
def late (k : Int) : Bool := (deadline : WithTop ℚ) < groupLatency g frame k

theorem missBins_get (epoch b : Int) :
    (missBins g frame deadline E epoch).frames.get b =
        E.countP (fun k => binOf g frame epoch k = b) ∧
      (missBins g frame deadline E epoch).misses.get b =
        E.countP (fun k => binOf g frame epoch k = b ∧ late g frame deadline k) := by
  induction E using List.reverseRecOn with
  | nil => exact ⟨rfl, rfl⟩
  | append_singleton E k ih =>
    obtain ⟨hframes, hmisses⟩ := ih
    rw [missBins, List.foldl_append, List.countP_append, List.countP_append, List.countP_singleton,
      List.countP_singleton]
    show Counter.get (Counter.add (missBins g frame deadline E epoch).frames _ _) b = _ ∧
      Counter.get (Counter.add (missBins g frame deadline E epoch).misses _ _) b = _
    rw [Counter.get_add, Counter.get_add, hframes, hmisses]
    by_cases hb : binOf g frame epoch k = b
    · by_cases hlate : (deadline : WithTop ℚ) < groupLatency g frame k
      · simp [hb, late, hlate]
      · simp [hb, late, hlate]
    · simp [hb, Ne.symm hb]

theorem missBins_total (epoch : Int) :
    (missBins g frame deadline E epoch).frames.total (fun _ => true) = E.length ∧
      (missBins g frame deadline E epoch).misses.total (fun _ => true) =
        E.countP (late g frame deadline) := by
  induction E using List.reverseRecOn with
  | nil => exact ⟨rfl, rfl⟩
  | append_singleton E k ih =>
    obtain ⟨hframes, hmisses⟩ := ih
    rw [missBins, List.foldl_append, List.countP_append, List.countP_singleton, List.length_append]
    show Counter.total (Counter.add (missBins g frame deadline E epoch).frames _ _) _ = _ ∧
      Counter.total (Counter.add (missBins g frame deadline E epoch).misses _ _) _ = _
    rw [Counter.total_add, Counter.total_add, hframes, hmisses]
    by_cases hlate : (deadline : WithTop ℚ) < groupLatency g frame k
    · simp [late, hlate]
    · simp [late, hlate]

/-- What is not late is in time. -/
theorem countP_late : E.countP (late g frame deadline) +
    metCount deadline E (groupLatency g frame) = E.length := by
  have hsplit := List.length_eq_countP_add_countP (late g frame deadline) (l := E)
  have hmet : metCount deadline E (groupLatency g frame) =
      E.countP fun k => ¬late g frame deadline k = true := by
    refine List.countP_congr fun k _ => ?_
    simp [late]
  rw [hmet]
  exact hsplit.symm

/-- The group's figures against its members' and its subsets': a frame is met by the group where
every member meets it; the members' shares bound the group's from both sides; the rows by size
are a count of the members in time, fall with the size and end with the group's own share; and the
bins partition the frames and the misses. -/
theorem group_deadline (g : Group) (frame : Cam → Int → Frame) (deadline : ℚ) (E : List Int)
    (epoch : Int) :
    (metCount deadline E (groupLatency g frame) =
      E.countP fun k => g.cams.all fun c => inTime g frame deadline c k) ∧
    (missing E (groupLatency g frame) =
      E.countP fun k => g.cams.any fun c => latency g frame c k = ⊤) ∧
    (∀ c ∈ g.cams, metCount deadline E (groupLatency g frame) ≤
      metCount deadline E (latency g frame c)) ∧
    (g.cams.map fun c => metCount deadline E (latency g frame c)).sum ≤
      metCount deadline E (groupLatency g frame) + (g.cams.length - 1) * E.length ∧
    (∀ row ∈ byGroupSize g frame deadline E,
      row.subsets = g.cams.length.choose row.members ∧
      row.mean = ((E.map fun k => (onTime g frame deadline k).choose row.members).sum : ℕ) /
        (E.length * g.cams.length.choose row.members) ∧
      row.mean ≤ (g.cams.map fun c => metShare deadline E (latency g frame c)).sum /
        g.cams.length ∧
      ∃ w, row.worst = some w ∧ w ≤ row.mean ∧
        metShare deadline E (groupLatency g frame) ≤ w) ∧
    (∀ i row row', (byGroupSize g frame deadline E)[i]? = some row →
      (byGroupSize g frame deadline E)[i + 1]? = some row' →
      row'.members = row.members + 1 ∧ row'.mean ≤ row.mean ∧
        ∀ w w', row.worst = some w → row'.worst = some w' → w' ≤ w) ∧
    (∀ row, (byGroupSize g frame deadline E).getLast? = some row →
      row.mean = metShare deadline E (groupLatency g frame) ∧
        row.worst = some (metShare deadline E (groupLatency g frame))) ∧
    (∀ b, (missBins g frame deadline E epoch).frames.get b =
        E.countP (fun k => binOf g frame epoch k = b) ∧
      (missBins g frame deadline E epoch).misses.get b =
        E.countP (fun k => binOf g frame epoch k = b ∧ late g frame deadline k)) ∧
    (missBins g frame deadline E epoch).frames.total (fun _ => true) = E.length ∧
    (missBins g frame deadline E epoch).misses.total (fun _ => true) +
      metCount deadline E (groupLatency g frame) = E.length := by
  have hrow : ∀ {i row}, (byGroupSize g frame deadline E)[i]? = some row →
      row = sizeRow g frame deadline E (2 + i) ∧ 2 + i ≤ g.cams.length := by
    intro i row hi
    rw [byGroupSize, List.getElem?_map, Option.map_eq_some_iff] at hi
    obtain ⟨m, hm, rfl⟩ := hi
    obtain ⟨hlt, rfl⟩ := List.getElem?_eq_some_iff.mp hm
    rw [List.length_range'] at hlt
    rw [List.getElem_range', Nat.one_mul]
    exact ⟨rfl, by omega⟩
  refine ⟨metCount_group, missing_group, fun c hc => ?_, sum_metCount_le, fun row hmem => ?_,
    fun i row row' hi hi' => ?_, fun row hlast => ?_, missBins_get epoch,
    (missBins_total epoch).1, ?_⟩
  · rw [metCount_group]
    refine List.countP_mono_left fun k _ hall => ?_
    exact List.all_eq_true.mp hall c hc
  · obtain ⟨i, hi⟩ := List.mem_iff_getElem?.mp hmem
    obtain ⟨rfl, hle⟩ := hrow hi
    have hpos : 0 < 2 + i := by omega
    refine ⟨length_subsetShares _, mean_eq hpos, ?_, ?_⟩
    · rw [← mean_one]
      exact mean_le_mean_one hpos hle
    · obtain ⟨w, hw, hwmem, hleast⟩ := exists_worst hle
      obtain ⟨S, hS, rfl⟩ := List.mem_map.mp hwmem
      exact ⟨_, hw, le_mean hle hleast, group_le_subset hpos hS⟩
  · obtain ⟨rfl, -⟩ := hrow hi
    obtain ⟨rfl, hle⟩ := hrow hi'
    have hpos : 0 < 2 + i := by omega
    exact ⟨rfl, mean_succ_le hpos hle, fun w w' => worst_succ_le hpos hle⟩
  · rw [List.getLast?_eq_getElem?] at hlast
    obtain ⟨rfl, hle⟩ := hrow hlast
    have hlength : (byGroupSize g frame deadline E).length = g.cams.length - 1 := by
      rw [byGroupSize, List.length_map, List.length_range']
    have hall : 2 + ((byGroupSize g frame deadline E).length - 1) = g.cams.length := by omega
    rw [hall]
    exact sizeRow_cams
  · have hlate : E.countP (late g frame deadline) + metCount deadline E (groupLatency g frame) =
        E.length := countP_late
    rw [(missBins_total epoch).2, ← hlate]
    exact (Nat.cast_add _ _).symm

end Fusion
end P5G
