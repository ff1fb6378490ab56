import Mathlib.MeasureTheory.Measure.Lebesgue.Basic

/-!
# A quantity that changes at listed instants

A list of instants, each with the value a quantity takes there and keeps until
the next.  `timeIn P` is the time during which the value satisfies `P`, and
`volume_timeIn` says that it is the measure of the real instants at which it
does.
-/

namespace P5G
namespace Timeline

open MeasureTheory

variable {β : Type*}

/-- The last instant of a list that begins with `a`. -/
def lastFrom (a : Int × β) (l : List (Int × β)) : Int := ((a :: l).getLast (List.cons_ne_nil a l)).1

theorem lastFrom_cons (a b : Int × β) (l : List (Int × β)) :
    lastFrom a (b :: l) = lastFrom b l := by
  rw [lastFrom, List.getLast_cons (List.cons_ne_nil b l)]
  rfl

def timeIn (P : β → Bool) : Int × β → List (Int × β) → Int
  | _, [] => 0
  | a, b :: l => (if P a.2 then b.1 - a.1 else 0) + timeIn P b l

/-- `v` takes the values of the list from each instant up to the next. -/
def Steps (v : ℝ → β) : Int × β → List (Int × β) → Prop
  | _, [] => True
  | a, b :: l => a.1 < b.1 ∧ (∀ t : ℝ, a.1 ≤ t → t < b.1 → v t = a.2) ∧ Steps v b l

variable {P : β → Bool} {v : ℝ → β} {a : Int × β} {l : List (Int × β)}

theorem Steps.le_last (h : Steps v a l) : a.1 ≤ lastFrom a l := by
  induction l generalizing a with
  | nil => exact Int.le_refl _
  | cons b l ih =>
    rw [lastFrom_cons]
    exact Int.le_trans (Int.le_of_lt h.1) (ih h.2.2)

theorem Steps.timeIn_nonneg (h : Steps v a l) : 0 ≤ timeIn P a l := by
  induction l generalizing a with
  | nil => exact Int.le_refl _
  | cons b l ih =>
    have hrest := ih h.2.2
    have hlt := h.1
    rw [timeIn]
    split <;> omega

def span (P : β → Bool) (a b : Int × β) : Set ℝ := if P a.2 then Set.Ico (a.1 : ℝ) b.1 else ∅

theorem mem_span {a b : Int × β} {t : ℝ} :
    t ∈ span P a b ↔ P a.2 = true ∧ a.1 ≤ t ∧ t < b.1 := by
  rw [span]
  split
  · next h => exact ⟨fun ht => ⟨h, ht⟩, And.right⟩
  · next h => exact ⟨fun ht => absurd ht (Set.notMem_empty t), fun ht => absurd ht.1 h⟩

theorem measurableSet_span (a b : Int × β) : MeasurableSet (span P a b) := by
  rw [span]
  split
  · exact measurableSet_Ico
  · exact MeasurableSet.empty

theorem volume_span (a b : Int × β) :
    volume (span P a b) = ENNReal.ofReal ((if P a.2 then b.1 - a.1 else 0 : Int) : ℝ) := by
  rw [span]
  split
  · rw [Real.volume_Ico, Int.cast_sub]
  · rw [measure_empty, Int.cast_zero, ENNReal.ofReal_zero]

/-- The instants that count are those up to the next change, all or none of them, and
those from there on. -/
theorem Steps.cut {b : Int × β} (h : Steps v a (b :: l)) :
    {t : ℝ | a.1 ≤ t ∧ t < lastFrom b l ∧ P (v t) = true} =
      span P a b ∪ {t | b.1 ≤ t ∧ t < lastFrom b l ∧ P (v t) = true} := by
  obtain ⟨hlt, hv, hrest⟩ := h
  have hlast : (b.1 : ℝ) ≤ lastFrom b l := Int.cast_le.mpr hrest.le_last
  have hab : (a.1 : ℝ) < b.1 := Int.cast_lt.mpr hlt
  ext t
  rw [Set.mem_union, mem_span, Set.mem_ofPred_eq, Set.mem_ofPred_eq]
  by_cases hbefore : t < b.1
  · constructor
    · rintro ⟨hta, -, hP⟩
      rw [hv t hta hbefore] at hP
      exact .inl ⟨hP, hta, hbefore⟩
    · rintro (⟨hP, hta, -⟩ | ⟨hbt, -⟩)
      · refine ⟨hta, lt_of_lt_of_le hbefore hlast, ?_⟩
        rw [hv t hta hbefore]
        exact hP
      · exact absurd hbefore (not_lt.mpr hbt)
  · have hge := not_lt.mp hbefore
    constructor
    · rintro ⟨-, hcounts⟩
      exact .inr ⟨hge, hcounts⟩
    · rintro (⟨-, -, hlt⟩ | ⟨-, hcounts⟩)
      · exact absurd hlt hbefore
      · exact ⟨le_trans hab.le hge, hcounts⟩

/-- The measure of the instants with a value in `P` is the time in `P`. -/
theorem volume_timeIn (h : Steps v a l) :
    volume {t : ℝ | a.1 ≤ t ∧ t < lastFrom a l ∧ P (v t) = true} =
      ENNReal.ofReal (timeIn P a l : Int) := by
  induction l generalizing a with
  | nil =>
    have hempty : {t : ℝ | (a.1 : ℝ) ≤ t ∧ t < lastFrom a [] ∧ P (v t) = true} = ∅ := by
      refine Set.eq_empty_of_forall_notMem fun t ht => ?_
      exact absurd ht.2.1 (not_lt.mpr ht.1)
    rw [hempty, measure_empty, timeIn, Int.cast_zero, ENNReal.ofReal_zero]
  | cons b l ih =>
    have hdisjoint : Disjoint (span P a b) {t | b.1 ≤ t ∧ t < lastFrom b l ∧ P (v t) = true} :=
      Set.disjoint_left.mpr fun t ht hrest => absurd (mem_span.mp ht).2.2 (not_lt.mpr hrest.1)
    have hlt := h.1
    have hnonneg : (0 : ℝ) ≤ ((if P a.2 then b.1 - a.1 else 0 : Int) : ℝ) := by
      refine Int.cast_nonneg ?_
      split <;> omega
    have hrestNonneg : (0 : ℝ) ≤ (timeIn P b l : Int) := Int.cast_nonneg h.2.2.timeIn_nonneg
    rw [lastFrom_cons, h.cut, measure_union' hdisjoint (measurableSet_span a b), volume_span,
      ih h.2.2, timeIn, Int.cast_add, ENNReal.ofReal_add hnonneg hrestNonneg]

end Timeline
end P5G
