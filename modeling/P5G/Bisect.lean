import Mathlib.Order.Basic
import Mathlib.Order.Defs.LinearOrder
import Mathlib.Data.List.Basic
import Mathlib.Data.List.Sort

/-!
# Bisection of a sorted list

The loop of Python's `bisect` module, for a test that holds on the front of the
list and nowhere behind it.  `bisectLeft` and `bisectRight` are its two uses on
a list in order: the number of elements below, or not above, a value.
-/

namespace P5G

variable {α : Type*}

/-- The loop on `[lo, hi)`; a turn halves the interval, so its length is fuel enough. -/
def bisectLoop (before : α → Bool) (l : List α) : Nat → Nat → Nat → Nat
  | 0, lo, _ => lo
  | fuel + 1, lo, hi =>
    if lo < hi then
      let mid := (lo + hi) / 2
      if (l[mid]?).any before then bisectLoop before l fuel (mid + 1) hi
      else bisectLoop before l fuel lo mid
    else lo

/-- The index at which `before` stops to hold. -/
def bisect (before : α → Bool) (l : List α) : Nat := bisectLoop before l l.length 0 l.length

/-- Nothing that is `before` comes behind what is not. -/
def Separates (before : α → Bool) (l : List α) : Prop :=
  l.Pairwise fun a b => before b = true → before a = true

section

variable {before : α → Bool} {l : List α}

theorem Separates.filter_eq (h : Separates before l) : l.filter before = l.takeWhile before := by
  induction l with
  | nil => rfl
  | cons a l ih =>
    obtain ⟨ha, hl⟩ := List.pairwise_cons.mp h
    by_cases hbefore : before a = true
    · rw [List.filter_cons_of_pos hbefore, List.takeWhile_cons_of_pos hbefore, ih hl]
    · rw [List.takeWhile_cons_of_neg hbefore, List.filter_eq_nil_iff]
      intro b hb
      rcases List.mem_cons.mp hb with rfl | hb
      · exact hbefore
      · exact fun hbBefore => hbefore (ha b hb hbBefore)

theorem Separates.lt_iff (h : Separates before l) {i : Nat} (hi : i < l.length) :
    i < (l.filter before).length ↔ before l[i] = true := by
  rw [h.filter_eq]
  induction l generalizing i with
  | nil => exact absurd hi (Nat.not_lt_zero i)
  | cons a l ih =>
    obtain ⟨ha, hl⟩ := List.pairwise_cons.mp h
    by_cases hbefore : before a = true
    · rw [List.takeWhile_cons_of_pos hbefore, List.length_cons]
      cases i with
      | zero => exact iff_of_true (Nat.succ_pos _) hbefore
      | succ i =>
        rw [Nat.succ_lt_succ_iff, ih hl (Nat.lt_of_succ_lt_succ hi), List.getElem_cons_succ]
    · rw [List.takeWhile_cons_of_neg hbefore]
      refine iff_of_false (Nat.not_lt_zero i) fun hget => ?_
      rcases List.mem_cons.mp (List.getElem_mem hi) with heq | hmem
      · exact hbefore (heq ▸ hget)
      · exact hbefore (ha _ hmem hget)

/-- The loop keeps the boundary between `lo` and `hi`. -/
theorem bisectLoop_eq (h : Separates before l) {fuel lo hi : Nat} (hfuel : hi ≤ lo + fuel)
    (hhi : hi ≤ l.length) (hlow : lo ≤ (l.filter before).length)
    (hhigh : (l.filter before).length ≤ hi) :
    bisectLoop before l fuel lo hi = (l.filter before).length := by
  induction fuel generalizing lo hi with
  | zero =>
    rw [bisectLoop]
    omega
  | succ fuel ih =>
    rw [bisectLoop]
    split
    · next hlt =>
      have hmid : (lo + hi) / 2 < l.length := by omega
      have hside := h.lt_iff hmid
      simp only [List.getElem?_eq_getElem hmid, Option.any_some]
      split
      · next hbefore =>
        have hnext := hside.mpr hbefore
        exact ih (by omega) hhi (by omega) hhigh
      · next hbehind =>
        have hlast := mt hside.mp hbehind
        exact ih (by omega) (by omega) hlow (by omega)
    · omega

theorem bisect_eq (h : Separates before l) : bisect before l = (l.filter before).length :=
  bisectLoop_eq h (Nat.le_add_left _ _) (Nat.le_refl _) (Nat.zero_le _)
    (List.length_filter_le _ _)

theorem lt_bisect (h : Separates before l) {i : Nat} (hi : i < l.length) :
    i < bisect before l ↔ before l[i] = true := by
  rw [bisect_eq h]
  exact h.lt_iff hi

theorem bisect_le (h : Separates before l) : bisect before l ≤ l.length := by
  rw [bisect_eq h]
  exact List.length_filter_le _ _

/-- What stands before the boundary is what passes the test. -/
theorem take_bisect (h : Separates before l) : l.take (bisect before l) = l.filter before := by
  have hprefix : l.takeWhile before <+: l := List.takeWhile_prefix before
  rw [bisect_eq h, h.filter_eq]
  exact (List.prefix_iff_eq_take.mp hprefix).symm

end

variable [LinearOrder α]

def bisectLeft (l : List α) (x : α) : Nat := bisect (fun a => decide (a < x)) l

def bisectRight (l : List α) (x : α) : Nat := bisect (fun a => !decide (x < a)) l

theorem separates_lt {l : List α} (h : l.Pairwise (· ≤ ·)) (x : α) :
    Separates (fun a => decide (a < x)) l :=
  h.imp fun hab hb => decide_eq_true (lt_of_le_of_lt hab (of_decide_eq_true hb))

theorem separates_le {l : List α} (h : l.Pairwise (· ≤ ·)) (x : α) :
    Separates (fun a => !decide (x < a)) l :=
  h.imp fun hab hb => by
    rw [Bool.not_eq_true', decide_eq_false_iff_not] at hb ⊢
    exact fun hxa => hb (lt_of_lt_of_le hxa hab)

theorem lt_bisectRight {l : List α} (h : l.Pairwise (· ≤ ·)) {x : α} {i : Nat}
    (hi : i < l.length) : i < bisectRight l x ↔ l[i] ≤ x := by
  rw [bisectRight, lt_bisect (separates_le h x) hi, Bool.not_eq_true', decide_eq_false_iff_not,
    not_lt]

section

variable {β : Type*} {f : β → α} {l : List β} {x : α}

/-- The element before the boundary, for a list in the order of `f`. -/
def lastNotAbove (f : β → α) (l : List β) (x : α) : Option β :=
  match bisectRight (l.map f) x with
  | 0 => none
  | i + 1 => l[i]?

theorem lastNotAbove_eq (h : (l.map f).Pairwise (· ≤ ·)) :
    lastNotAbove f l x = (l.filter fun b => decide (f b ≤ x)).getLast? := by
  have hsep := separates_le h x
  have htake : l.take (bisectRight (l.map f) x) = l.filter fun b => decide (f b ≤ x) := by
    have hmono : Separates (fun b => decide (f b ≤ x)) l :=
      (List.pairwise_map.mp h).imp fun hab hb =>
        decide_eq_true (le_trans hab (of_decide_eq_true hb))
    have hcount : bisectRight (l.map f) x = bisect (fun b => decide (f b ≤ x)) l := by
      rw [bisectRight, bisect_eq hsep, bisect_eq hmono, List.filter_map, List.length_map]
      congr 2
      funext b
      simp only [Function.comp_apply, ← not_lt, decide_not]
    rw [hcount, take_bisect hmono]
  have hle : bisectRight (l.map f) x ≤ l.length := by
    have hle := bisect_le hsep
    rwa [List.length_map] at hle
  rw [← htake, lastNotAbove]
  cases hn : bisectRight (l.map f) x with
  | zero => rfl
  | succ i =>
    rw [hn] at hle
    rw [List.getLast?_eq_getElem?, List.length_take, Nat.min_eq_left hle, Nat.add_sub_cancel,
      List.getElem?_take_of_lt (Nat.lt_succ_self i)]

/-- The element at the boundary, for a list in the order of `f`. -/
def firstNotBelow (f : β → α) (l : List β) (x : α) : Option β := l[bisectLeft (l.map f) x]?

theorem firstNotBelow_eq (h : (l.map f).Pairwise (· ≤ ·)) :
    firstNotBelow f l x = l.find? fun b => decide (x ≤ f b) := by
  rw [firstNotBelow, bisectLeft, bisect_eq (separates_lt h x)]
  induction l with
  | nil => rfl
  | cons b l ih =>
    rw [List.map_cons] at h ⊢
    obtain ⟨hb, hl⟩ := List.pairwise_cons.mp h
    by_cases hbx : f b < x
    · have hcons : (f b :: l.map f).filter (fun a => decide (a < x)) =
          f b :: (l.map f).filter fun a => decide (a < x) :=
        List.filter_cons_of_pos (decide_eq_true hbx)
      rw [hcons, List.length_cons, List.getElem?_cons_succ, ih hl,
        List.find?_cons_of_neg (by simpa using hbx)]
    · have hnone : (f b :: l.map f).filter (fun a => decide (a < x)) = [] := by
        refine List.filter_eq_nil_iff.mpr (List.forall_mem_cons.mpr ⟨by simpa using hbx, ?_⟩)
        intro a ha
        have hxa := le_trans (not_lt.mp hbx) (hb a ha)
        simpa using hxa
      rw [hnone, List.find?_cons_of_pos (by simpa using hbx)]
      rfl

end

/-- A sort by a key leaves what has the same key in the order in which it stood. -/
theorem insertionSort_stable {β : Type*} {f : β → α} {before : β → β → Prop} {l : List β}
    (h : l.Pairwise before) : (l.insertionSort fun a b => f a ≤ f b).Pairwise
      fun a b => f a < f b ∨ f a = f b ∧ before a b := by
  have hinsert (a : β) (l : List β) (ha : ∀ b ∈ l, before a b)
      (h : l.Pairwise fun a b => f a < f b ∨ f a = f b ∧ before a b) :
      (l.orderedInsert (fun a b => f a ≤ f b) a).Pairwise
        fun a b => f a < f b ∨ f a = f b ∧ before a b := by
    induction l with
    | nil => exact List.pairwise_singleton _ _
    | cons b l ih =>
      obtain ⟨hab, hal⟩ := List.forall_mem_cons.mp ha
      obtain ⟨hb, hl⟩ := List.pairwise_cons.mp h
      by_cases hle : f a ≤ f b
      · rw [List.orderedInsert_cons_of_le (fun a b => f a ≤ f b) l hle]
        refine .cons (List.forall_mem_cons.mpr ⟨?_, fun c hc => ?_⟩) h
        · exact hle.lt_or_eq.imp_right fun heq => ⟨heq, hab⟩
        · have hbc : f b ≤ f c := (hb c hc).elim le_of_lt fun h => h.1.le
          exact (le_trans hle hbc).lt_or_eq.imp_right fun heq => ⟨heq, hal c hc⟩
      · rw [List.orderedInsert_of_not_le (fun a b => f a ≤ f b) l hle]
        refine .cons (fun c hc => ?_) (ih hal hl)
        rcases (List.mem_orderedInsert (fun a b => f a ≤ f b)).mp hc with rfl | hc
        · exact .inl (not_le.mp hle)
        · exact hb c hc
  induction l with
  | nil => exact .nil
  | cons a l ih =>
    obtain ⟨ha, hl⟩ := List.pairwise_cons.mp h
    exact hinsert a _ (fun b hb => ha b ((List.mem_insertionSort _).mp hb)) (ih hl)

/-- What is found first stands before all else that can be found. -/
theorem find?_before {β : Type*} {before : β → β → Prop} {l : List β} (h : l.Pairwise before)
    {p : β → Bool} {x : β} (hx : l.find? p = some x) : ∀ y ∈ l, p y → y = x ∨ before x y := by
  induction l with
  | nil => cases hx
  | cons a l ih =>
    obtain ⟨ha, hl⟩ := List.pairwise_cons.mp h
    by_cases hpa : p a = true
    · rw [List.find?_cons_of_pos hpa] at hx
      cases hx
      exact List.forall_mem_cons.mpr ⟨fun _ => .inl rfl, fun y hy _ => .inr (ha y hy)⟩
    · rw [List.find?_cons_of_neg hpa] at hx
      exact List.forall_mem_cons.mpr ⟨fun hp => absurd hp hpa, ih hl hx⟩

/-- What is filtered out of a sorted list does not matter to the order of the rest. -/
theorem filter_insertionSort (p : α → Bool) (l : List α) :
    (l.insertionSort (· ≤ ·)).filter p = (l.filter p).insertionSort (· ≤ ·) := by
  have hperm := ((List.perm_insertionSort (· ≤ ·) l).filter p).trans
    (List.perm_insertionSort (· ≤ ·) (l.filter p)).symm
  exact hperm.eq_of_pairwise' ((List.pairwise_insertionSort (· ≤ ·) l).filter p)
    (List.pairwise_insertionSort (· ≤ ·) _)

end P5G
