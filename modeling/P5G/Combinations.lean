import Mathlib

/-!
# Combinations of a list

`itertools.combinations`, how many of the combinations have only elements of a
kind, and what choosing larger combinations makes of such a share.
-/

namespace P5G

variable {α : Type*}

/-- The sublists of a length, in the order of their positions. -/
def combinations : List α → Nat → List (List α)
  | _, 0 => [[]]
  | [], _ + 1 => []
  | a :: l, m + 1 => (combinations l m).map (a :: ·) ++ combinations l (m + 1)

@[simp] theorem combinations_zero (l : List α) : combinations l 0 = [[]] := by
  cases l <;> rfl

theorem mem_combinations {l s : List α} {m : Nat} :
    s ∈ combinations l m ↔ s.Sublist l ∧ s.length = m := by
  induction l generalizing s m with
  | nil =>
    cases m with
    | zero => simp
    | succ m =>
      show s ∈ [] ↔ _
      simp only [List.not_mem_nil, List.sublist_nil, false_iff, not_and]
      rintro rfl
      exact (Nat.succ_ne_zero m).symm
  | cons a l ih =>
    cases m with
    | zero =>
      rw [combinations_zero, List.mem_singleton, List.length_eq_zero_iff]
      exact ⟨fun h => ⟨h ▸ List.nil_sublist _, h⟩, fun h => h.2⟩
    | succ m =>
      rw [combinations, List.mem_append, List.mem_map, ih, List.sublist_cons_iff]
      constructor
      · rintro (⟨r, hr, rfl⟩ | ⟨hsub, hlength⟩)
        · obtain ⟨hsub, hlength⟩ := ih.mp hr
          exact ⟨.inr ⟨r, rfl, hsub⟩, congrArg Nat.succ hlength⟩
        · exact ⟨.inl hsub, hlength⟩
      · rintro ⟨hsub | ⟨r, rfl, hsub⟩, hlength⟩
        · exact .inr ⟨hsub, hlength⟩
        · exact .inl ⟨r, ih.mpr ⟨hsub, Nat.succ.inj hlength⟩, rfl⟩

theorem combinations_length (l : List α) : combinations l l.length = [l] := by
  induction l with
  | nil => rfl
  | cons a l ih =>
    have hnone : combinations l (l.length + 1) = [] := by
      rw [List.eq_nil_iff_forall_not_mem]
      intro s hs
      obtain ⟨hsub, hlength⟩ := mem_combinations.mp hs
      have hle := hsub.length_le
      omega
    rw [List.length_cons, combinations, ih, hnone]
    rfl

/-- As many combinations have only elements of a kind as the elements of the kind have
combinations. -/
theorem countP_all_combinations (P : α → Bool) (l : List α) (m : Nat) :
    (combinations l m).countP (fun s => s.all P) = (l.countP P).choose m := by
  induction l generalizing m with
  | nil => cases m <;> rfl
  | cons a l ih =>
    cases m with
    | zero => rw [combinations_zero, Nat.choose_zero_right]; rfl
    | succ m =>
      rw [combinations, List.countP_append, List.countP_map, ih, List.countP_cons]
      cases ha : P a with
      | true =>
        have hsame : ((fun s : List α => s.all P) ∘ fun s => a :: s) = fun s => s.all P := by
          funext s
          rw [Function.comp_apply, List.all_cons, ha, Bool.true_and]
        rw [hsame, ih, if_pos rfl, Nat.choose_succ_succ]
      | false =>
        have hnone : (combinations l m).countP
            ((fun s : List α => s.all P) ∘ fun s => a :: s) = 0 := by
          rw [List.countP_eq_zero]
          intro s _ hall
          rw [Function.comp_apply, List.all_cons, ha, Bool.false_and] at hall
          cases hall
        rw [hnone, Nat.zero_add, if_neg Bool.false_ne_true]
        rfl

theorem length_combinations (l : List α) (m : Nat) :
    (combinations l m).length = l.length.choose m := by
  have hall : (combinations l m).countP (fun s => s.all fun _ => true) =
      (combinations l m).length :=
    List.countP_eq_length.mpr fun s _ => List.all_eq_true.mpr fun _ _ => rfl
  rw [← hall, countP_all_combinations, List.countP_true]

/-- A combination that leaves something out is part of a larger one. -/
theorem exists_combination_succ {l s : List α} {m : Nat} (hs : s ∈ combinations l m)
    (h : m < l.length) : ∃ t ∈ combinations l (m + 1), s.Sublist t := by
  induction l generalizing s m with
  | nil => exact absurd h (Nat.not_lt_zero m)
  | cons a l ih =>
    obtain ⟨hsub, hlength⟩ := mem_combinations.mp hs
    rcases List.sublist_cons_iff.mp hsub with hskip | ⟨r, rfl, hr⟩
    · -- `a` is left out, so it can come in
      refine ⟨a :: s, mem_combinations.mpr ⟨hskip.cons_cons a, ?_⟩, List.sublist_cons_self a s⟩
      rw [List.length_cons, hlength]
    · obtain ⟨k, rfl⟩ : ∃ k, m = k + 1 := ⟨r.length, hlength.symm⟩
      have hr : r ∈ combinations l k := mem_combinations.mpr ⟨hr, Nat.succ.inj hlength⟩
      obtain ⟨t, ht, hsubt⟩ := ih hr (Nat.lt_of_succ_lt_succ h)
      obtain ⟨htl, htlength⟩ := mem_combinations.mp ht
      refine ⟨a :: t, mem_combinations.mpr ⟨htl.cons_cons a, ?_⟩, hsubt.cons_cons a⟩
      rw [List.length_cons, htlength]

/-- The share of combinations with elements of a kind only falls with their size. -/
theorem choose_mul_choose_le {j n : Nat} (h : j ≤ n) (m : Nat) :
    j.choose (m + 1) * n.choose m ≤ j.choose m * n.choose (m + 1) := by
  have hj := Nat.choose_succ_right_eq j m
  have hn := Nat.choose_succ_right_eq n m
  have hle : j - m ≤ n - m := Nat.sub_le_sub_right h m
  have hpos : 0 < m + 1 := Nat.succ_pos m
  apply Nat.le_of_mul_le_mul_right _ hpos
  calc j.choose (m + 1) * n.choose m * (m + 1)
      = j.choose (m + 1) * (m + 1) * n.choose m := by ring
    _ = j.choose m * (j - m) * n.choose m := by rw [hj]
    _ ≤ j.choose m * (n - m) * n.choose m := by gcongr
    _ = j.choose m * (n.choose m * (n - m)) := by ring
    _ = j.choose m * n.choose (m + 1) * (m + 1) := by rw [← hn]; ring

theorem countP_eq_sum (P : α → Bool) (l : List α) :
    l.countP P = (l.map fun a => if P a then 1 else 0).sum := by
  induction l with
  | nil => rfl
  | cons a l ih => rw [List.countP_cons, ih, List.map_cons, List.sum_cons, Nat.add_comm]

/-- Counted by the elements of one list or by those of the other. -/
theorem sum_countP_comm {β : Type*} (l : List α) (l' : List β) (P : α → β → Bool) :
    (l.map fun a => l'.countP fun b => P a b).sum =
      (l'.map fun b => l.countP fun a => P a b).sum := by
  induction l with
  | nil => simp
  | cons a l ih =>
    rw [List.map_cons, List.sum_cons, ih, countP_eq_sum (fun b => P a b), ← List.sum_map_add]
    refine congrArg List.sum (List.map_congr_left fun b _ => ?_)
    rw [List.countP_cons, Nat.add_comm]

end P5G
