import P5G.Dict
import Mathlib.Algebra.BigOperators.Group.List.Basic
import Mathlib.Tactic.Ring

/-!
# Counters

A dictionary of amounts in which a key that is absent has the amount 0, as
Python's `Counter` and `defaultdict(int)`.
-/

namespace P5G

abbrev Counter (K : Type*) := Dict K Int

namespace Counter

variable {K : Type*} [DecidableEq K]

def get (d : Counter K) (k : K) : Int := (d.get? k).getD 0

/-- `d[k] += v` -/
def add (d : Counter K) (k : K) (v : Int) : Counter K := d.set k (d.get k + v)

def total (d : Counter K) (P : K → Bool) : Int :=
  ((d.entries.filter fun e => P e.1).map Prod.snd).sum

variable (d : Counter K) (k : K) (v : Int)

theorem get_add (k' : K) : get (add d k v) k' = get d k' + if k' = k then v else 0 := by
  by_cases hk : k' = k
  · subst hk
    rw [get, add, Dict.get?_set_self, if_pos rfl]
    rfl
  · rw [get, add, Dict.get?_set_ne hk, if_neg hk, Int.add_zero]
    rfl

theorem total_replace {l : List (K × Int)} (hnodup : (l.map Prod.fst).Nodup) {x : Int}
    (hmem : (k, x) ∈ l) (P : K → Bool) :
    (((Dict.replace k v l).filter fun e => P e.1).map Prod.snd).sum =
      ((l.filter fun e => P e.1).map Prod.snd).sum + if P k then v - x else 0 := by
  induction l with
  | nil => exact absurd hmem List.not_mem_nil
  | cons e l ih =>
    obtain ⟨j, y⟩ := e
    rw [List.map_cons, List.nodup_cons] at hnodup
    obtain ⟨hj, hl⟩ := hnodup
    have hhead : Dict.replace k v ((j, y) :: l) =
        (if j = k then (k, v) else (j, y)) :: Dict.replace k v l := rfl
    rw [hhead]
    by_cases hk : j = k
    · subst hk
      have hrest : Dict.replace j v l = l := by
        rw [Dict.replace]
        refine (List.map_congr_left fun e he => ?_).trans (List.map_id l)
        exact if_neg fun hej => hj (List.mem_map.mpr ⟨e, he, hej⟩)
      have hx : x = y := by
        rcases List.mem_cons.mp hmem with heq | hmem
        · exact congrArg Prod.snd heq
        · exact absurd (List.mem_map.mpr ⟨_, hmem, rfl⟩) hj
      rw [hrest, if_pos rfl, hx]
      by_cases hP : P j
      · simp only [List.filter_cons, hP, if_true, List.map_cons, List.sum_cons]
        ring
      · simp only [List.filter_cons, hP, Bool.false_eq_true, if_false, Int.add_zero]
    · have hmem : (k, x) ∈ l := by
        rcases List.mem_cons.mp hmem with heq | hmem
        · exact absurd (congrArg Prod.fst heq).symm hk
        · exact hmem
      rw [if_neg hk]
      by_cases hP : P j
      · simp only [List.filter_cons, hP, if_true, List.map_cons, List.sum_cons, ih hl hmem]
        ring
      · simp only [List.filter_cons, hP, Bool.false_eq_true, if_false, ih hl hmem]

theorem total_add (P : K → Bool) : total (add d k v) P = total d P + if P k then v else 0 := by
  rw [total, add, Dict.set]
  split
  · next hmem =>
    obtain ⟨⟨k', x⟩, hx, rfl⟩ := List.mem_map.mp hmem
    have hget : get d k' = x := by
      rw [get, Dict.get?_eq_some_iff.mpr hx]
      rfl
    rw [total_replace k' _ d.nodup hx, hget, total, show x + v - x = v by omega]
  · next hmem =>
    have hget : get d k = 0 := by
      rw [get, Dict.get?_eq_none_iff.mpr hmem]
      rfl
    simp only [List.filter_append, List.map_append, List.sum_append, hget, total, Int.zero_add,
      List.filter_cons, List.filter_nil]
    split
    · simp
    · simp

theorem get_empty : get (Dict.empty : Counter K) k = 0 := rfl

omit [DecidableEq K] in
theorem total_empty (P : K → Bool) : total (Dict.empty : Counter K) P = 0 := rfl

end Counter
end P5G
