import P5G.Dict
import Mathlib.Data.List.Count
import Mathlib.Data.List.Perm.Basic

/-!
# Rows by key

A loop that keeps one state for each key and turns only the state of a row's own key does to
the rows of one key what it would do to them alone.  What it puts out is the same as for the
keys one after another, but for the order.
-/

namespace P5G

/-- Two lists with the same elements of every kind, kind by kind. -/
theorem perm_of_filter_eq {γ κ : Type*} [DecidableEq γ] [DecidableEq κ] (tag : γ → κ)
    {as bs : List γ} (h : ∀ k, as.filter (fun x => tag x = k) = bs.filter fun x => tag x = k) :
    as.Perm bs := by
  refine List.perm_iff_count.mpr fun a => ?_
  have hcount : ∀ l : List γ, l.count a = (l.filter fun x => tag x = tag a).count a :=
    fun l => (List.count_filter (by simp)).symm
  rw [hcount as, hcount bs, h]

/-- What a row does to the state of its key, and what it puts out.  A key keeps its state. -/
structure Keyed (α κ σ β : Type*) where
  key : α → κ
  step : Option σ → α → Option σ × List β
  keeps : ∀ s x, (step (some s) x).1 ≠ none

namespace Keyed

variable {α κ σ β : Type*} (m : Keyed α κ σ β)

def one : Option σ → List α → Option σ × List β
  | s, [] => (s, [])
  | s, x :: xs => ((one (m.step s x).1 xs).1, (m.step s x).2 ++ (one (m.step s x).1 xs).2)

variable [DecidableEq κ]

def store (d : Dict κ σ) (k : κ) : Option σ → Dict κ σ
  | none => d
  | some s => d.set k s

def all : Dict κ σ → List α → Dict κ σ × List (κ × β)
  | d, [] => (d, [])
  | d, x :: xs =>
    let r := m.step (d.get? (m.key x)) x
    let rest := all (store d (m.key x) r.1) xs
    (rest.1, r.2.map (fun b => (m.key x, b)) ++ rest.2)

theorem get?_store_ne (d : Dict κ σ) {k k' : κ} (h : k' ≠ k) (s : Option σ) :
    (store d k s).get? k' = d.get? k' := by
  cases s with
  | none => rfl
  | some s => exact Dict.get?_set_ne h

theorem get?_store_step (d : Dict κ σ) (x : α) :
    (store d (m.key x) (m.step (d.get? (m.key x)) x).1).get? (m.key x) =
      (m.step (d.get? (m.key x)) x).1 := by
  cases hs : (m.step (d.get? (m.key x)) x).1 with
  | some s => exact Dict.get?_set_self
  | none =>
    show d.get? (m.key x) = none
    cases hd : d.get? (m.key x) with
    | none => rfl
    | some s =>
      rw [hd] at hs
      exact absurd hs (m.keeps s x)

theorem all_one (k : κ) (xs : List α) (d : Dict κ σ) :
    (m.all d xs).1.get? k = (m.one (d.get? k) (xs.filter fun x => m.key x = k)).1 ∧
      (m.all d xs).2.filter (fun e => e.1 = k) =
        (m.one (d.get? k) (xs.filter fun x => m.key x = k)).2.map fun b => (k, b) := by
  induction xs generalizing d with
  | nil => exact ⟨rfl, rfl⟩
  | cons x xs ih =>
    obtain ⟨hget, hout⟩ := ih (store d (m.key x) (m.step (d.get? (m.key x)) x).1)
    simp only [all, List.filter_append]
    by_cases hk : m.key x = k
    · rw [List.filter_cons_of_pos (by simpa using hk), one]
      have hown := m.get?_store_step d x
      rw [hk] at hown hget hout ⊢
      rw [hown] at hget hout
      refine ⟨hget, ?_⟩
      rw [hout, List.map_append, List.filter_eq_self.mpr]
      intro e he
      obtain ⟨b, -, rfl⟩ := List.mem_map.mp he
      exact decide_eq_true rfl
    · rw [List.filter_cons_of_neg (by simpa using hk)]
      rw [get?_store_ne d (Ne.symm hk)] at hget hout
      refine ⟨hget, ?_⟩
      rw [hout, List.filter_eq_nil_iff.mpr, List.nil_append]
      intro e he
      obtain ⟨b, -, rfl⟩ := List.mem_map.mp he
      simpa using hk

section

variable {γ τ : Type*} {f : β → Option γ} {tag : τ → κ} {read : τ → List γ}

theorem filter_collected (k : κ) (es : List (κ × β)) :
    (es.filterMap fun e => (f e.2).map fun y => (e.1, y)).filter (fun e => e.1 = k) =
      (((es.filter fun e => e.1 = k).map Prod.snd).filterMap f).map fun y => (k, y) := by
  induction es with
  | nil => rfl
  | cons e es ih =>
    by_cases hk : e.1 = k
    · rw [List.filter_cons_of_pos (by simpa using hk), List.map_cons]
      cases hf : f e.2 with
      | none =>
        rw [List.filterMap_cons_none (by rw [hf]; rfl), List.filterMap_cons_none hf, ih]
      | some y =>
        rw [List.filterMap_cons_some (by rw [hf]; rfl), List.filterMap_cons_some hf,
          List.filter_cons_of_pos (by simpa using hk), ih, List.map_cons, hk]
    · rw [List.filter_cons_of_neg (by simpa using hk), ← ih]
      cases hf : f e.2 with
      | none => rw [List.filterMap_cons_none (by rw [hf]; rfl)]
      | some y =>
        rw [List.filterMap_cons_some (by rw [hf]; rfl), List.filter_cons_of_neg (by simpa using hk)]

theorem filter_read (k : κ) (bs : List τ) :
    (bs.flatMap fun b => (read b).map fun y => (tag b, y)).filter (fun e => e.1 = k) =
      ((bs.filter fun b => tag b = k).flatMap read).map fun y => (k, y) := by
  induction bs with
  | nil => rfl
  | cons b bs ih =>
    rw [List.flatMap_cons, List.filter_append, ih]
    by_cases hk : tag b = k
    · rw [List.filter_cons_of_pos (by simpa using hk), List.flatMap_cons, List.map_append, hk,
        List.filter_eq_self.mpr]
      intro e he
      obtain ⟨y, -, rfl⟩ := List.mem_map.mp he
      exact decide_eq_true rfl
    · rw [List.filter_cons_of_neg (by simpa using hk), List.filter_eq_nil_iff.mpr, List.nil_append]
      intro e he
      obtain ⟨y, -, rfl⟩ := List.mem_map.mp he
      simpa using hk

/-- What is read off the parts that the rows of each key fall into is, but for the order, what
the loop puts out. -/
theorem perm_all [DecidableEq γ] {xs : List α} {parts : List α → List τ}
    (hparts : ∀ k, (parts xs).filter (fun b => tag b = k) =
      parts (xs.filter fun x => m.key x = k))
    (hone : ∀ k, (m.one none (xs.filter fun x => m.key x = k)).2.filterMap f =
      (parts (xs.filter fun x => m.key x = k)).flatMap read) :
    ((m.all .empty xs).2.filterMap fun e => (f e.2).map fun y => (e.1, y)).Perm
      ((parts xs).flatMap fun b => (read b).map fun y => (tag b, y)) := by
  refine perm_of_filter_eq Prod.fst fun k => ?_
  have hout := (m.all_one k xs .empty).2
  rw [show (Dict.empty : Dict κ σ).get? k = none from rfl] at hout
  rw [filter_collected, filter_read, hparts, ← hone, hout, List.map_map]
  show ((List.map id _).filterMap f).map _ = _
  rw [List.map_id]

end

end Keyed

namespace Dict

variable {K V : Type*} [DecidableEq K]

/-- `d[k]` of a `defaultdict(list)` -/
def listAt (d : Dict K (List V)) (k : K) : List V := (d.get? k).getD []

/-- `d[k].append(v)` -/
def push (d : Dict K (List V)) (k : K) (v : V) : Dict K (List V) := d.set k (d.listAt k ++ [v])

theorem listAt_push (d : Dict K (List V)) (k k' : K) (v : V) :
    (d.push k v).listAt k' = d.listAt k' ++ if k' = k then [v] else [] := by
  rw [listAt, push]
  by_cases hk : k' = k
  · rw [hk, get?_set_self, if_pos rfl]
    rfl
  · rw [get?_set_ne hk, if_neg hk, List.append_nil, listAt]

end Dict
end P5G
