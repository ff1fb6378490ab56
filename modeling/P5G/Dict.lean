import Mathlib.Data.List.Nodup
import Mathlib.Data.List.Basic
import Mathlib.Data.List.Induction

/-!
# Insertion-ordered dictionaries

A dictionary keeps its entries in the order in which their keys were first
inserted.  Setting a key that is present replaces the value in place; `edits`
counts the insertions of new keys and the removals, which are what an iteration
under way can notice.
-/

namespace P5G

structure Dict (K V : Type*) where
  entries : List (K × V)
  edits : Nat
  nodup : (entries.map Prod.fst).Nodup

namespace Dict

variable {K V : Type*} [DecidableEq K] (d : Dict K V) (k : K) (v : V)

def empty : Dict K V := ⟨[], 0, List.nodup_nil⟩

def get? : Option V := (d.entries.find? (fun e => e.1 = k)).map Prod.snd

def size : Nat := d.entries.length

def replace (l : List (K × V)) : List (K × V) := l.map fun e => if e.1 = k then (k, v) else e

omit [DecidableEq K] in
theorem map_fst_replace [DecidableEq K] (l : List (K × V)) :
    (replace k v l).map Prod.fst = l.map Prod.fst := by
  rw [replace, List.map_map]
  refine List.map_congr_left (fun e _ => ?_)
  simp only [Function.comp_apply]
  split
  · next h => exact h.symm
  · rfl

def set : Dict K V :=
  if h : k ∈ d.entries.map Prod.fst then
    ⟨replace k v d.entries, d.edits, by rw [map_fst_replace]; exact d.nodup⟩
  else
    ⟨d.entries ++ [(k, v)], d.edits + 1, by
      rw [List.map_append, List.nodup_append]
      refine ⟨d.nodup, List.nodup_singleton k, ?_⟩
      intro a ha b hb hab
      have hbk : b = k := List.mem_singleton.mp hb
      rw [hab, hbk] at ha
      exact h ha⟩

def erase : Dict K V :=
  if k ∈ d.entries.map Prod.fst then
    ⟨d.entries.filter (fun e => e.1 ≠ k), d.edits + 1,
      d.nodup.sublist (List.filter_sublist.map Prod.fst)⟩
  else d

def mapValues {W : Type*} (f : V → W) : Dict K W where
  entries := d.entries.map fun e => (e.1, f e.2)
  edits := d.edits
  nodup := by
    rw [List.map_map]
    exact d.nodup

theorem get?_mapValues {W : Type*} (f : V → W) : (d.mapValues f).get? k = (d.get? k).map f := by
  rw [get?, get?, mapValues, List.find?_map, Option.map_map, Option.map_map]
  rfl

variable {d k v}

theorem get?_eq_some_iff : d.get? k = some v ↔ (k, v) ∈ d.entries := by
  rw [get?, Option.map_eq_some_iff]
  constructor
  · rintro ⟨⟨k', v'⟩, hf, rfl⟩
    have hk : k' = k := by simpa using List.find?_some hf
    exact hk ▸ List.mem_of_find?_eq_some hf
  · intro hmem
    cases hf : d.entries.find? (fun e => e.1 = k) with
    | none => exact absurd (List.find?_eq_none.mp hf _ hmem) (by simp)
    | some e =>
      have hk : e.1 = k := by simpa using List.find?_some hf
      have heq : e = (k, v) :=
        List.inj_on_of_nodup_map d.nodup (List.mem_of_find?_eq_some hf) hmem hk
      exact ⟨e, rfl, by rw [heq]⟩

theorem get?_eq_none_iff : d.get? k = none ↔ k ∉ d.entries.map Prod.fst := by
  rw [← not_iff_not, not_not, ← ne_eq, Option.ne_none_iff_exists']
  simp only [get?_eq_some_iff, List.mem_map, Prod.exists, exists_and_right, exists_eq_right]

@[simp] theorem get?_empty : (empty : Dict K V).get? k = none := rfl

@[simp] theorem get?_set_self : (d.set k v).get? k = some v := by
  rw [get?_eq_some_iff, set]
  split
  · next h =>
    obtain ⟨e, he, hk⟩ := List.mem_map.mp h
    exact List.mem_map.mpr ⟨e, he, if_pos hk⟩
  · exact List.mem_append_right _ (List.mem_singleton.mpr rfl)

theorem get?_set_ne {k' : K} (h : k' ≠ k) : (d.set k v).get? k' = d.get? k' := by
  ext v'
  rw [get?_eq_some_iff, get?_eq_some_iff, set]
  split
  · show (k', v') ∈ replace k v d.entries ↔ _
    rw [replace, List.mem_map]
    constructor
    · rintro ⟨e, he, heq⟩
      split at heq
      · cases heq
        exact absurd rfl h
      · exact heq ▸ he
    · intro he
      exact ⟨_, he, if_neg h⟩
  · show (k', v') ∈ d.entries ++ [(k, v)] ↔ _
    rw [List.mem_append, List.mem_singleton, Prod.mk.injEq]
    exact ⟨fun hm => hm.resolve_right (fun hr => h hr.1), .inl⟩

@[simp] theorem get?_erase_self : (d.erase k).get? k = none := by
  rw [get?_eq_none_iff, erase]
  split
  · intro hm
    obtain ⟨e, he, hk⟩ := List.mem_map.mp hm
    simpa [hk] using (List.mem_filter.mp he).2
  · next h => exact h

theorem get?_erase_ne {k' : K} (h : k' ≠ k) : (d.erase k).get? k' = d.get? k' := by
  ext v'
  rw [get?_eq_some_iff, get?_eq_some_iff, erase]
  split
  · rw [List.mem_filter]
    simp [h]
  · rfl

theorem get?_of_getElem? {i : Nat} (h : d.entries[i]? = some (k, v)) : d.get? k = some v :=
  get?_eq_some_iff.mpr (List.mem_of_getElem? h)

theorem exists_getElem? (h : d.get? k = some v) : ∃ i : Nat, d.entries[i]? = some (k, v) :=
  List.mem_iff_getElem?.mp (get?_eq_some_iff.mp h)

theorem set_of_not_mem (h : d.get? k = none) :
    (d.set k v).edits = d.edits + 1 ∧ (d.set k v).entries = d.entries ++ [(k, v)] := by
  rw [set, dif_neg (get?_eq_none_iff.mp h)]
  exact ⟨rfl, rfl⟩

theorem entries_set_nil (h : d.entries = []) : (d.set k v).entries = [(k, v)] := by
  have hnone : d.get? k = none := by
    rw [get?_eq_none_iff, h]
    exact List.not_mem_nil
  rw [(set_of_not_mem hnone).2, h]
  rfl

theorem entries_set_single {w : V} (h : d.entries = [(k, v)]) :
    (d.set k w).entries = [(k, w)] := by
  have hmem : k ∈ d.entries.map Prod.fst := by
    rw [h]
    exact List.mem_singleton.mpr rfl
  rw [set, dif_pos hmem]
  show replace k w d.entries = _
  rw [h, replace, List.map_singleton, if_pos rfl]

/-- What does not look at the entry that goes does not notice. -/
theorem filter_erase {P : K × V → Bool} (h : ∀ v, (k, v) ∈ d.entries → P (k, v) = false) :
    (d.erase k).entries.filter P = d.entries.filter P := by
  rw [erase]
  split
  · rw [List.filter_filter]
    refine List.filter_congr fun e he => ?_
    obtain ⟨k', v⟩ := e
    by_cases hk : k' = k
    · subst hk
      rw [h v he, Bool.false_and]
    · simp [hk]
  · rfl

theorem filter_replace {P : K × V → Bool} {l : List (K × V)} (hnew : P (k, v) = false)
    (h : ∀ e ∈ l, e.1 = k → P e = false) : (replace k v l).filter P = l.filter P := by
  induction l with
  | nil => rfl
  | cons e l ih =>
    have hl : (replace k v l).filter P = l.filter P := ih fun e' he' => h e' (List.mem_cons_of_mem _ he')
    rw [replace, List.map_cons, ← replace]
    by_cases hk : e.1 = k
    · rw [if_pos hk, List.filter_cons_of_neg (by simp [hnew]),
        List.filter_cons_of_neg (by simp [h e List.mem_cons_self hk]), hl]
    · rw [if_neg hk, List.filter_cons, List.filter_cons, hl]

/-- What looks at neither the value that comes nor the one that goes does not
notice. -/
theorem filter_set {P : K × V → Bool} (hnew : P (k, v) = false)
    (hold : ∀ w, d.get? k = some w → P (k, w) = false) :
    (d.set k v).entries.filter P = d.entries.filter P := by
  rw [set]
  split
  · refine filter_replace hnew fun e he hk => ?_
    subst hk
    exact hold e.2 (get?_eq_some_iff.mpr he)
  · rw [List.filter_append, List.filter_cons_of_neg (by simp [hnew]), List.filter_nil,
      List.append_nil]

/-- `dict(items)`: a key that comes again replaces its value. -/
def ofPairs (items : List (K × V)) : Dict K V := items.foldl (fun d e => d.set e.1 e.2) empty

theorem entries_ofPairs {items : List (K × V)} (h : (items.map Prod.fst).Nodup) :
    (ofPairs items).entries = items := by
  induction items using List.reverseRecOn with
  | nil => rfl
  | append_singleton items e ih =>
    rw [List.map_append, List.nodup_append] at h
    have hitems := ih h.1
    have hnew : (ofPairs items).get? e.1 = none := by
      rw [get?_eq_none_iff, hitems]
      exact fun hmem => h.2.2 _ hmem _ List.mem_cons_self rfl
    rw [ofPairs, List.foldl_append]
    show ((ofPairs items).set e.1 e.2).entries = items ++ [e]
    rw [(set_of_not_mem hnew).2, hitems]

/-- Set in turn, the last item with a key has it. -/
theorem get?_foldl_set {α : Type*} (key : α → K) (val : α → V) (items : List α) (k : K) :
    (items.foldl (fun d x => d.set (key x) (val x)) empty).get? k =
      (items.reverse.find? fun x => key x = k).map val := by
  induction items using List.reverseRecOn with
  | nil => rfl
  | append_singleton items x ih =>
    rw [List.foldl_append, List.foldl_cons, List.foldl_nil, List.reverse_append,
      List.reverse_singleton, List.singleton_append, List.find?_cons]
    by_cases hk : key x = k
    · subst hk
      rw [get?_set_self, decide_eq_true rfl]
      rfl
    · rw [get?_set_ne (Ne.symm hk), ih, decide_eq_false hk]

/-- Keys keep their positions until one comes or goes. -/
structure Stable (d d' : Dict K V) : Prop where
  edits : d.edits ≤ d'.edits
  keys : d'.edits = d.edits → d'.entries.map Prod.fst = d.entries.map Prod.fst

namespace Stable

variable {d' d'' : Dict K V}

omit [DecidableEq K] in
theorem refl (d : Dict K V) : Stable d d := ⟨Nat.le_refl _, fun _ => rfl⟩

omit [DecidableEq K] in
theorem trans (h : Stable d d') (h' : Stable d' d'') : Stable d d'' := by
  have hle := h.edits
  have hle' := h'.edits
  exact ⟨by omega, fun he => (h'.keys (by omega)).trans (h.keys (by omega))⟩

theorem set : Stable d (d.set k v) := by
  rw [Dict.set]
  split
  · exact ⟨Nat.le_refl _, fun _ => map_fst_replace k v d.entries⟩
  · exact ⟨Nat.le_succ _, fun h => absurd h (Nat.succ_ne_self _)⟩

theorem erase : Stable d (d.erase k) := by
  rw [Dict.erase]
  split
  · exact ⟨Nat.le_succ _, fun h => absurd h (Nat.succ_ne_self _)⟩
  · exact refl d

/-- An iteration finds an entry that is still there where it was. -/
theorem entry (h : Stable d d') (he : d'.edits = d.edits) {i : Nat}
    (hi : d.entries[i]? = some (k, v)) (hget : d'.get? k = some v) :
    d'.entries[i]? = some (k, v) := by
  have hkey : (d'.entries.map Prod.fst)[i]? = some k := by
    rw [h.keys he, List.getElem?_map, hi]
    rfl
  rw [List.getElem?_map, Option.map_eq_some_iff] at hkey
  obtain ⟨⟨k', v'⟩, hi', rfl⟩ := hkey
  have hv := get?_of_getElem? hi'
  rw [hget] at hv
  cases hv
  exact hi'

end Stable

end Dict
end P5G
