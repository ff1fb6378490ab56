import Mathlib.Data.List.FinRange
import Mathlib.Data.String.Basic
import P5G.Bisect

/-!
# Joining grants and CRC rows

The proximity join of exp_run_report.py.  A row of the CRC trace is known by its
place there; the columns that only the printed tables use are left out.
-/

namespace P5G
namespace RunReport

/-- A row of gnb_sched_ul. -/
structure Grant where
  rnti : String
  harqId : String
  monoNs : Int

/-- A row of gnb_ul_crc. -/
structure CrcRow where
  rnti : String
  harqId : String
  monoNs : Int

def Grant.key (g : Grant) : String × String := (g.rnti, g.harqId)

def CrcRow.key (c : CrcRow) : String × String := (c.rnti, c.harqId)

/-- `20e6` -/
def windowNs : Int := 20000000

section

variable (crc : List CrcRow)

/-- `cidx[k]`, sorted; `ckeys[k]` holds the times. -/
def cidx (k : String × String) : List (Int × Fin crc.length) :=
  (((List.finRange crc.length).filter fun j => crc[j].key = k).map
    fun j => (crc[j].monoNs, j)).insertionSort fun a b => a.1 ≤ b.1

/-- The loop that fills `J`: the CRC row that is joined to a grant. -/
def join (g : Grant) : Option (Fin crc.length) :=
  match firstNotBelow Prod.fst (cidx crc g.key) g.monoNs with
  | none => none
  | some (m, j) => if windowNs < m - g.monoNs then none else some j

/-- The order of `cidx`: by time, and at one time as in the trace. -/
def Before (j j' : Fin crc.length) : Prop :=
  crc[j].monoNs < crc[j'].monoNs ∨ crc[j].monoNs = crc[j'].monoNs ∧ j < j'

theorem mem_cidx {k : String × String} {e : Int × Fin crc.length} :
    e ∈ cidx crc k ↔ crc[e.2].key = k ∧ e.1 = crc[e.2].monoNs := by
  rw [cidx, List.mem_insertionSort, List.mem_map]
  constructor
  · rintro ⟨j, hj, rfl⟩
    exact ⟨of_decide_eq_true (List.mem_filter.mp hj).2, rfl⟩
  · rintro ⟨hkey, htime⟩
    exact ⟨e.2, List.mem_filter.mpr ⟨List.mem_finRange e.2, decide_eq_true hkey⟩,
      Prod.ext htime.symm rfl⟩

theorem entry_mem_cidx {k : String × String} {j : Fin crc.length} (h : crc[j].key = k) :
    (crc[j].monoNs, j) ∈ cidx crc k := (mem_cidx crc).mpr ⟨h, rfl⟩

theorem cidx_pairwise (k : String × String) :
    (cidx crc k).Pairwise fun a b => a.1 < b.1 ∨ a.1 = b.1 ∧ a.2 < b.2 := by
  have hplaces : (((List.finRange crc.length).filter fun j => crc[j].key = k).map
      fun j => (crc[j].monoNs, j)).Pairwise fun a b => a.2 < b.2 :=
    List.pairwise_map.mpr ((List.pairwise_lt_finRange crc.length).filter _)
  exact insertionSort_stable hplaces

variable (g : Grant)

theorem firstNotBelow_cidx : firstNotBelow Prod.fst (cidx crc g.key) g.monoNs =
    (cidx crc g.key).find? fun e => decide (g.monoNs ≤ e.1) :=
  firstNotBelow_eq (List.pairwise_map.mpr ((cidx_pairwise crc g.key).imp
    fun h => h.elim Int.le_of_lt fun h => Int.le_of_eq h.1))

variable {crc g}

theorem not_before_of_find? {j : Fin crc.length} {m : Int}
    (hfind : (cidx crc g.key).find? (fun e => decide (g.monoNs ≤ e.1)) = some (m, j))
    {j' : Fin crc.length} (hkey : crc[j'].key = g.key) (hle : g.monoNs ≤ crc[j'].monoNs) :
    ¬ Before crc j' j := by
  have hm : m = crc[j].monoNs := ((mem_cidx crc).mp (List.mem_of_find?_eq_some hfind)).2
  have hcase := find?_before (cidx_pairwise crc g.key) hfind _ (entry_mem_cidx crc hkey)
    (decide_eq_true hle)
  rw [Prod.mk.injEq] at hcase
  dsimp only at hcase
  rw [Before]
  omega

/-- The first row of the process from the grant on, if it comes within the window. -/
theorem join_eq_some_iff {j : Fin crc.length} : join crc g = some j ↔
    (crc[j].key = g.key ∧ g.monoNs ≤ crc[j].monoNs ∧ crc[j].monoNs ≤ g.monoNs + windowNs) ∧
      ∀ j', crc[j'].key = g.key → g.monoNs ≤ crc[j'].monoNs → ¬ Before crc j' j := by
  rw [join, firstNotBelow_cidx]
  cases hfind : (cidx crc g.key).find? fun e => decide (g.monoNs ≤ e.1) with
  | none =>
    refine iff_of_false (fun h => nomatch h) fun h => ?_
    have hnone := List.find?_eq_none.mp hfind _ (entry_mem_cidx crc h.1.1)
    exact hnone (decide_eq_true h.1.2.1)
  | some e =>
    obtain ⟨m, first⟩ := e
    obtain ⟨hkey, hm⟩ := (mem_cidx crc).mp (List.mem_of_find?_eq_some hfind)
    have hfound := List.find?_some hfind
    have hle : g.monoNs ≤ m := of_decide_eq_true hfound
    dsimp only at hkey hm ⊢
    constructor
    · intro hjoin
      split at hjoin
      · cases hjoin
      · next hin =>
        cases hjoin
        exact ⟨⟨hkey, by omega, by omega⟩, fun j' => not_before_of_find? hfind⟩
    · rintro ⟨⟨hkey', hle', hin⟩, hfirst⟩
      -- neither of the two rows stands before the other
      have hlater := not_before_of_find? hfind hkey' hle'
      have hearlier := hfirst first hkey (by omega)
      have hsame : first = j := by
        rw [Before] at hlater hearlier
        omega
      subst hsame
      rw [if_neg (by omega)]

theorem join_eq_none_iff : join crc g = none ↔
    ∀ j : Fin crc.length, crc[j].key = g.key → g.monoNs ≤ crc[j].monoNs →
      g.monoNs + windowNs < crc[j].monoNs := by
  constructor
  · intro hnone j hkey hle
    rw [join, firstNotBelow_cidx] at hnone
    cases hfind : (cidx crc g.key).find? fun e => decide (g.monoNs ≤ e.1) with
    | none =>
      have habsent := List.find?_eq_none.mp hfind _ (entry_mem_cidx crc hkey)
      exact absurd (decide_eq_true hle) habsent
    | some e =>
      obtain ⟨m, first⟩ := e
      rw [hfind] at hnone
      have hfirst := not_before_of_find? hfind hkey hle
      have hm : m = crc[first].monoNs := ((mem_cidx crc).mp (List.mem_of_find?_eq_some hfind)).2
      dsimp only at hnone
      rw [Before] at hfirst
      split at hnone
      · omega
      · cases hnone
  · intro hlate
    cases hjoin : join crc g with
    | none => rfl
    | some j =>
      obtain ⟨⟨hkey, hle, hin⟩, -⟩ := join_eq_some_iff.mp hjoin
      have hlt := hlate j hkey hle
      omega

end

/-- The grants that the CRC rows belong to, for any part of the rows that were reported. -/
structure Ownership (sched : List Grant) (crc : List CrcRow) where
  owner : Fin crc.length → Fin sched.length
  injective : Function.Injective owner
  key : ∀ j, crc[j].key = sched[owner j].key
  follows : ∀ j, sched[owner j].monoNs ≤ crc[j].monoNs
  within : ∀ j, crc[j].monoNs ≤ sched[owner j].monoNs + windowNs

namespace Ownership

variable {sched : List Grant} {crc : List CrcRow} (o : Ownership sched crc)

/-- Of two grants of a process, the earlier one has its CRC row first. -/
def InOrder : Prop := ∀ j j' : Fin crc.length, crc[j].key = crc[j'].key →
  sched[o.owner j].monoNs < sched[o.owner j'].monoNs → crc[j].monoNs < crc[j'].monoNs

/-- A row is attached to the grant that it belongs to, and to no other. -/
def OneToOne : Prop := ∀ i j, join crc sched[i] = some j ↔ o.owner j = i

/-- No row of the process comes between a grant and its own row, or within the window of
a grant that has none. -/
structure Alone : Prop where
  first : ∀ j j' : Fin crc.length, crc[j'].key = crc[j].key →
    sched[o.owner j].monoNs ≤ crc[j'].monoNs → ¬ Before crc j' j
  missing : ∀ i : Fin sched.length, (∀ j, o.owner j ≠ i) → ∀ j : Fin crc.length,
    crc[j].key = sched[i].key → sched[i].monoNs ≤ crc[j].monoNs →
      sched[i].monoNs + windowNs < crc[j].monoNs

/-- The join is one-to-one, and right, exactly when no row stands where it is taken for
another. -/
theorem one_to_one_iff : o.OneToOne ↔ o.Alone := by
  constructor
  · intro h
    refine ⟨fun j j' hkey hle => ?_, fun i hmissing => ?_⟩
    · have hjoin := (h (o.owner j) j).mpr rfl
      exact (join_eq_some_iff.mp hjoin).2 j' (hkey.trans (o.key j)) hle
    · apply join_eq_none_iff.mp
      exact Option.eq_none_iff_forall_ne_some.mpr fun j hj => hmissing j ((h i j).mp hj)
  · rintro ⟨hfirst, hmissing⟩ i j
    have hown (j : Fin crc.length) : join crc sched[o.owner j] = some j :=
      join_eq_some_iff.mpr ⟨⟨o.key j, o.follows j, o.within j⟩,
        fun j' hkey hle => hfirst j j' (hkey.trans (o.key j).symm) hle⟩
    constructor
    · intro hjoin
      by_cases hi : ∃ j', o.owner j' = i
      · obtain ⟨j', rfl⟩ := hi
        rw [hown j', Option.some_inj] at hjoin
        rw [hjoin]
      · have hnone := join_eq_none_iff.mpr (hmissing i (not_exists.mp hi))
        rw [hnone] at hjoin
        cases hjoin
    · rintro rfl
      exact hown j

end Ownership

/-- Two transmissions of one process, and one of another whose CRC row is missing. -/
def apart : List Grant := [⟨"17921", "0", 0⟩, ⟨"17921", "0", 8000000⟩, ⟨"17921", "1", 9000000⟩]

def apartCrc : List CrcRow := [⟨"17921", "0", 4000000⟩, ⟨"17921", "0", 12000000⟩]

def apartOwner : Ownership apart apartCrc where
  owner j := ⟨j.val, Nat.lt_of_lt_of_le j.isLt (by decide)⟩
  injective := fun _ _ h => Fin.ext (Fin.mk.inj h)
  key := by decide
  follows := by decide
  within := by decide

theorem one_to_one_iff_apart : apartOwner.Alone ∧ apartOwner.OneToOne := by
  have halone : apartOwner.Alone := by
    refine ⟨?_, by decide⟩
    simp only [Before]
    decide
  exact ⟨halone, apartOwner.one_to_one_iff.mpr halone⟩

/-- A grant, and its retransmission 8 ms later. -/
def retransmitted : List Grant := [⟨"17921", "0", 0⟩, ⟨"17921", "0", 8000000⟩]

def lastCrc : List CrcRow := [⟨"17921", "0", 10000000⟩]

def lastOwner : Ownership retransmitted lastCrc where
  owner _ := ⟨1, by decide⟩
  injective := fun j j' _ => Subsingleton.elim (α := Fin 1) j j'
  key := by decide
  follows := by decide
  within := by decide

/-- The row is attached to both grants. -/
theorem one_to_one_retransmitted :
    ¬ ∀ (sched : List Grant) (crc : List CrcRow) (o : Ownership sched crc),
      o.InOrder → o.OneToOne := by
  intro h
  have horder : lastOwner.InOrder := by
    intro j j' _ hlt
    obtain rfl := Subsingleton.elim (α := Fin 1) j j'
    exact absurd hlt (Int.lt_irrefl _)
  have hboth : join lastCrc (retransmitted[0]) = some ⟨0, by decide⟩ := by decide
  have howner := (h _ _ lastOwner horder ⟨0, by decide⟩ ⟨0, by decide⟩).mp hboth
  exact absurd howner (by decide)

end RunReport
end P5G
