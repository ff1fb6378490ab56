import P5G.Bisect

/-!
# Relative one-way delays

exp_sender_report.py joins the packets of a receiver to those of its sender by SSRC and sequence
number, and takes the delay of each without a common clock.  Times are nanoseconds; the script
prints them in milliseconds, by bins of the time of arrival.
-/

namespace P5G
namespace SenderReport

/-- The columns of a row of tx-rtp and of rx-rtp that the join reads; `counts` is `dir == 'out'`
at the sender and `dir == 'in'` at the receiver. -/
structure PacketRow where
  ssrc : String
  seq : String
  counts : Bool
  logMonoNs : Int
  deriving DecidableEq

def PacketRow.key (r : PacketRow) : String × String := (r.ssrc, r.seq)

/-- `txi[k]`, sorted -/
def txi (tx : List PacketRow) (k : String × String) : List Int :=
  ((tx.filter fun r => r.counts ∧ r.key = k).map (·.logMonoNs)).insertionSort (· ≤ ·)

def rxin (rx : List PacketRow) : List PacketRow := rx.filter (·.counts)

/-- `first` -/
def firstMatch (tx rx : List PacketRow) : Option PacketRow :=
  (rxin rx).find? fun r => !(txi tx r.key).isEmpty

/-- `off`, if there is a match -/
def offset (tx rx : List PacketRow) : Option Int :=
  (firstMatch tx rx).bind fun r => (txi tx r.key).head?.map fun m => r.logMonoNs - m

/-- `l[i]`, unless it is passed over -/
def matched (l : List Int) (target : Int) : Option Int :=
  (lastNotAbove id l (target + 2000000000)).filter fun m => (m - target).natAbs ≤ 5000000000

/-- `pairs`: when a packet arrived, and its delay over that of `first`. -/
def pairs (tx rx : List PacketRow) (off : Int) : List (Int × Int) :=
  (rxin rx).filterMap fun r => (matched (txi tx r.key) (r.logMonoNs - off)).map fun m =>
    (r.logMonoNs, r.logMonoNs - m - off)

/-- `v - base` of each pair; `min` of no pairs is an error. -/
def normalised (ps : List (Int × Int)) : Option (List (Int × Int)) :=
  (ps.map Prod.snd).min?.map fun base => ps.map fun p => (p.1, p.2 - base)

def relativeDelays (tx rx : List PacketRow) : Option (List (Int × Int)) :=
  (offset tx rx).bind fun off => normalised (pairs tx rx off)

section

variable {l l' : List Int} {x m : Int}

def Latest (l : List Int) (x m : Int) : Prop := (m ∈ l ∧ m ≤ x) ∧ ∀ a ∈ l, a ≤ x → a ≤ m

theorem lastNotAbove_iff (h : l.Pairwise (· ≤ ·)) :
    lastNotAbove id l x = some m ↔ Latest l x m := by
  rw [lastNotAbove_eq (by rwa [List.map_id])]
  have hsorted : (l.filter fun b => decide (id b ≤ x)).Pairwise (· ≤ ·) := h.filter _
  have hmem : ∀ a, a ∈ l.filter (fun b => decide (id b ≤ x)) ↔ a ∈ l ∧ a ≤ x := by
    intro a
    rw [List.mem_filter, decide_eq_true_eq, id_eq]
  constructor
  · intro hlast
    have hin := (hmem m).mp (List.mem_of_getLast? hlast)
    refine ⟨hin, fun a ha hax => ?_⟩
    obtain ⟨before, hbefore⟩ := List.getLast?_eq_some_iff.mp hlast
    have ha := (hmem a).mpr ⟨ha, hax⟩
    rw [hbefore] at ha hsorted
    cases List.mem_append.mp ha with
    | inl hold => exact (List.pairwise_append.mp hsorted).2.2 a hold m (List.mem_singleton_self m)
    | inr hnew => exact Int.le_of_eq (List.mem_singleton.mp hnew)
  · rintro ⟨hin, hlatest⟩
    have hne : l.filter (fun b => decide (id b ≤ x)) ≠ [] :=
      List.ne_nil_of_mem ((hmem m).mpr hin)
    rw [List.getLast?_eq_some_getLast hne, Option.some_inj]
    have hlast := (hmem _).mp (List.getLast_mem hne)
    obtain ⟨before, hbefore⟩ := List.getLast?_eq_some_iff.mp (List.getLast?_eq_some_getLast hne)
    have hm := (hmem m).mpr hin
    rw [hbefore] at hm hsorted
    refine Int.le_antisymm (hlatest _ hlast.1 hlast.2) ?_
    cases List.mem_append.mp hm with
    | inl hold => exact (List.pairwise_append.mp hsorted).2.2 m hold _ (List.mem_singleton_self _)
    | inr hnew => exact Int.le_of_eq (List.mem_singleton.mp hnew)

theorem head?_iff (h : l.Pairwise (· ≤ ·)) :
    l.head? = some m ↔ m ∈ l ∧ ∀ a ∈ l, m ≤ a := by
  cases l with
  | nil => simp
  | cons b l =>
    obtain ⟨hb, -⟩ := List.pairwise_cons.mp h
    rw [List.head?_cons, Option.some_inj]
    constructor
    · rintro rfl
      exact ⟨List.mem_cons_self, List.forall_mem_cons.mpr ⟨Int.le_refl _, hb⟩⟩
    · rintro ⟨hm, hle⟩
      refine Int.le_antisymm ?_ (hle b List.mem_cons_self)
      cases List.mem_cons.mp hm with
      | inl hsame => exact Int.le_of_eq hsame.symm
      | inr hin => exact hb m hin

end

theorem txi_pairwise (tx : List PacketRow) (k : String × String) : (txi tx k).Pairwise (· ≤ ·) :=
  List.pairwise_insertionSort (· ≤ ·) _

theorem mem_txi {tx : List PacketRow} {k : String × String} {m : Int} :
    m ∈ txi tx k ↔ ∃ r ∈ tx, (r.counts = true ∧ r.key = k) ∧ r.logMonoNs = m := by
  rw [txi, List.mem_insertionSort, List.mem_map]
  simp only [List.mem_filter, Bool.decide_and, Bool.decide_eq_true, Bool.and_eq_true,
    decide_eq_true_eq, and_assoc]

theorem matched_iff {l : List Int} {target m : Int} (h : l.Pairwise (· ≤ ·)) :
    matched l target = some m ↔
      Latest l (target + 2000000000) m ∧ (m - target).natAbs ≤ 5000000000 := by
  rw [matched, Option.filter_eq_some_iff, lastNotAbove_iff h, decide_eq_true_eq]

def PacketRow.ahead (d : Int) (r : PacketRow) : PacketRow :=
  { r with logMonoNs := r.logMonoNs + d }

section

variable (d : Int) {tx rx : List PacketRow}

theorem mem_txi_ahead {k : String × String} {m : Int} :
    m ∈ txi (tx.map (·.ahead d)) k ↔ m - d ∈ txi tx k := by
  rw [mem_txi, mem_txi]
  constructor
  · rintro ⟨r', hr', hkey, rfl⟩
    obtain ⟨r, hr, rfl⟩ := List.mem_map.mp hr'
    exact ⟨r, hr, hkey, (Int.add_sub_cancel r.logMonoNs d).symm⟩
  · rintro ⟨r, hr, hkey, htime⟩
    refine ⟨r.ahead d, List.mem_map_of_mem hr, hkey, ?_⟩
    show r.logMonoNs + d = m
    omega

theorem matched_ahead (k : String × String) (target : Int) :
    matched (txi (tx.map (·.ahead d)) k) (target + d) =
      (matched (txi tx k) target).map (· + d) := by
  ext m
  rw [matched_iff (txi_pairwise _ k), Option.map_eq_some_iff]
  constructor
  · rintro ⟨⟨⟨hm, hle⟩, hlatest⟩, hnear⟩
    refine ⟨m - d, (matched_iff (txi_pairwise tx k)).mpr
      ⟨⟨⟨(mem_txi_ahead d).mp hm, by omega⟩, fun a ha hax => ?_⟩, by omega⟩, by omega⟩
    have hshifted := hlatest (a + d) ((mem_txi_ahead d).mpr (by rwa [Int.add_sub_cancel]))
      (by omega)
    omega
  · rintro ⟨m, hm, rfl⟩
    obtain ⟨⟨⟨hm, hle⟩, hlatest⟩, hnear⟩ := (matched_iff (txi_pairwise tx k)).mp hm
    refine ⟨⟨⟨(mem_txi_ahead d).mpr (by rwa [Int.add_sub_cancel]), by omega⟩, fun a ha hax => ?_⟩,
      by omega⟩
    have hshifted := hlatest (a - d) ((mem_txi_ahead d).mp ha) (by omega)
    omega

theorem head?_ahead (k : String × String) :
    (txi (tx.map (·.ahead d)) k).head? = (txi tx k).head?.map (· + d) := by
  ext m
  rw [head?_iff (txi_pairwise _ k), Option.map_eq_some_iff]
  constructor
  · rintro ⟨hm, hleast⟩
    refine ⟨m - d, (head?_iff (txi_pairwise tx k)).mpr ⟨(mem_txi_ahead d).mp hm, fun a ha => ?_⟩,
      by omega⟩
    have hshifted := hleast (a + d) ((mem_txi_ahead d).mpr (by rwa [Int.add_sub_cancel]))
    omega
  · rintro ⟨m, hm, rfl⟩
    obtain ⟨hm, hleast⟩ := (head?_iff (txi_pairwise tx k)).mp hm
    refine ⟨(mem_txi_ahead d).mpr (by rwa [Int.add_sub_cancel]), fun a ha => ?_⟩
    have hshifted := hleast (a - d) ((mem_txi_ahead d).mp ha)
    omega

theorem firstMatch_ahead : firstMatch (tx.map (·.ahead d)) rx = firstMatch tx rx := by
  have hempty (k : String × String) :
      (txi (tx.map (·.ahead d)) k).isEmpty = (txi tx k).isEmpty := by
    rw [Bool.eq_iff_iff, List.isEmpty_iff, List.isEmpty_iff, ← List.head?_eq_none_iff,
      ← List.head?_eq_none_iff, head?_ahead, Option.map_eq_none_iff]
  rw [firstMatch, firstMatch]
  simp only [hempty]

theorem offset_ahead : offset (tx.map (·.ahead d)) rx = (offset tx rx).map (· - d) := by
  rw [offset, offset, firstMatch_ahead]
  cases firstMatch tx rx with
  | none => rfl
  | some r =>
    rw [Option.bind_some, Option.bind_some, head?_ahead]
    cases (txi tx r.key).head? with
    | none => rfl
    | some m =>
      show some (r.logMonoNs - (m + d)) = some (r.logMonoNs - m - d)
      rw [Int.sub_sub]

theorem pairs_ahead (off : Int) : pairs (tx.map (·.ahead d)) rx (off - d) = pairs tx rx off := by
  rw [pairs, pairs]
  refine List.filterMap_congr fun r _ => ?_
  have htarget : r.logMonoNs - (off - d) = r.logMonoNs - off + d := by omega
  rw [htarget, matched_ahead, Option.map_map]
  cases matched (txi tx r.key) (r.logMonoNs - off) with
  | none => rfl
  | some m =>
    show some (r.logMonoNs, r.logMonoNs - (m + d) - (off - d)) = some (r.logMonoNs, _)
    rw [Option.some_inj, Prod.mk.injEq]
    exact ⟨rfl, by omega⟩

end

/-- The packet that the offset is taken from is matched. -/
theorem pairs_ne_nil {tx rx : List PacketRow} {off : Int} (h : offset tx rx = some off) :
    pairs tx rx off ≠ [] := by
  obtain ⟨r, hr, hoff⟩ := Option.bind_eq_some_iff.mp h
  obtain ⟨m, hm, rfl⟩ := Option.map_eq_some_iff.mp hoff
  obtain ⟨hin, hleast⟩ := (head?_iff (txi_pairwise tx r.key)).mp hm
  have hsorted := txi_pairwise tx r.key
  have hsome : ∃ a, Latest (txi tx r.key) (m + 2000000000) a := by
    cases hlast : lastNotAbove id (txi tx r.key) (m + 2000000000) with
    | some a => exact ⟨a, (lastNotAbove_iff hsorted).mp hlast⟩
    | none =>
      rw [lastNotAbove_eq (by rwa [List.map_id]), List.getLast?_eq_none_iff,
        List.filter_eq_nil_iff] at hlast
      exact absurd (decide_eq_true (by rw [id_eq]; omega)) (hlast m hin)
  obtain ⟨a, ha⟩ := hsome
  have hle := hleast a ha.1.1
  have hub := ha.1.2
  have hmatch : matched (txi tx r.key) (r.logMonoNs - (r.logMonoNs - m)) = some a := by
    rw [Int.sub_sub_self]
    exact (matched_iff hsorted).mpr ⟨ha, by omega⟩
  have hpair : (r.logMonoNs, r.logMonoNs - a - (r.logMonoNs - m)) ∈
      pairs tx rx (r.logMonoNs - m) :=
    List.mem_filterMap.mpr ⟨r, List.mem_of_find?_eq_some hr, by rw [hmatch]; rfl⟩
  exact List.ne_nil_of_mem hpair

/-- Where there is a match the delays are there, none is negative and one is zero; and they do
not depend on the clock of the sender. -/
theorem relative_delays (tx rx : List PacketRow) :
    (∀ d, relativeDelays (tx.map (·.ahead d)) rx = relativeDelays tx rx) ∧
      (offset tx rx = none ↔ ∀ r ∈ rxin rx, txi tx r.key = []) ∧
      ∀ off, offset tx rx = some off → ∃ ds, relativeDelays tx rx = some ds ∧
        (∀ v ∈ ds, 0 ≤ v.2) ∧ ∃ v ∈ ds, v.2 = 0 := by
  refine ⟨fun d => ?_, ?_, fun off hoff => ?_⟩
  · rw [relativeDelays, relativeDelays, offset_ahead, Option.bind_map]
    congr 1
    funext off
    exact congrArg normalised (pairs_ahead d off)
  · rw [offset, Option.bind_eq_none_iff]
    constructor
    · intro hnone r hr
      cases hfirst : firstMatch tx rx with
      | none =>
        have hempty := List.find?_eq_none.mp hfirst r hr
        simpa using hempty
      | some r' =>
        have hhead := hnone r' hfirst
        rw [Option.map_eq_none_iff, List.head?_eq_none_iff] at hhead
        have hfound := List.find?_some hfirst
        rw [hhead] at hfound
        cases hfound
    · intro hempty r hr
      rw [hempty r (List.mem_of_find?_eq_some hr)]
      rfl
  · have hvalues : (pairs tx rx off).map Prod.snd ≠ [] :=
      List.map_eq_nil_iff.not.mpr (pairs_ne_nil hoff)
    obtain ⟨base, hbase⟩ := Option.isSome_iff_exists.mp (List.isSome_min?_of_ne_nil hvalues)
    obtain ⟨hmem, hleast⟩ := List.min?_eq_some_iff.mp hbase
    refine ⟨(pairs tx rx off).map fun p => (p.1, p.2 - base), ?_, fun v hv => ?_, ?_⟩
    · rw [relativeDelays, hoff, Option.bind_some, normalised, hbase]
      rfl
    · obtain ⟨p, hp, rfl⟩ := List.mem_map.mp hv
      exact Int.sub_nonneg_of_le (hleast p.2 (List.mem_map_of_mem hp))
    · obtain ⟨p, hp, rfl⟩ := List.mem_map.mp hmem
      exact ⟨_, List.mem_map_of_mem hp, Int.sub_self p.2⟩

section

variable {tx rx : List PacketRow} {origin : PacketRow → Int}

/-- The delay of a packet, and the offset of the clocks. -/
def delay (origin : PacketRow → Int) (r : PacketRow) : Int := r.logMonoNs - origin r

/-- Every packet that was received has its row at the sender; the sequence number of a packet
comes again more than 4 s after it, the first one's not before it; and no two delays are more
than 2 s apart. -/
structure Steady (tx rx : List PacketRow) (origin : PacketRow → Int) : Prop where
  sent : ∀ r ∈ rxin rx, origin r ∈ txi tx r.key
  first : ∀ r ∈ (rxin rx).head?, ∀ m ∈ txi tx r.key, origin r ≤ m
  apart : ∀ r ∈ rxin rx, ∀ m ∈ txi tx r.key, origin r < m → origin r + 4000000000 < m
  steady : ∀ r ∈ rxin rx, ∀ r' ∈ rxin rx, delay origin r ≤ delay origin r' + 2000000000

theorem Steady.offset_eq (h : Steady tx rx origin) :
    offset tx rx = (rxin rx).head?.map (delay origin) := by
  have hfirst : firstMatch tx rx = (rxin rx).head? := by
    rw [firstMatch]
    cases hin : rxin rx with
    | nil => rfl
    | cons r rs =>
      have hsent := h.sent r (hin ▸ List.mem_cons_self)
      refine List.find?_cons_of_pos ?_
      rw [Bool.not_eq_true', List.isEmpty_eq_false_iff]
      exact List.ne_nil_of_mem hsent
  rw [offset, hfirst]
  cases hhead : (rxin rx).head? with
  | none => rfl
  | some r =>
    have hr := List.mem_of_head? hhead
    have hleast := (head?_iff (txi_pairwise tx r.key)).mpr ⟨h.sent r hr, h.first r hhead⟩
    rw [Option.bind_some, hleast]
    rfl

theorem Steady.pairs_eq (h : Steady tx rx origin) {r₀ : PacketRow} (hr₀ : r₀ ∈ rxin rx) :
    pairs tx rx (delay origin r₀) =
      (rxin rx).map fun r => (r.logMonoNs, delay origin r - delay origin r₀) := by
  rw [pairs, ← List.filterMap_eq_map]
  refine List.filterMap_congr fun r hr => ?_
  have hmatch : matched (txi tx r.key) (r.logMonoNs - delay origin r₀) = some (origin r) := by
    have hup := h.steady r hr r₀ hr₀
    have hdown := h.steady r₀ hr₀ r hr
    have hdelay : delay origin r = r.logMonoNs - origin r := rfl
    rw [matched_iff (txi_pairwise tx r.key)]
    refine ⟨⟨⟨h.sent r hr, by omega⟩, fun m hm hle => ?_⟩, by omega⟩
    by_cases hlater : origin r < m
    · have hapart := h.apart r hr m hm hlater
      omega
    · omega
  rw [hmatch]
  rfl

/-- The smallest of the values less one of them. -/
theorem min?_sub (l : List Int) (a : Int) : (l.map (· - a)).min? = l.min?.map (· - a) := by
  cases hmin : l.min? with
  | none =>
    rw [List.min?_eq_none_iff] at hmin
    rw [hmin]
    rfl
  | some b =>
    obtain ⟨hb, hleast⟩ := List.min?_eq_some_iff.mp hmin
    rw [Option.map_some, List.min?_eq_some_iff]
    refine ⟨List.mem_map_of_mem hb, fun x hx => ?_⟩
    obtain ⟨c, hc, rfl⟩ := List.mem_map.mp hx
    exact Int.sub_le_sub_right (hleast c hc) a

/-- The delay of each packet over the smallest of all, whatever the offset of the clocks. -/
theorem relative_delays_steady (h : Steady tx rx origin) (d : Int) :
    relativeDelays (tx.map (·.ahead d)) rx = ((rxin rx).map (delay origin)).min?.map fun base =>
      (rxin rx).map fun r => (r.logMonoNs, delay origin r - base) := by
  rw [(relative_delays tx rx).1 d, relativeDelays, h.offset_eq]
  cases hhead : (rxin rx).head? with
  | none =>
    rw [List.head?_eq_none_iff] at hhead
    rw [hhead]
    rfl
  | some r₀ =>
    have hsnd : ((rxin rx).map fun r => (r.logMonoNs, delay origin r - delay origin r₀)).map
        Prod.snd = ((rxin rx).map (delay origin)).map (· - delay origin r₀) := by
      rw [List.map_map, List.map_map]
      rfl
    rw [Option.map_some, Option.bind_some, h.pairs_eq (List.mem_of_head? hhead), normalised, hsnd,
      min?_sub, Option.map_map]
    cases ((rxin rx).map (delay origin)).min? with
    | none => rfl
    | some base =>
      rw [Option.map_some, Option.map_some, Option.some_inj, Function.comp_apply, List.map_map]
      refine List.map_congr_left fun r _ => ?_
      have hsub : delay origin r - delay origin r₀ - (base - delay origin r₀) =
          delay origin r - base := by omega
      exact congrArg (r.logMonoNs, ·) hsub

end

/-- Number 7 is sent twice, 6 s apart. -/
def wrapped : List PacketRow :=
  [⟨"5", "7", true, 0⟩, ⟨"5", "8", true, 10⟩, ⟨"5", "7", true, 6000000000⟩]

def arrivals : List PacketRow :=
  [⟨"5", "7", true, 100⟩, ⟨"5", "8", false, 105⟩, ⟨"5", "8", true, 190⟩,
    ⟨"5", "7", true, 6000000070⟩]

def sentAt (r : PacketRow) : Int :=
  if r.seq = "8" then 10 else if r.logMonoNs < 6000000000 then 0 else 6000000000

theorem steady_wrapped : Steady wrapped arrivals sentAt where
  sent := by decide +kernel
  first := by decide +kernel
  apart := by decide +kernel
  steady := by decide +kernel

theorem relative_delays_steady_wrapped : Steady wrapped arrivals sentAt ∧
    relativeDelays (wrapped.map (·.ahead 50)) arrivals =
      some [(100, 30), (190, 110), (6000000070, 0)] := by
  refine ⟨steady_wrapped, (relative_delays_steady steady_wrapped 50).trans ?_⟩
  decide +kernel

end SenderReport
end P5G
