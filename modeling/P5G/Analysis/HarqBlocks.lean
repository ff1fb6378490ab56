import P5G.Analysis.Harq

/-!
# The accounts of the HARQ processes

Every new transport block of a UE is delivered, abandoned or under way at the last row; the
counters and lists of both scripts are read off the blocks.
-/

namespace P5G
namespace RunReport

/-- The first grant of a transport block, its retransmissions, and whether no other block of the
process follows. -/
structure TransportBlock where
  first : Joined
  rest : List Joined
  last : Bool

def untilNew (js : List Joined) : List Joined := js.takeWhile (!·.nd)

def transportBlocks : List Joined → List TransportBlock
  | [] => []
  | j :: js =>
    if j.nd then
      ⟨j, untilNew (js.filter fun x => x.key = j.key), !(js.filter fun x => x.key = j.key).any (·.nd)⟩ ::
        transportBlocks js
    else transportBlocks js

namespace TransportBlock

def delivery (b : TransportBlock) : Option (Joined × Joined) :=
  ((b.first :: b.rest).find? (·.ok)).map fun j => (b.first, j)

def opened (b : TransportBlock) : Block := ⟨b.first, false, b.first⟩

def gaps (b : TransportBlock) : List (Joined × Joined) := (b.first :: b.rest).zip b.rest

end TransportBlock

theorem filter_transportBlocks (k : String × String) (js : List Joined) :
    (transportBlocks js).filter (fun b => b.first.key = k) =
      transportBlocks (js.filter fun j => j.key = k) := by
  induction js with
  | nil => rfl
  | cons j js ih =>
    by_cases hk : j.key = k
    · rw [List.filter_cons_of_pos (by simpa using hk)]
      have hsame : (js.filter fun x => x.key = k).filter (fun x => x.key = j.key) =
          js.filter fun x => x.key = j.key := by
        rw [List.filter_filter, hk]
        exact List.filter_congr fun x _ => Bool.and_self _
      rw [transportBlocks, transportBlocks, hsame]
      cases j.nd with
      | true =>
        simp only [↓reduceIte]
        rw [List.filter_cons_of_pos (by simpa using hk), ih]
      | false =>
        simp only [Bool.false_eq_true, ↓reduceIte]
        exact ih
    · rw [List.filter_cons_of_neg (by simpa using hk), transportBlocks]
      cases j.nd with
      | true =>
        simp only [↓reduceIte]
        rw [List.filter_cons_of_neg (by simpa using hk), ih]
      | false =>
        simp only [Bool.false_eq_true, ↓reduceIte]
        exact ih

section

variable (ends : Joined → Bool) {k : String × String} {j : Joined} {js : List Joined}

theorem transportBlocks_new (h : ∀ x ∈ j :: js, x.key = k) (hnd : j.nd = true) :
    transportBlocks (j :: js) = ⟨j, untilNew js, !js.any (·.nd)⟩ :: transportBlocks js := by
  rw [List.forall_mem_cons] at h
  have hall : js.filter (fun x => x.key = j.key) = js := by
    refine List.filter_eq_self.mpr fun x hx => ?_
    rw [h.1]
    exact decide_eq_true (h.2 x hx)
  rw [transportBlocks, if_pos hnd, hall]

theorem transportBlocks_retx (hnd : j.nd = false) :
    transportBlocks (j :: js) = transportBlocks js := by
  rw [transportBlocks, if_neg (by simp [hnd])]

theorem untilNew_new (hnd : j.nd = true) : untilNew (j :: js) = [] := by
  rw [untilNew, List.takeWhile_cons_of_neg (by simp [hnd])]

theorem untilNew_retx (hnd : j.nd = false) : untilNew (j :: js) = j :: untilNew js := by
  rw [untilNew, List.takeWhile_cons_of_pos (by simp [hnd]), untilNew]

theorem one_new (o : Option Block) (hnd : j.nd = true) :
    ((process ends).one o (j :: js)).2 =
      replaced o ++ (acked ends ⟨j, false, j⟩ j).2 ++
        ((process ends).one (some (acked ends ⟨j, false, j⟩ j).1) js).2 := by
  rw [Keyed.one, step_eq, opened, if_pos hnd, replaced]

theorem one_retx (b : Block) (hnd : j.nd = false) :
    ((process ends).one (some b) (j :: js)).2 =
      Event.gap b.last j :: (acked ends b j).2 ++
        ((process ends).one (some (acked ends b j).1) js).2 := by
  rw [Keyed.one, step_eq, opened, if_neg (by simp [hnd])]
  rfl

theorem one_before (hnd : j.nd = false) :
    ((process ends).one none (j :: js)).2 = ((process ends).one none js).2 := by
  rw [Keyed.one, step_eq, opened, if_neg (by simp [hnd])]
  rfl

def delivers (rows : List Joined) (b : Block) : Option (Joined × Joined) :=
  if b.done || !ends b.first then none else (rows.find? (·.ok)).map fun j => (b.first, j)

theorem delivers_nil (b : Block) : delivers ends [] b = none := by
  rw [delivers]
  exact ite_self none

theorem acked_last (b : Block) (j : Joined) : (acked ends b j).1.last = j := by
  rw [acked]
  split <;> rfl

theorem acked_gap (b : Block) (j : Joined) : (acked ends b j).2.filterMap Event.gap? = [] := by
  rw [acked]
  split <;> rfl

theorem acked_abandoned (b : Block) (j : Joined) :
    (acked ends b j).2.filterMap Event.abandoned? = [] := by
  rw [acked]
  split <;> rfl

/-- A row delivers the block, or leaves it to the rows after it. -/
theorem acked_delivers (b : Block) (j : Joined) (rows : List Joined) :
    (acked ends b j).2.filterMap Event.completed? ++
        (delivers ends rows (acked ends b j).1).toList =
      (delivers ends (j :: rows) b).toList := by
  cases hdone : b.done <;> cases hends : ends b.first <;> cases hok : j.ok <;>
    simp [acked, delivers, hdone, hends, hok, Event.completed?]

def fails (rows : List Joined) (b : Block) : Bool := !b.done && (delivers ends rows b).isNone

theorem delivers_opened (b : TransportBlock) :
    delivers ends (b.first :: b.rest) b.opened = if ends b.first then b.delivery else none := by
  cases hends : ends b.first <;>
    simp [delivers, TransportBlock.opened, TransportBlock.delivery, hends]

theorem fails_opened (b : TransportBlock) :
    fails ends (b.first :: b.rest) b.opened = !(ends b.first && b.delivery.isSome) := by
  rw [fails, delivers_opened]
  cases ends b.first <;> cases b.delivery <;> rfl

theorem acked_fails (b : Block) (j : Joined) (rows : List Joined) :
    fails ends rows (acked ends b j).1 = fails ends (j :: rows) b := by
  cases hdone : b.done <;> cases hends : ends b.first <;> cases hok : j.ok <;>
    simp [acked, fails, delivers, hdone, hends, hok]

theorem completed_one (h : ∀ x ∈ js, x.key = k) (o : Option Block) :
    ((process ends).one o js).2.filterMap Event.completed? =
      (o.bind (delivers ends (untilNew js))).toList ++
        (transportBlocks js).flatMap fun b =>
          (delivers ends (b.first :: b.rest) b.opened).toList := by
  induction js generalizing o with
  | nil => cases o <;> simp [Keyed.one, transportBlocks, untilNew, delivers_nil]
  | cons j js ih =>
    have ih := ih fun x hx => h x (List.mem_cons_of_mem j hx)
    cases hnd : j.nd with
    | true =>
      have hreplaced := List.filterMap_eq_nil_iff.mpr (replaced_kept Event.completed? rfl o)
      have hopen : o.bind (delivers ends []) = none := by
        cases o with
        | none => rfl
        | some b => exact delivers_nil ends b
      rw [one_new ends o hnd, transportBlocks_new h hnd, untilNew_new hnd, List.flatMap_cons,
        hopen, List.filterMap_append, List.filterMap_append, hreplaced, ih, Option.bind_some]
      show [] ++ _ ++ _ = [] ++ _
      rw [List.nil_append, List.nil_append, ← List.append_assoc, acked_delivers]
      rfl
    | false =>
      rw [transportBlocks_retx hnd, untilNew_retx hnd]
      cases o with
      | none => rw [one_before ends hnd, ih none, Option.bind_none, Option.bind_none]
      | some b =>
        rw [one_retx ends b hnd, List.filterMap_append, List.filterMap_cons_none rfl, ih,
          Option.bind_some, Option.bind_some, ← List.append_assoc, acked_delivers]

theorem abandoned_one (h : ∀ x ∈ js, x.key = k) (o : Option Block) :
    ((process ends).one o js).2.filterMap Event.abandoned? =
      (if o.any (fails ends (untilNew js)) && js.any (·.nd) then [()] else []) ++
        (transportBlocks js).flatMap fun b =>
          if !b.last && fails ends (b.first :: b.rest) b.opened then [()] else [] := by
  induction js generalizing o with
  | nil =>
    rw [List.any_nil, Bool.and_false]
    rfl
  | cons j js ih =>
    have ih := ih fun x hx => h x (List.mem_cons_of_mem j hx)
    cases hnd : j.nd with
    | true =>
      have hreplaced : (replaced o).filterMap Event.abandoned? =
          if o.any (fails ends []) then [()] else [] := by
        have hfails : o.any (fails ends []) = o.any (!·.done) := by
          cases o with
          | none => rfl
          | some b => simp [fails, delivers_nil]
        rw [hfails, replaced]
        split <;> rfl
      rw [one_new ends o hnd, transportBlocks_new h hnd, untilNew_new hnd, List.flatMap_cons,
        List.filterMap_append, List.filterMap_append, hreplaced, acked_abandoned, ih,
        Option.any_some, acked_fails, List.any_cons, hnd, Bool.true_or, Bool.and_true,
        List.append_nil, Bool.not_not, Bool.and_comm (js.any _)]
      rfl
    | false =>
      rw [transportBlocks_retx hnd, untilNew_retx hnd, List.any_cons, hnd, Bool.false_or]
      cases o with
      | none => rw [one_before ends hnd, ih none, Option.any_none, Option.any_none]
      | some b =>
        rw [one_retx ends b hnd, List.filterMap_append, List.filterMap_cons_none rfl,
          acked_abandoned, ih, Option.any_some, Option.any_some, acked_fails, List.nil_append]

theorem gap_one (h : ∀ x ∈ js, x.key = k) (o : Option Block) :
    ((process ends).one o js).2.filterMap Event.gap? =
      (o.toList.flatMap fun b => (b.last :: untilNew js).zip (untilNew js)) ++
        (transportBlocks js).flatMap TransportBlock.gaps := by
  induction js generalizing o with
  | nil => cases o <;> rfl
  | cons j js ih =>
    have ih := ih fun x hx => h x (List.mem_cons_of_mem j hx)
    cases hnd : j.nd with
    | true =>
      have hreplaced := List.filterMap_eq_nil_iff.mpr (replaced_kept Event.gap? rfl o)
      have hopen : (o.toList.flatMap fun b => ([b.last].zip ([] : List Joined))) = [] := by
        cases o <;> rfl
      rw [one_new ends o hnd, transportBlocks_new h hnd, untilNew_new hnd, List.flatMap_cons,
        hopen, List.filterMap_append, List.filterMap_append, hreplaced, acked_gap, ih,
        Option.toList_some, List.flatMap_singleton, acked_last]
      rfl
    | false =>
      rw [transportBlocks_retx hnd, untilNew_retx hnd]
      cases o with
      | none =>
        rw [one_before ends hnd, ih none]
        rfl
      | some b =>
        have hgap : Event.gap? (.gap b.last j) = some (b.last, j) := rfl
        rw [one_retx ends b hnd, List.filterMap_append, List.filterMap_cons_some hgap, acked_gap,
          ih, Option.toList_some, Option.toList_some, List.flatMap_singleton,
          List.flatMap_singleton, acked_last, List.zip_cons_cons]
        rfl

end

section

variable (u : String)

def blocksOf (js : List Joined) : List TransportBlock :=
  (transportBlocks js).filter fun b => b.first.rnti = u

variable {ends : Joined → Bool} {γ : Type} {f : Event → Option γ} {read : TransportBlock → List γ}

/-- What is read off the blocks of a UE is, but for the order, what the loop collects. -/
theorem ofUe_events [DecidableEq γ]
    (h : ∀ {k : String × String} {js : List Joined}, (∀ x ∈ js, x.key = k) →
      ((process ends).one none js).2.filterMap f = (transportBlocks js).flatMap read)
    (js : List Joined) : (ofUe u f (events ends js)).Perm ((blocksOf u js).flatMap read) := by
  have hall := (process ends).perm_all (fun k => filter_transportBlocks k js) fun k =>
    h fun x hx => of_decide_eq_true (List.mem_filter.mp hx).2
  have hue := hall.filterMap fun e => if e.1.1 = u then some e.2 else none
  have hleft : ((events ends js).filterMap fun e => (f e.2).map fun y => (e.1, y)).filterMap
      (fun e => if e.1.1 = u then some e.2 else none) = ofUe u f (events ends js) := by
    rw [List.filterMap_filterMap, ofUe]
    refine List.filterMap_congr fun e _ => ?_
    cases f e.2 <;> simp
  have hright : ((transportBlocks js).flatMap fun b => (read b).map fun y =>
      (b.first.key, y)).filterMap (fun e => if e.1.1 = u then some e.2 else none) =
        (blocksOf u js).flatMap read := by
    rw [blocksOf]
    induction transportBlocks js with
    | nil => rfl
    | cons b bs ih =>
      rw [List.flatMap_cons, List.filterMap_append, ih, List.filterMap_map]
      by_cases hu : b.first.rnti = u
      · rw [List.filter_cons_of_pos (by simpa using hu), List.flatMap_cons]
        have hkept : (read b).filterMap ((fun e => if e.1.1 = u then some e.2 else none) ∘
            fun y => (b.first.key, y)) = read b := by
          conv_rhs => rw [← List.filterMap_some (l := read b)]
          exact List.filterMap_congr fun y _ => if_pos hu
        rw [hkept]
      · rw [List.filter_cons_of_neg (by simpa using hu), List.filterMap_eq_nil_iff.mpr,
          List.nil_append]
        exact fun y _ => if_neg hu
  rw [← hleft, ← hright]
  exact hue

theorem completed_perm (js : List Joined) :
    (ofUe u Event.completed? (events ends js)).Perm
      (((blocksOf u js).filter fun b => ends b.first).filterMap TransportBlock.delivery) := by
  have hperm := ofUe_events u (fun h => by rw [completed_one ends h none]; rfl) js
  refine hperm.trans (.of_eq ?_)
  rw [List.filterMap_filter, List.filterMap_eq_flatMap_toList]
  simp only [delivers_opened]

theorem abandoned_length (js : List Joined) :
    (ofUe u Event.abandoned? (events ends js)).length =
      (blocksOf u js).countP fun b => !b.last && !(ends b.first && b.delivery.isSome) := by
  have hperm := ofUe_events u (fun h => by rw [abandoned_one ends h none]; rfl) js
  rw [hperm.length_eq]
  induction blocksOf u js with
  | nil => rfl
  | cons b bs ih =>
    rw [List.flatMap_cons, List.length_append, ih, List.countP_cons, fails_opened, Nat.add_comm]
    congr 1
    split <;> rfl

theorem gap_perm (js : List Joined) :
    (ofUe u Event.gap? (events ends js)).Perm ((blocksOf u js).flatMap TransportBlock.gaps) :=
  ofUe_events u (fun h => by rw [gap_one ends h none]; rfl) js

end

/-! ## The accounts -/

theorem new_of_mem {js : List Joined} {b : TransportBlock} (hb : b ∈ transportBlocks js) :
    b.first ∈ js ∧ b.first.nd = true := by
  induction js with
  | nil => cases hb
  | cons j js ih =>
    rw [transportBlocks] at hb
    split at hb
    · next hnd =>
      cases List.mem_cons.mp hb with
      | inl h =>
        rw [h]
        exact ⟨List.mem_cons_self, hnd⟩
      | inr h => exact ⟨List.mem_cons_of_mem j (ih h).1, (ih h).2⟩
    · exact ⟨List.mem_cons_of_mem j (ih hb).1, (ih hb).2⟩

/-- Of the blocks of a process only one is the last. -/
theorem last_nodup (js : List Joined) :
    (((transportBlocks js).filter (·.last)).map (·.first.key)).Nodup := by
  induction js with
  | nil => exact List.nodup_nil
  | cons j js ih =>
    rw [transportBlocks]
    split
    · rw [List.filter_cons]
      split
      · next hlast =>
        rw [List.map_cons, List.nodup_cons]
        refine ⟨fun hmem => ?_, ih⟩
        obtain ⟨b, hb, hkey⟩ := List.mem_map.mp hmem
        obtain ⟨hfirst, hnd⟩ := new_of_mem (List.mem_filter.mp hb).1
        have hnone : ¬ (js.filter fun x => x.key = j.key).any (·.nd) = true := by
          simpa using hlast
        refine hnone (List.any_eq_true.mpr ⟨b.first, ?_, hnd⟩)
        exact List.mem_filter.mpr ⟨hfirst, decide_eq_true hkey⟩
      · exact ih
    · exact ih

theorem last_nodup_ue (u : String) (js : List Joined) :
    (((blocksOf u js).filter (·.last)).map (·.first.h)).Nodup := by
  have hsub : (((blocksOf u js).filter (·.last)).map (·.first.key)).Nodup := by
    refine (last_nodup js).sublist ?_
    exact ((List.filter_sublist (l := transportBlocks js)).filter (·.last)).map _
  refine List.Nodup.of_map (fun h => (u, h)) ?_
  rw [List.map_map]
  refine (List.map_congr_left fun b hb => ?_) ▸ hsub
  have hu := (List.mem_filter.mp (List.mem_filter.mp hb).1).2
  exact Prod.ext (of_decide_eq_true hu) rfl

theorem length_blocksOf (u : String) (js : List Joined) :
    (blocksOf u js).length = js.countP fun j => j.nd && j.rnti = u := by
  rw [blocksOf, ← List.countP_eq_length_filter]
  induction js with
  | nil => rfl
  | cons j js ih =>
    rw [transportBlocks, List.countP_cons, ← ih]
    cases j.nd with
    | true =>
      simp only [↓reduceIte, List.countP_cons]
      rfl
    | false => simp

/-- Every block is delivered, abandoned or the last of its process. -/
theorem length_accounts (blocks : List TransportBlock) :
    blocks.length = (blocks.filterMap TransportBlock.delivery).length +
      blocks.countP (fun b => !b.last && b.delivery.isNone) +
      blocks.countP fun b => b.last && b.delivery.isNone := by
  induction blocks with
  | nil => rfl
  | cons b bs ih =>
    rw [List.length_cons, List.filterMap_cons, List.countP_cons, List.countP_cons, ih]
    cases b.delivery with
    | none => cases b.last <;> simp <;> omega
    | some p => cases b.last <;> simp <;> omega

/-- Where each new transport block of a UE is in the accounts of the scripts, for any rows. -/
theorem harq_accounting (w : Window) (js : List Joined) (u : String) :
    let blocks := blocksOf u js
    let audit := Audit.run js
    let report := Report.run w js
    (audit.comp.listAt u).Perm
        ((blocks.filterMap TransportBlock.delivery).map fun p => p.2.gm - p.1.gm) ∧
      audit.ab.get u = blocks.countP (fun b => !b.last && b.delivery.isNone) ∧
      (report.proc.listAt u).Perm
        (((blocks.filter fun b => w.inRun b.first.gm).filterMap TransportBlock.delivery).map
          fun p => p.2.cmn - p.1.gm) ∧
      report.aband.get u =
        blocks.countP (fun b => !b.last && !(w.inRun b.first.gm && b.delivery.isSome)) ∧
      (report.gap.listAt u).Perm
        ((blocks.flatMap TransportBlock.gaps).map fun p => p.2.gm - p.1.gm) ∧
      (js.countP (fun j => j.nd && j.rnti = u) : Int) = (audit.comp.listAt u).length +
        audit.ab.get u + blocks.countP (fun b => b.last && b.delivery.isNone) ∧
      ((blocks.filter (·.last)).map (·.first.h)).Nodup := by
  intro blocks audit report
  obtain ⟨ablocks, ha⟩ := audit_follows js
  obtain ⟨rblocks, hr⟩ := report_follows w js
  have hcomp : (audit.comp.listAt u).Perm
      ((blocks.filterMap TransportBlock.delivery).map fun p => p.2.gm - p.1.gm) := by
    rw [ha.comp u]
    have hall : (ofUe u Event.completed? (events (fun _ => true) js)).Perm _ :=
      completed_perm u js
    rw [List.filter_true] at hall
    exact hall.map _
  have hab : audit.ab.get u = blocks.countP fun b => !b.last && b.delivery.isNone := by
    rw [ha.ab u, abandoned_length]
    refine congrArg _ (List.countP_congr fun b _ => ?_)
    cases b.delivery <;> simp
  refine ⟨hcomp, hab, ?_, ?_, ?_, ?_, ?_⟩
  · rw [hr.proc u]
    exact (completed_perm u js).map _
  · rw [hr.aband u, abandoned_length]
  · rw [hr.gap u]
    exact (gap_perm u js).map _
  · rw [hab, hcomp.length_eq, List.length_map, ← length_blocksOf, length_accounts]
    push_cast
    rfl
  · exact last_nodup_ue u js

/-- The rows of a process are those of its blocks, but for the ones before the first. -/
theorem transportBlocks_rows {k : String × String} {js : List Joined} (h : ∀ x ∈ js, x.key = k) :
    untilNew js ++ (transportBlocks js).flatMap (fun b => b.first :: b.rest) = js := by
  induction js with
  | nil => rfl
  | cons j js ih =>
    have ih := ih fun x hx => h x (List.mem_cons_of_mem j hx)
    cases hnd : j.nd with
    | true =>
      rw [transportBlocks_new h hnd, untilNew_new hnd, List.flatMap_cons, List.nil_append,
        List.cons_append, ih]
    | false => rw [transportBlocks_retx hnd, untilNew_retx hnd, List.cons_append, ih]

theorem rows_sublist {js : List Joined} {b : TransportBlock} (hb : b ∈ transportBlocks js) :
    (b.first :: b.rest).Sublist (js.filter fun j => j.key = b.first.key) := by
  have hown : b ∈ transportBlocks (js.filter fun j => j.key = b.first.key) := by
    rw [← filter_transportBlocks]
    exact List.mem_filter.mpr ⟨hb, decide_eq_true rfl⟩
  have hkeys : ∀ x ∈ js.filter (fun j => j.key = b.first.key), x.key = b.first.key :=
    fun x hx => of_decide_eq_true (List.mem_filter.mp hx).2
  have hin := List.sublist_flatten_of_mem
    (List.mem_map_of_mem (f := fun b : TransportBlock => b.first :: b.rest) hown)
  rw [← List.flatMap_def] at hin
  have hrows := transportBlocks_rows hkeys
  have hafter := List.sublist_append_right (untilNew (js.filter fun j => j.key = b.first.key))
    ((transportBlocks (js.filter fun j => j.key = b.first.key)).flatMap fun b => b.first :: b.rest)
  rw [hrows] at hafter
  exact hin.trans hafter

theorem delivery_spec {b : TransportBlock} {p : Joined × Joined} (h : b.delivery = some p) :
    p.1 = b.first ∧ p.2 ∈ b.first :: b.rest := by
  obtain ⟨j, hj, rfl⟩ := Option.map_eq_some_iff.mp h
  exact ⟨rfl, List.mem_of_find?_eq_some hj⟩

theorem delivery_le {b : TransportBlock}
    (h : (b.first :: b.rest).Pairwise fun x y => x.gm ≤ y.gm) {p : Joined × Joined}
    (hp : b.delivery = some p) : p.1.gm ≤ p.2.gm := by
  obtain ⟨hfirst, hlast⟩ := delivery_spec hp
  rw [hfirst]
  cases List.mem_cons.mp hlast with
  | inl hsame => rw [hsame]
  | inr hrest => exact List.rel_of_pairwise_cons h hrest

theorem gaps_le {b : TransportBlock} (h : (b.first :: b.rest).Pairwise fun x y => x.gm ≤ y.gm)
    {p : Joined × Joined} (hp : p ∈ b.gaps) : p.1.gm ≤ p.2.gm := by
  rw [TransportBlock.gaps] at hp
  generalize b.first = x, b.rest = xs at h hp
  induction xs generalizing x with
  | nil => cases hp
  | cons y ys ih =>
    rw [List.zip_cons_cons] at hp
    cases List.mem_cons.mp hp with
    | inl hfirst =>
      rw [hfirst]
      exact List.rel_of_pairwise_cons h List.mem_cons_self
    | inr hrest => exact ih y h.of_cons hrest

end RunReport
end P5G
