import Mathlib.Data.Prod.Lex
import P5G.Analysis.Proximity
import P5G.Counter
import P5G.Keyed

/-!
# HARQ completion

The loops over the joined grants of exp_run_report.py and of exp_ran_audit.py: when a HARQ
process delivers its transport block, and when it is given a new one before that.  Times are
nanoseconds; the scripts print them in milliseconds, the audit with 4.1 ms added.
-/

namespace P5G
namespace RunReport

structure Joined where
  rnti : String
  h : String
  nd : Bool
  ok : Bool
  gm : Int
  cmn : Int
  deriving DecidableEq

def Joined.key (j : Joined) : String × String := (j.rnti, j.h)

/-- The columns of a row of gnb_sched_ul that the loops read. -/
structure UlGrant extends Grant where
  newData : Bool

/-- The columns of a row of gnb_ul_crc that the loops read. -/
structure UlCrc extends CrcRow where
  crcOk : Bool

/-- `J`; exp_ran_audit.py has cut the grants to its window of 60 s before. -/
def joined (sched : List UlGrant) (crc : List UlCrc) : List Joined :=
  sched.filterMap fun g => (join (crc.map UlCrc.toCrcRow) g.toGrant).map fun j =>
    let c := crc.get (j.cast (List.length_map _))
    ⟨g.rnti, g.harqId, g.newData, c.crcOk, g.monoNs, c.monoNs⟩

/-- `J.sort(key=lambda x:(x['rnti'],x['h'],x['t']))` -/
def Joined.sortKey (j : Joined) : Lex (String × Lex (String × Int)) :=
  toLex (j.rnti, toLex (j.h, j.gm))

def sorted (js : List Joined) : List Joined := js.insertionSort fun a b => a.sortKey ≤ b.sortKey

theorem mem_joined {sched : List UlGrant} {crc : List UlCrc} {x : Joined}
    (h : x ∈ joined sched crc) : x.gm ≤ x.cmn ∧ x.cmn ≤ x.gm + windowNs := by
  obtain ⟨g, -, hg⟩ := List.mem_filterMap.mp h
  obtain ⟨j, hj, rfl⟩ := Option.map_eq_some_iff.mp hg
  obtain ⟨⟨-, hle, hin⟩, -⟩ := join_eq_some_iff.mp hj
  have hrow : (crc.map UlCrc.toCrcRow)[j].monoNs =
      (crc.get (j.cast (List.length_map _))).monoNs := by simp
  rw [hrow] at hle hin
  exact ⟨hle, hin⟩

theorem sorted_pairwise (js : List Joined) (k : String × String) :
    ((sorted js).filter fun j => j.key = k).Pairwise fun a b => a.gm ≤ b.gm := by
  have hsorted : (sorted js).Pairwise fun a b => a.sortKey ≤ b.sortKey := by
    have : Std.Total fun a b : Joined => a.sortKey ≤ b.sortKey := ⟨fun _ _ => le_total _ _⟩
    have : IsTrans Joined fun a b => a.sortKey ≤ b.sortKey := ⟨fun _ _ _ => le_trans⟩
    exact List.pairwise_insertionSort _ js
  refine List.pairwise_filter.mpr (hsorted.imp fun {a b} hle ha hb => ?_)
  have hkey : a.key = b.key := (of_decide_eq_true ha).trans (of_decide_eq_true hb).symm
  rw [Joined.key, Joined.key, Prod.mk.injEq] at hkey
  rw [Joined.sortKey, Joined.sortKey, hkey.1, hkey.2, Prod.Lex.toLex_le_toLex] at hle
  have hin := hle.resolve_left (lt_irrefl _)
  have htime := (Prod.Lex.toLex_le_toLex.mp hin.2).resolve_left (lt_irrefl _)
  exact htime.2

/-- `-1 <= t <= WEND`, in nanoseconds of the gNB's clock. -/
structure Window where
  lo : Int
  hi : Int

def Window.inRun (w : Window) (t : Int) : Bool := w.lo ≤ t ∧ t ≤ w.hi

/-- `cur[k]` -/
structure Process where
  t0 : Int
  done : Bool
  tl : Int

structure Report where
  proc : Dict String (List Int) := .empty
  aband : Counter String := .empty
  gap : Dict String (List Int) := .empty
  cur : Dict (String × String) Process := .empty

namespace Report

/-- `if j['nd']: ... else: ...` -/
def start (s : Report) (j : Joined) : Report :=
  if j.nd then
    { s with
      aband := if (s.cur.get? j.key).any (!·.done) then s.aband.add j.rnti 1 else s.aband
      cur := s.cur.set j.key ⟨j.gm, false, j.gm⟩ }
  else
    match s.cur.get? j.key with
    | some c => { s with gap := s.gap.push j.rnti (j.gm - c.tl) }
    | none => s

/-- `if k in cur: ...` -/
def check (w : Window) (s : Report) (j : Joined) : Report :=
  match s.cur.get? j.key with
  | none => s
  | some c =>
    if j.ok && !c.done && w.inRun c.t0 then
      { s with
        cur := s.cur.set j.key ⟨c.t0, true, j.gm⟩
        proc := s.proc.push j.rnti (j.cmn - c.t0) }
    else { s with cur := s.cur.set j.key ⟨c.t0, c.done, j.gm⟩ }

def run (w : Window) (js : List Joined) : Report := js.foldl (fun s j => (s.start j).check w j) {}

end Report

structure Audit where
  cur : Dict (String × String) (Int × Bool) := .empty
  ab : Counter String := .empty
  comp : Dict String (List Int) := .empty

namespace Audit

/-- `if g['new_data']=='1': ...` -/
def start (s : Audit) (g : Joined) : Audit :=
  if g.nd then
    { s with
      ab := if (s.cur.get? g.key).any (!·.2) then s.ab.add g.rnti 1 else s.ab
      cur := s.cur.set g.key (g.gm, false) }
  else s

/-- `if k in cur and g['_ok'] and not cur[k][1]: ...` -/
def check (s : Audit) (g : Joined) : Audit :=
  match s.cur.get? g.key with
  | none => s
  | some c =>
    if g.ok && !c.2 then
      { s with cur := s.cur.set g.key (c.1, true), comp := s.comp.push g.rnti (g.gm - c.1) }
    else s

def run (gs : List Joined) : Audit := gs.foldl (fun s g => (s.start g).check g) {}

end Audit

inductive Event where
  | abandoned
  | gap (last next : Joined)
  | completed (first last : Joined)
  deriving DecidableEq

/-- The transport block under way: its first grant, whether it is delivered, its last grant. -/
structure Block where
  first : Joined
  done : Bool
  last : Joined

section

variable (ends : Joined → Bool)

def opened (o : Option Block) (j : Joined) : Option Block × List Event :=
  if j.nd then (some ⟨j, false, j⟩, if o.any (!·.done) then [.abandoned] else [])
  else (o, (o.map fun b => .gap b.last j).toList)

def acked (b : Block) (j : Joined) : Block × List Event :=
  if j.ok && !b.done && ends b.first then (⟨b.first, true, j⟩, [.completed b.first j])
  else (⟨b.first, b.done, j⟩, [])

def process : Keyed Joined (String × String) Block Event where
  key := Joined.key
  step o j :=
    let r := opened o j
    match r.1 with
    | none => (none, r.2)
    | some b => (some (acked ends b j).1, r.2 ++ (acked ends b j).2)
  keeps := by
    intro b j
    cases hnd : j.nd <;> simp [opened, hnd]

end

/-! ## What the loops collect -/

namespace Event

def abandoned? : Event → Option Unit
  | .abandoned => some ()
  | _ => none

def gap? : Event → Option (Joined × Joined)
  | .gap last next => some (last, next)
  | _ => none

def completed? : Event → Option (Joined × Joined)
  | .completed first last => some (first, last)
  | _ => none

end Event

section

variable {γ : Type*}

def ofUe (u : String) (f : Event → Option γ) (outs : List ((String × String) × Event)) : List γ :=
  outs.filterMap fun e => if e.1.1 = u then f e.2 else none

theorem ofUe_append (u : String) (f : Event → Option γ)
    (outs outs' : List ((String × String) × Event)) :
    ofUe u f (outs ++ outs') = ofUe u f outs ++ ofUe u f outs' := List.filterMap_append

theorem ofUe_kept (u : String) (f : Event → Option γ) (outs : List ((String × String) × Event))
    (k : String × String) {es : List Event} (h : ∀ e ∈ es, f e = none) :
    ofUe u f (outs ++ es.map fun e => (k, e)) = ofUe u f outs := by
  have hnone : ofUe u f (es.map fun e => (k, e)) = [] := by
    rw [ofUe, List.filterMap_map, List.filterMap_eq_nil_iff]
    intro e he
    show (if k.1 = u then f e else none) = none
    rw [h e he, ite_self]
  rw [ofUe_append, hnone, List.append_nil]

theorem ofUe_singleton (u : String) (f : Event → Option γ) (k : String × String) {e : Event}
    {x : γ} (h : f e = some x) :
    ofUe u f ([e].map fun e => (k, e)) = if u = k.1 then [x] else [] := by
  by_cases hu : u = k.1
  · simp [ofUe, hu, h]
  · simp [ofUe, hu, Ne.symm hu]

end

def Block.toProcess (b : Block) : Process := ⟨b.first.gm, b.done, b.last.gm⟩

structure Report.Follows (s : Report) (blocks : String × String → Option Block)
    (outs : List ((String × String) × Event)) : Prop where
  cur : ∀ k, s.cur.get? k = (blocks k).map Block.toProcess
  proc : ∀ u, s.proc.listAt u = (ofUe u Event.completed? outs).map fun p => p.2.cmn - p.1.gm
  aband : ∀ u, s.aband.get u = (ofUe u Event.abandoned? outs).length
  gap : ∀ u, s.gap.listAt u = (ofUe u Event.gap? outs).map fun p => p.2.gm - p.1.gm

structure Audit.Follows (s : Audit) (blocks : String × String → Option Block)
    (outs : List ((String × String) × Event)) : Prop where
  cur : ∀ k, s.cur.get? k = (blocks k).map fun b => (b.first.gm, b.done)
  comp : ∀ u, s.comp.listAt u = (ofUe u Event.completed? outs).map fun p => p.2.gm - p.1.gm
  ab : ∀ u, s.ab.get u = (ofUe u Event.abandoned? outs).length

section

variable {w : Window} {blocks : String × String → Option Block}
  {outs : List ((String × String) × Event)}

theorem get?_set_update {V : Type*} {d : Dict (String × String) V} {g : Block → V}
    (h : ∀ k, d.get? k = (blocks k).map g) (k : String × String) (b : Block)
    (k' : String × String) :
    (d.set k (g b)).get? k' = (Function.update blocks k (some b) k').map g := by
  by_cases hk : k' = k
  · rw [hk, Dict.get?_set_self, Function.update_self]
    rfl
  · rw [Dict.get?_set_ne hk, Function.update_of_ne hk, h]

theorem any_done {V : Type*} {d : Dict (String × String) V} {g : Block → V} {done : V → Bool}
    (h : ∀ k, d.get? k = (blocks k).map g) (hg : ∀ b, done (g b) = b.done) (k : String × String) :
    (d.get? k).any (!done ·) = (blocks k).any (!·.done) := by
  rw [h, Option.any_map]
  exact congrArg (fun f => Option.any f (blocks k)) (funext fun b => congrArg not (hg b))

def replaced (o : Option Block) : List Event := if o.any (!·.done) then [.abandoned] else []

theorem replaced_kept {γ : Type*} (f : Event → Option γ) (h : f .abandoned = none)
    (o : Option Block) : ∀ e ∈ replaced o, f e = none := by
  intro e he
  rw [replaced] at he
  split at he
  · rw [List.mem_singleton.mp he, h]
  · cases he

/-- The counter of abandoned blocks after a new one. -/
theorem get_replaced {c : Counter String} (h : ∀ u, c.get u = (ofUe u Event.abandoned? outs).length)
    {lost : Bool} {o : Option Block} (hlost : lost = o.any (!·.done)) (k : String × String)
    (u : String) : (if lost then c.add k.1 1 else c).get u =
      (ofUe u Event.abandoned? (outs ++ (replaced o).map fun e => (k, e))).length := by
  rw [replaced, ← hlost]
  cases lost with
  | false => exact (h u).trans (by rw [if_neg Bool.false_ne_true, List.map_nil, List.append_nil])
  | true =>
    rw [if_pos rfl, if_pos rfl, Counter.get_add, h u, ofUe_append,
      ofUe_singleton u Event.abandoned? k rfl, List.length_append, Nat.cast_add]
    split <;> rfl

/-- A list of times after an event that adds one. -/
theorem listAt_event {γ : Type} {d : Dict String (List Int)} {f : Event → Option γ} {g : γ → Int}
    (h : ∀ u, d.listAt u = (ofUe u f outs).map g) (k : String × String) (e : Event) {x : γ}
    (hf : f e = some x) (u : String) : (d.push k.1 (g x)).listAt u =
      (ofUe u f (outs ++ [e].map fun e => (k, e))).map g := by
  rw [Dict.listAt_push, h u, ofUe_append, ofUe_singleton u f k hf, List.map_append]
  split <;> rfl

theorem Report.Follows.start {s : Report} (h : s.Follows blocks outs) (j : Joined) :
    (s.start j).Follows (Function.update blocks j.key (opened (blocks j.key) j).1)
      (outs ++ (opened (blocks j.key) j).2.map fun e => (j.key, e)) := by
  rw [Report.start, opened]
  cases j.nd with
  | true =>
    simp only [↓reduceIte]
    refine ⟨get?_set_update h.cur j.key ⟨j, false, j⟩, fun u => ?_, ?_, fun u => ?_⟩
    · exact (h.proc u).trans (by rw [← replaced, ofUe_kept _ _ _ _ (replaced_kept _ rfl _)])
    · exact get_replaced h.aband (any_done h.cur (fun _ => rfl) j.key) j.key
    · exact (h.gap u).trans (by rw [← replaced, ofUe_kept _ _ _ _ (replaced_kept _ rfl _)])
  | false =>
    simp only [Bool.false_eq_true, ↓reduceIte, Function.update_eq_self]
    rw [h.cur j.key]
    cases blocks j.key with
    | none =>
      simp only [Option.map_none, Option.toList_none, List.map_nil, List.append_nil]
      exact h
    | some b =>
      refine ⟨h.cur, fun u => ?_, fun u => ?_, listAt_event h.gap j.key (.gap b.last j) rfl⟩
      · exact (h.proc u).trans (by rw [ofUe_kept _ _ _ _ (by simp [Event.completed?])])
      · exact (h.aband u).trans (by rw [ofUe_kept _ _ _ _ (by simp [Event.abandoned?])])

theorem Report.Follows.check {s : Report} (h : s.Follows blocks outs) (j : Joined) {b : Block}
    (hb : blocks j.key = some b) :
    (s.check w j).Follows
      (Function.update blocks j.key (some (acked (fun j => w.inRun j.gm) b j).1))
      (outs ++ (acked (fun j => w.inRun j.gm) b j).2.map fun e => (j.key, e)) := by
  rw [Report.check, h.cur, hb, acked]
  simp only [Option.map_some, Block.toProcess]
  by_cases hdone : (j.ok && !b.done && w.inRun b.first.gm) = true
  · rw [if_pos hdone, if_pos hdone]
    refine ⟨get?_set_update h.cur j.key ⟨b.first, true, j⟩,
      listAt_event h.proc j.key (.completed b.first j) rfl, fun u => ?_, fun u => ?_⟩
    · exact (h.aband u).trans (by rw [ofUe_kept _ _ _ _ (by simp [Event.abandoned?])])
    · exact (h.gap u).trans (by rw [ofUe_kept _ _ _ _ (by simp [Event.gap?])])
  · rw [if_neg hdone, if_neg hdone, List.map_nil, List.append_nil]
    exact ⟨get?_set_update h.cur j.key ⟨b.first, b.done, j⟩, h.proc, h.aband, h.gap⟩

theorem Audit.Follows.start {s : Audit} (h : s.Follows blocks outs) (g : Joined) :
    (s.start g).Follows (Function.update blocks g.key (opened (blocks g.key) g).1)
      (outs ++ (opened (blocks g.key) g).2.map fun e => (g.key, e)) := by
  rw [Audit.start, opened]
  cases g.nd with
  | true =>
    simp only [↓reduceIte]
    refine ⟨get?_set_update h.cur g.key ⟨g, false, g⟩, fun u => ?_, ?_⟩
    · exact (h.comp u).trans (by rw [← replaced, ofUe_kept _ _ _ _ (replaced_kept _ rfl _)])
    · exact get_replaced h.ab (any_done h.cur (fun _ => rfl) g.key) g.key
  | false =>
    simp only [Bool.false_eq_true, ↓reduceIte, Function.update_eq_self]
    refine ⟨h.cur, fun u => ?_, fun u => ?_⟩
    · exact (h.comp u).trans (by rw [ofUe_kept _ _ _ _ (by simp [Event.completed?])])
    · exact (h.ab u).trans (by rw [ofUe_kept _ _ _ _ (by simp [Event.abandoned?])])

theorem Audit.Follows.check {s : Audit} (h : s.Follows blocks outs) (g : Joined) {b : Block}
    (hb : blocks g.key = some b) :
    (s.check g).Follows (Function.update blocks g.key (some (acked (fun _ => true) b g).1))
      (outs ++ (acked (fun _ => true) b g).2.map fun e => (g.key, e)) := by
  rw [Audit.check, h.cur, hb, acked]
  simp only [Option.map_some, Bool.and_true]
  by_cases hdone : (g.ok && !b.done) = true
  · rw [if_pos hdone, if_pos hdone]
    refine ⟨get?_set_update h.cur g.key ⟨b.first, true, g⟩,
      listAt_event h.comp g.key (.completed b.first g) rfl, fun u => ?_⟩
    exact (h.ab u).trans (by rw [ofUe_kept _ _ _ _ (by simp [Event.abandoned?])])
  · rw [if_neg hdone, if_neg hdone, List.map_nil, List.append_nil]
    refine ⟨fun k => ?_, h.comp, h.ab⟩
    by_cases hk : k = g.key
    · rw [hk, Function.update_self, h.cur, hb]
      rfl
    · rw [Function.update_of_ne hk, h.cur]

end

section

variable {ends : Joined → Bool}

/-- What a row does to the process of its key, in the two parts of the loops. -/
theorem step_eq (o : Option Block) (j : Joined) :
    (process ends).step o j = match (opened o j).1 with
      | none => (none, (opened o j).2)
      | some b => (some (acked ends b j).1, (opened o j).2 ++ (acked ends b j).2) := rfl

theorem get?_store_update (d : Dict (String × String) Block) (k : String × String)
    {o : Option Block} (h : o = none → d.get? k = none) : (Keyed.store d k o).get? = Function.update d.get? k o := by
  funext k'
  by_cases hk : k' = k
  · subst hk
    rw [Function.update_self]
    cases o with
    | none => exact h rfl
    | some b => exact Dict.get?_set_self
  · rw [Function.update_of_ne hk, Keyed.get?_store_ne d hk]

theorem opened_none {o : Option Block} {j : Joined} (h : (opened o j).1 = none) : o = none := by
  rw [opened] at h
  split at h
  · cases h
  · exact h

/-- A loop of two parts that follows the processes through each of them follows them through
all the rows. -/
theorem follows_all {σ : Type} (Follows : σ → (String × String → Option Block) →
      List ((String × String) × Event) → Prop) {start check : σ → Joined → σ}
    (hstart : ∀ s blocks outs j, Follows s blocks outs →
      Follows (start s j) (Function.update blocks j.key (opened (blocks j.key) j).1)
        (outs ++ (opened (blocks j.key) j).2.map fun e => (j.key, e)))
    (hcheck : ∀ s blocks outs j b, Follows s blocks outs → blocks j.key = some b →
      Follows (check s j) (Function.update blocks j.key (some (acked ends b j).1))
        (outs ++ (acked ends b j).2.map fun e => (j.key, e)))
    (hskip : ∀ s blocks outs j, Follows s blocks outs → blocks j.key = none → check s j = s)
    (js : List Joined) {s : σ} {d : Dict (String × String) Block}
    {outs : List ((String × String) × Event)} (h : Follows s d.get? outs) :
    Follows (js.foldl (fun s j => check (start s j) j) s) ((process ends).all d js).1.get?
      (outs ++ ((process ends).all d js).2) := by
  induction js generalizing s d outs with
  | nil =>
    rw [Keyed.all, List.append_nil]
    exact h
  | cons j js ih =>
    have hopened := hstart s d.get? outs j h
    have hone : Follows (check (start s j) j)
        (Keyed.store d j.key ((process ends).step (d.get? j.key) j).1).get?
        (outs ++ ((process ends).step (d.get? j.key) j).2.map fun e => (j.key, e)) := by
      rw [step_eq]
      cases ho : (opened (d.get? j.key) j).1 with
      | none =>
        rw [ho] at hopened
        rw [hskip _ _ _ j hopened (Function.update_self _ _ _)]
        rw [get?_store_update d j.key fun _ => opened_none ho]
        exact hopened
      | some b =>
        rw [ho] at hopened
        have hchecked := hcheck _ _ _ j b hopened (Function.update_self _ _ _)
        rw [Function.update_idem, List.append_assoc, ← List.map_append] at hchecked
        show Follows _ (Keyed.store d j.key (some (acked ends b j).1)).get? _
        rw [get?_store_update d j.key fun hn => (Option.some_ne_none _ hn).elim]
        exact hchecked
    have hrest := ih hone
    rw [List.append_assoc] at hrest
    exact hrest

end

def events (ends : Joined → Bool) (js : List Joined) : List ((String × String) × Event) :=
  ((process ends).all .empty js).2

theorem report_follows (w : Window) (js : List Joined) : ∃ blocks,
    (Report.run w js).Follows blocks (events (fun j => w.inRun j.gm) js) := by
  have hempty : Report.Follows {} (Dict.empty : Dict (String × String) Block).get? [] :=
    ⟨fun _ => rfl, fun _ => rfl, fun _ => rfl, fun _ => rfl⟩
  refine ⟨_, follows_all Report.Follows (fun _ _ _ j h => h.start j)
    (fun _ _ _ j _ h hb => h.check j hb) (fun s blocks outs j h hb => ?_) js hempty⟩
  rw [Report.check, h.cur, hb]
  rfl

theorem audit_follows (js : List Joined) : ∃ blocks,
    (Audit.run js).Follows blocks (events (fun _ => true) js) := by
  have hempty : Audit.Follows {} (Dict.empty : Dict (String × String) Block).get? [] :=
    ⟨fun _ => rfl, fun _ => rfl, fun _ => rfl⟩
  refine ⟨_, follows_all Audit.Follows (fun _ _ _ j h => h.start j)
    (fun _ _ _ j _ h hb => h.check j hb) (fun s blocks outs j h hb => ?_) js hempty⟩
  rw [Audit.check, h.cur, hb]
  rfl

end RunReport
end P5G
