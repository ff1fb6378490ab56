import P5G.Rtp.LossRuns

/-!
# NAL units inside an FU-A unit

`Push` does not close an FU-A unit when a whole NAL unit arrives before its
end: the NAL unit goes into the middle of the open one, and is thrown away with
it when a fragment is lost.  Where that never happens, an access unit is made
of the NAL units that arrived whole and of FU-A units with nothing in between.
-/

namespace P5G

def startCoded (us : List (List UInt8)) : List UInt8 := us.flatMap fun u => startCode ++ u

theorem startCoded_append (us vs : List (List UInt8)) :
    startCoded (us ++ vs) = startCoded us ++ startCoded vs := List.flatMap_append

theorem startCoded_singleton (u : List UInt8) : startCoded [u] = startCode ++ u :=
  List.append_nil _

/-! ## Runs of fragments -/

/-- Neither a NAL unit nor a part of one. -/
def Payload.silent : Payload → Bool
  | nals us _ => us.isEmpty
  | fragment .. => false
  | _ => true

theorem units_of_silent {p : Payload} (h : p.silent = true) : p.units = [] := by
  cases p with
  | nals us torn => exact List.isEmpty_iff.mp h
  | empty => rfl
  | fragment hdr start last bytes => rfl
  | foreign => rfl

/-- An FU-A unit from its start fragment on, without a gap, and its NAL unit so far. -/
inductive OpenRun : List Entry → List UInt8 → Prop
  | start {x : Entry} {hdr : UInt8} {bytes : List UInt8}
      (hx : x.content = .fragment hdr true false bytes) : OpenRun [x] (hdr :: bytes)
  | more {es : List Entry} {u : List UInt8} {x : Entry} {hdr : UInt8} {bytes : List UInt8}
      (h : OpenRun es u) (hgap : x.gap = 0) (hx : x.content = .fragment hdr false false bytes) :
      OpenRun (es ++ [x]) (u ++ bytes)
  | silent {es : List Entry} {u : List UInt8} {x : Entry} (h : OpenRun es u) (hgap : x.gap = 0)
      (hx : x.content.silent = true) : OpenRun (es ++ [x]) u

inductive WholeRun : List Entry → List UInt8 → Prop
  | alone {x : Entry} {hdr : UInt8} {bytes : List UInt8}
      (hx : x.content = .fragment hdr true true bytes) : WholeRun [x] (hdr :: bytes)
  | last {es : List Entry} {u : List UInt8} {x : Entry} {hdr : UInt8} {bytes : List UInt8}
      (h : OpenRun es u) (hgap : x.gap = 0) (hx : x.content = .fragment hdr false true bytes) :
      WholeRun (es ++ [x]) (u ++ bytes)

/-- A NAL unit that arrived whole, or whose fragments did with nothing in between. -/
def Genuine (es : List Entry) (u : List UInt8) : Prop :=
  (∃ x ∈ es, u ∈ x.content.units) ∨ ∃ run, run <:+: es ∧ WholeRun run u

theorem Genuine.concat {es : List Entry} {u : List UInt8} (h : Genuine es u) (x : Entry) :
    Genuine (es ++ [x]) u := by
  rcases h with ⟨y, hy, hu⟩ | ⟨run, hrun, hu⟩
  · exact .inl ⟨y, List.mem_append_left [x] hy, hu⟩
  · exact .inr ⟨run, hrun.trans (List.prefix_append es [x]).isInfix, hu⟩

/-- No NAL unit arrives whole, without a gap before it, while an FU-A unit is open. -/
def Undisturbed (es : List Entry) : Prop :=
  ∀ fs x gs, es = fs ++ x :: gs → (gather fs).fu.isSome = true → x.gap = 0 → x.content.units = []

theorem undisturbed_concat {es : List Entry} {x : Entry} :
    Undisturbed (es ++ [x]) ↔ Undisturbed es ∧
      ((gather es).fu.isSome = true → x.gap = 0 → x.content.units = []) := by
  constructor
  · intro h
    exact ⟨fun fs y gs hes => h fs y (gs ++ [x]) (by rw [hes]; simp), h es x [] rfl⟩
  · rintro ⟨hes, hx⟩ fs y gs hsplit
    rcases List.eq_nil_or_concat gs with rfl | ⟨gs, z, rfl⟩
    · obtain ⟨rfl, hxy⟩ := List.append_inj' hsplit rfl
      obtain rfl := List.singleton_inj.mp hxy
      exact hx
    · have hsplit' : es ++ [x] = (fs ++ y :: gs) ++ [z] := by rw [hsplit]; simp
      exact hes fs y gs (List.append_inj' hsplit' rfl).1

namespace Assembly

theorem arrive_whole (a : Assembly) (g : Nat) (arrival : Int) :
    (a.arrive g arrival).whole = a.whole := by
  show ((a.stamp arrival).miss g).whole = a.whole
  by_cases hg : g = 0
  · rw [hg, miss_zero]
    rfl
  · cases hfu : (a.stamp arrival).fu with
    | none =>
      rw [miss_none hfu]
      rfl
    | some o =>
      rw [miss_some hfu hg]
      rfl

theorem arrive_fu (a : Assembly) (g : Nat) (arrival : Int) :
    (a.arrive g arrival).fu = if g = 0 then a.fu else none := by
  show ((a.stamp arrival).miss g).fu = _
  by_cases hg : g = 0
  · rw [hg, miss_zero, if_pos rfl]
    rfl
  · rw [if_neg hg]
    cases hfu : (a.stamp arrival).fu with
    | none =>
      rw [miss_none hfu]
      exact hfu
    | some o => rw [miss_some hfu hg]

theorem units_whole (us : List (List UInt8)) {a : Assembly} (h : a.fu = none) :
    (us.foldl unit a).whole = a.whole ++ startCoded us ∧ (us.foldl unit a).fu = none := by
  induction us generalizing a with
  | nil => exact ⟨(List.append_nil _).symm, h⟩
  | cons u us ih =>
    have hwhole : (a.unit u).whole = a.whole ++ (startCode ++ u) := by
      show (a.append (startCode ++ u)).whole = _
      rw [append_none h]
    have hfu : (a.unit u).fu = none := by
      show (a.append (startCode ++ u)).fu = none
      rw [append_none h]
      exact h
    obtain ⟨hrest, hnone⟩ := ih hfu
    refine ⟨?_, hnone⟩
    rw [List.foldl_cons, hrest, hwhole, List.append_assoc]
    rfl

end Assembly

theorem suffix_concat {es run : List Entry} (h : run <:+ es) (x : Entry) :
    run ++ [x] <:+ es ++ [x] := by
  obtain ⟨pre, rfl⟩ := h
  exact ⟨pre, by simp⟩

/-- An assembly that is made of NAL units with nothing in between. -/
structure Woven (es : List Entry) (a : Assembly) : Prop where
  whole : ∃ us, a.whole = startCoded us ∧ (∀ u ∈ us, Genuine es u) ∧
    ∀ x ∈ es, ∀ u ∈ x.content.units, u ∈ us
  fu : ∀ o ∈ a.fu, ∃ run u, run <:+ es ∧ OpenRun run u ∧ o = startCode ++ u

namespace Woven

variable {es : List Entry} {a b : Assembly} {x : Entry}

/-- A packet that finishes the NAL units `vs`. -/
theorem concat (h : Woven es a) (vs : List (List UInt8))
    (hwhole : b.whole = a.whole ++ startCoded vs)
    (hvs : ∀ v ∈ vs, Genuine (es ++ [x]) v) (hunits : ∀ u ∈ x.content.units, u ∈ vs)
    (hfu : ∀ o ∈ b.fu, ∃ run u, run <:+ es ++ [x] ∧ OpenRun run u ∧ o = startCode ++ u) :
    Woven (es ++ [x]) b := by
  obtain ⟨us, hus, hgenuine, hmem⟩ := h.whole
  refine ⟨⟨us ++ vs, ?_, ?_, ?_⟩, hfu⟩
  · rw [hwhole, hus, startCoded_append]
  · intro u hu
    rcases List.mem_append.mp hu with hu | hu
    · exact (hgenuine u hu).concat x
    · exact hvs u hu
  · intro y hy u hu
    rcases List.mem_append.mp hy with hy | hy
    · exact List.mem_append_left vs (hmem y hy u hu)
    · obtain rfl := List.mem_singleton.mp hy
      exact List.mem_append_right us (hunits u hu)

/-- A packet that says nothing. -/
theorem silent (h : Woven es a) (hx : x.content.silent = true) (hwhole : b.whole = a.whole)
    (hfu : b.fu = if x.gap = 0 then a.fu else none) : Woven (es ++ [x]) b := by
  have hunits := units_of_silent hx
  refine h.concat [] (by rw [hwhole]; exact (List.append_nil _).symm) (by simp) (by simp [hunits])
    fun o ho => ?_
  by_cases hg : x.gap = 0
  · rw [hfu, if_pos hg] at ho
    obtain ⟨run, u, hrun, hopen, rfl⟩ := h.fu o ho
    exact ⟨run ++ [x], u, suffix_concat hrun x,
      hopen.silent hg hx, rfl⟩
  · rw [hfu, if_neg hg] at ho
    cases ho

/-- A packet with whole NAL units. -/
theorem nals (h : Woven es a) {us : List (List UInt8)} {torn : Bool}
    (hc : x.content = .nals us torn) (hwhole : b.whole = a.whole)
    (hfu : b.fu = if x.gap = 0 then a.fu else none)
    (hx : a.fu.isSome = true → x.gap = 0 → x.content.units = []) :
    Woven (es ++ [x]) (b.payload (.nals us torn)) := by
  by_cases hus : us = []
  · subst hus
    exact h.silent (by rw [hc]; rfl) hwhole hfu
  · have hnone : b.fu = none := by
      by_cases hg : x.gap = 0
      · rw [hfu, if_pos hg]
        cases ho : a.fu with
        | none => rfl
        | some o =>
          have hnil := hx (by rw [ho]; rfl) hg
          rw [hc] at hnil
          exact absurd hnil hus
      · rw [hfu, if_neg hg]
    obtain ⟨hbytes, hclosed⟩ :=
      Assembly.units_whole us (a := { b with orphan := false }) hnone
    have hunits : x.content.units = us := by rw [hc]; rfl
    refine h.concat us (hbytes.trans (congrArg (· ++ _) hwhole)) (fun u hu => .inl ⟨x, ?_, ?_⟩) ?_ ?_
    · simp
    · rw [hunits]
      exact hu
    · rw [hunits]
      exact fun u hu => hu
    · intro o ho
      have hsome : (us.foldl Assembly.unit { b with orphan := false }).fu = some o := ho
      rw [hclosed] at hsome
      cases hsome

/-- A packet that starts a NAL unit. -/
theorem start (h : Woven es a) {hdr : UInt8} {last : Bool} {bytes : List UInt8}
    (hc : x.content = .fragment hdr true last bytes) (hwhole : b.whole = a.whole) :
    Woven (es ++ [x]) (b.payload (.fragment hdr true last bytes)) := by
  have hunits : x.content.units = [] := by rw [hc]; rfl
  have hopen : b.closeFu.whole = a.whole := by
    rw [← hwhole, Assembly.closeFu]
    split <;> rfl
  have hstep : b.payload (.fragment hdr true last bytes) =
      (b.openUnit hdr).continueFu last bytes := rfl
  have hsome : (b.openUnit hdr).fu = some (startCode ++ [hdr]) := rfl
  rw [hstep, Assembly.continueFu_some hsome]
  cases last with
  | true =>
    refine h.concat [hdr :: bytes] ?_ ?_ (by simp [hunits]) (by rintro o ⟨⟩)
    · show b.closeFu.whole ++ _ = _
      rw [hopen, startCoded_singleton, List.append_assoc]
      rfl
    · intro v hv
      obtain rfl := List.mem_singleton.mp hv
      exact .inr ⟨[x], (List.suffix_append es [x]).isInfix, .alone hc⟩
  | false =>
    refine h.concat [] ?_ (by simp) (by simp [hunits]) ?_
    · show b.closeFu.whole = _
      rw [hopen]
      exact (List.append_nil _).symm
    · intro o ho
      cases ho
      exact ⟨[x], hdr :: bytes, List.suffix_append es [x], .start hc, by simp⟩

/-- A packet that goes on with a NAL unit. -/
theorem more (h : Woven es a) {hdr : UInt8} {last : Bool} {bytes : List UInt8}
    (hc : x.content = .fragment hdr false last bytes) (hwhole : b.whole = a.whole)
    (hfu : b.fu = if x.gap = 0 then a.fu else none) :
    Woven (es ++ [x]) (b.payload (.fragment hdr false last bytes)) := by
  have hunits : x.content.units = [] := by rw [hc]; rfl
  have hstep : b.payload (.fragment hdr false last bytes) = b.continueFu last bytes := rfl
  rw [hstep]
  cases ho : b.fu with
  | none =>
    rw [Assembly.continueFu_none ho]
    refine h.concat [] ?_ (by simp) (by simp [hunits]) ?_
    · show b.whole = _
      rw [hwhole]
      exact (List.append_nil _).symm
    · intro o ho'
      have hsome : b.fu = some o := ho'
      rw [ho] at hsome
      cases hsome
  | some o =>
    have hg : x.gap = 0 := by
      by_contra hg
      rw [if_neg hg] at hfu
      rw [hfu] at ho
      cases ho
    rw [if_pos hg] at hfu
    obtain ⟨run, u, hrun, hopen, rfl⟩ := h.fu o (hfu.symm.trans ho)
    rw [Assembly.continueFu_some ho]
    cases last with
    | true =>
      refine h.concat [u ++ bytes] ?_ ?_ (by simp [hunits]) (by rintro o ⟨⟩)
      · show b.whole ++ _ = _
        rw [hwhole, startCoded_singleton, List.append_assoc]
      · intro v hv
        obtain rfl := List.mem_singleton.mp hv
        exact .inr ⟨run ++ [x], (suffix_concat hrun x).isInfix, .last hopen hg hc⟩
    | false =>
      refine h.concat [] ?_ (by simp) (by simp [hunits]) ?_
      · show b.whole = _
        rw [hwhole]
        exact (List.append_nil _).symm
      · intro o' ho'
        cases ho'
        exact ⟨run ++ [x], u ++ bytes, suffix_concat hrun x, hopen.more hg hc, by simp⟩

end Woven

/-- One packet that does not disturb what is open. -/
theorem Woven.enter {es : List Entry} {a : Assembly} (h : Woven es a) {x : Entry}
    (hx : a.fu.isSome = true → x.gap = 0 → x.content.units = []) :
    Woven (es ++ [x]) (a.enter x) := by
  have hwhole := a.arrive_whole x.gap x.arrival
  have hfu := a.arrive_fu x.gap x.arrival
  rw [Assembly.enter]
  generalize a.arrive x.gap x.arrival = b at hwhole hfu
  cases hc : x.content with
  | empty => exact h.silent (by rw [hc]; rfl) hwhole hfu
  | foreign => exact h.silent (by rw [hc]; rfl) hwhole hfu
  | nals us torn => exact h.nals hc hwhole hfu hx
  | fragment hdr start last bytes =>
    cases start with
    | true => exact h.start hc hwhole
    | false => exact h.more hc hwhole hfu

theorem woven {es : List Entry} (h : Undisturbed es) : Woven es (gather es) := by
  induction es using List.reverseRecOn with
  | nil => exact ⟨⟨[], rfl, by simp, by simp⟩, by rintro o ⟨⟩⟩
  | append_singleton es x ih =>
    obtain ⟨hes, hx⟩ := undisturbed_concat.mp h
    rw [gather_concat]
    exact (ih hes).enter hx

/-! ## Runs -/

/-- A packet that joins the access unit that is open. -/
theorem Grouping.intake_joins {r : Grouping} {q : RtpHeader × Int} {i : Intake}
    (h : r.intake q = some i) (hne : i.entries ≠ []) :
    r.current = some (q.1.ts, i.entries) ∧ judge r.last q.1.seq = .progress i.entry.gap := by
  rw [intake] at h
  cases hv : judge r.last q.1.seq with
  | stale =>
    rw [hv] at h
    cases h
  | restart =>
    rw [hv] at h
    cases h
    exact absurd rfl hne
  | progress g =>
    rw [hv] at h
    cases hc : r.current with
    | none =>
      simp only [hc] at h
      cases h
      exact absurd rfl hne
    | some x =>
      simp only [hc] at h
      by_cases hts : q.1.ts = x.1
      · rw [if_pos hts] at h
        cases h
        exact ⟨by rw [hts], rfl⟩
      · rw [if_neg hts] at h
        cases h
        exact absurd rfl hne

/-- What ends before a packet is what was open. -/
theorem Grouping.intake_ends {r : Grouping} {q : RtpHeader × Int} {i : Intake}
    (h : r.intake q = some i) : ∀ g ∈ i.ended, ∃ x ∈ r.current, g.entries = x.2 := by
  have hcut : ∀ tail, ∀ g ∈ r.cut tail, ∃ x ∈ r.current, g.entries = x.2 := by
    intro tail g hg
    rw [cut] at hg
    cases hc : r.current with
    | none =>
      rw [hc] at hg
      cases hg
    | some x =>
      rw [hc] at hg
      obtain rfl := List.mem_singleton.mp hg
      exact ⟨x, rfl, rfl⟩
  rw [intake] at h
  cases hv : judge r.last q.1.seq with
  | stale =>
    rw [hv] at h
    cases h
  | restart =>
    rw [hv] at h
    cases h
    exact hcut 0
  | progress g =>
    rw [hv] at h
    cases hc : r.current with
    | none =>
      simp only [hc] at h
      cases h
      simp
    | some x =>
      simp only [hc] at h
      by_cases hts : q.1.ts = x.1
      · rw [if_pos hts] at h
        cases h
        simp
      · rw [if_neg hts] at h
        cases h
        rw [← hc]
        exact hcut g

namespace Depacketizer

variable {cap : Nat}

/-- The packet joins the access unit that is open, without a gap, and brings a
whole NAL unit while an FU-A unit is open. -/
def Interrupts (d : Depacketizer cap) (q : RtpHeader) : Prop :=
  d.fuOpen = true ∧ d.haveTs = true ∧ q.ts = d.curTs ∧ d.haveSeq = true ∧ d.seqStep q.seq = 1 ∧
    (Payload.ofBytes q.payload).units ≠ []

/-- Each NAL unit of a complete event is genuine, and each NAL unit that
arrived whole is in the event. -/
def KeepsWhole (g : Group) (x : AuEvent × List UInt8) : Prop :=
  ∃ us, x.2 = startCoded us ∧ (x.1.complete = true → ∀ u ∈ us, Genuine g.entries u) ∧
    ∀ y ∈ g.entries, ∀ u ∈ y.content.units, u ∈ us

structure Calm (r : Grouping) : Prop where
  seated : r.current.isSome = true → r.last.isSome = true
  undisturbed : ∀ x ∈ r.current, Fits cap x.2 → Undisturbed x.2

theorem fits_prefix {es fs : List Entry} (h : Fits cap (es ++ fs)) : Fits cap es := fun gs hgs =>
  h gs (hgs.trans (List.prefix_append es fs))

theorem undisturbed_nil : Undisturbed [] := by
  intro fs x gs h
  simp at h

/-- A packet that does not interrupt leaves the unit that it joins undisturbed. -/
theorem intake_undisturbed {d : Depacketizer cap} {r : Grouping} (h : Follows Assembles d r)
    (hcalm : @Calm cap r) {q : RtpHeader × Int} (hq : ¬d.Interrupts q.1) {i : Intake}
    (hi : r.intake q = some i) (hfits : Fits cap (i.entries ++ [i.entry])) :
    Undisturbed (i.entries ++ [i.entry]) := by
  have hfits' := fits_prefix hfits
  by_cases hne : i.entries = []
  · rw [hne]
    refine undisturbed_concat.mpr ⟨undisturbed_nil, fun ho => ?_⟩
    cases ho
  · obtain ⟨hcur, hjudge⟩ := Grouping.intake_joins hi hne
    refine undisturbed_concat.mpr ⟨hcalm.undisturbed _ hcur hfits', fun ho hg => ?_⟩
    by_contra hunits
    have hentries : r.entries = i.entries := by rw [Grouping.entries, hcur]
    have hcontent := h.content
    rw [hentries] at hcontent
    obtain ⟨first, last, hcarries⟩ := hcontent.2 hfits'
    rw [gather_fresh hne] at hcarries
    have hopen : d.fuOpen = (gather i.entries).fu.isSome := hcarries.holds.fuOpen
    obtain ⟨l, hl⟩ := Option.isSome_iff_exists.mp (hcalm.seated (by rw [hcur]; rfl))
    have hstep : d.seqStep q.1.seq = 1 := by
      rw [hl] at hjudge
      obtain ⟨-, -, hgap⟩ := judge_progress hjudge
      rw [hg] at hgap
      rw [seqStep, h.lastSeq l hl]
      omega
    refine hq ⟨hopen.trans ho, ?_, ?_, ?_, hstep, ?_⟩
    · rw [h.haveTs, hcur]
      rfl
    · exact (h.curTs _ hcur).symm
    · rw [h.haveSeq, hl]
      rfl
    · rw [← (Grouping.intake_entry hi).1]
      exact hunits

theorem receive_calm {d : Depacketizer cap} {r : Grouping} (h : Follows Assembles d r)
    (hcalm : @Calm cap r) {q : RtpHeader × Int} (hq : ¬d.Interrupts q.1) :
    @Calm cap (r.receive q).1 ∧
      ∀ g ∈ (r.receive q).2, Fits cap g.entries → Undisturbed g.entries := by
  cases hi : r.intake q with
  | none =>
    rw [Grouping.intake_none hi]
    exact ⟨hcalm, by simp⟩
  | some i =>
    have hnew := intake_undisturbed h hcalm hq hi
    have hends : ∀ g ∈ i.ended, Fits cap g.entries → Undisturbed g.entries := by
      intro g hg hfits
      obtain ⟨x, hx, hentries⟩ := Grouping.intake_ends hi g hg
      rw [hentries] at hfits ⊢
      exact hcalm.undisturbed x hx hfits
    rw [Grouping.intake_some hi]
    by_cases hm : i.entry.packet.marker = 0
    · rw [Grouping.after, Grouping.endedBy, if_pos hm, if_pos hm, List.append_nil]
      refine ⟨⟨fun _ => rfl, ?_⟩, hends⟩
      rintro x ⟨rfl⟩ hfits
      exact hnew hfits
    · rw [Grouping.after, Grouping.endedBy, if_neg hm, if_neg hm]
      refine ⟨⟨fun _ => rfl, by rintro x ⟨⟩⟩, fun g hg hfits => ?_⟩
      rcases List.mem_append.mp hg with hg | hg
      · exact hends g hg hfits
      · obtain rfl := List.mem_singleton.mp hg
        exact hnew hfits

theorem receiveAll_calm (qs : List (RtpHeader × Int)) {d : Depacketizer cap} {r : Grouping}
    (h : Follows Assembles d r) (hcalm : @Calm cap r)
    (hrun : ∀ pre q post, qs = pre ++ q :: post → ¬(d.receiveAll pre).1.Interrupts q.1) :
    ∀ g ∈ (r.receiveAll qs).2, Fits cap g.entries → Undisturbed g.entries := by
  induction qs generalizing d r with
  | nil => simp [Grouping.receiveAll]
  | cons q qs ih =>
    obtain ⟨hnext, hgroups⟩ := receive_calm h hcalm (hrun [] q qs rfl)
    have hfollows := (h.receive assembles_content q).1
    intro g hg
    rw [Grouping.receiveAll] at hg
    rcases List.mem_append.mp hg with hg | hg
    · exact hgroups g hg
    · refine ih hfollows hnext (fun pre p post hqs => ?_) g hg
      have hstep := hrun (q :: pre) p post (by rw [hqs]; rfl)
      exact hstep

/-- In a run where no whole NAL unit arrives inside an FU-A unit, every event
is made of whole NAL units, and of all that arrived whole. -/
theorem uninterrupted_keeps_whole (bufs : AuBuffers cap) (qs : List (RtpHeader × Int))
    (hrun : ∀ pre q post, qs = pre ++ q :: post →
      ¬(({ buf := bufs } : Depacketizer cap).receiveAll pre).1.Interrupts q.1) :
    List.Forall₂ (fun g x => Fits cap g.entries → KeepsWhole g x)
      (({} : Grouping).receiveAll qs).2 (({ buf := bufs } : Depacketizer cap).receiveAll qs).2 := by
  have hcalm := receiveAll_calm qs (follows_fresh assembles_content bufs)
    ⟨fun hn => hn, by rintro x ⟨⟩⟩ hrun
  have hboth := (List.forall₂_and_left _ _).mpr ⟨hcalm, receiveAll_shows bufs qs⟩
  refine hboth.imp fun g x h hfits => ?_
  obtain ⟨us, hus, hgenuine, hunits⟩ := (woven (h.1 hfits)).whole
  exact ⟨us, (h.2 hfits).data.trans hus, fun _ => hgenuine, hunits⟩

end Depacketizer

/-! A slice in the middle of an IDR unit of two fragments. -/

def plainPacket (seq : UInt16) (marker : UInt8) (payload : List UInt8) : RtpHeader where
  pt := 96
  marker := marker
  cc := 0
  x := 0
  p := 0
  seq := seq
  ts := 3000
  ssrc := 1
  hdrLen := 12
  padLen := 0
  payload := payload

def startPacket : RtpHeader := plainPacket 1 0 [0x7c, 0x85, 4]

def slicePacket : RtpHeader := plainPacket 2 0 [0x41, 7]

def endPacket (seq : UInt16) : RtpHeader := plainPacket seq 1 [0x7c, 0x45, 6]

theorem uninterrupted_two_fragments :
    List.Forall₂ (fun g x => Depacketizer.Fits 64 g.entries → Depacketizer.KeepsWhole g x)
      (({} : Grouping).receiveAll [(startPacket, 10), (endPacket 2, 20)]).2
      (({ buf := AuBuffers.zeroed 64 } : Depacketizer 64).receiveAll
        [(startPacket, 10), (endPacket 2, 20)]).2 := by
  refine Depacketizer.uninterrupted_keeps_whole (AuBuffers.zeroed 64)
    [(startPacket, 10), (endPacket 2, 20)] ?_
  intro pre q post hqs ⟨hopen, _, _, _, _, hunits⟩
  cases pre with
  | nil => cases hopen
  | cons a pre =>
    cases pre with
    | nil =>
      have hq : q = (endPacket 2, 20) := (List.cons_eq_cons.mp (List.cons_eq_cons.mp hqs).2).1.symm
      rw [hq] at hunits
      exact hunits (by decide)
    | cons b pre => simp at hqs

def interruptedRun : List (RtpHeader × Int) :=
  [(startPacket, 10), (slicePacket, 20), (endPacket 3, 30)]

def interruptedEntries : List Entry :=
  [⟨startPacket, 10, 0⟩, ⟨slicePacket, 20, 0⟩, ⟨endPacket 3, 30, 0⟩]

/-! No run of fragments in these packets has nothing in between. -/

def Payload.starts : Payload → Bool
  | fragment _ start _ _ => start
  | _ => false

def Payload.ends : Payload → Bool
  | fragment _ _ last _ => last
  | _ => false

theorem openRun_shape {es : List Entry} {u : List UInt8} (h : OpenRun es u) :
    (∀ x ∈ es, x.content.units = []) ∧ (es.head?.any fun x => x.content.starts) = true := by
  induction h with
  | start hx => simp [hx, Payload.units, Payload.starts]
  | @more es u x hdr bytes h hgap hx ih =>
    have hne : es ≠ [] := by
      rintro rfl
      simp at ih
    refine ⟨?_, by rw [List.head?_append_of_ne_nil _ hne]; exact ih.2⟩
    simpa [hx, Payload.units, or_imp, forall_and] using ih.1
  | @silent es u x h hgap hx ih =>
    have hne : es ≠ [] := by
      rintro rfl
      simp at ih
    refine ⟨?_, by rw [List.head?_append_of_ne_nil _ hne]; exact ih.2⟩
    simpa [units_of_silent hx, or_imp, forall_and] using ih.1

theorem wholeRun_shape {es : List Entry} {u : List UInt8} (h : WholeRun es u) :
    (∀ x ∈ es, x.content.units = []) ∧ (es.head?.any fun x => x.content.starts) = true ∧
      (es.getLast?.any fun x => x.content.ends) = true := by
  cases h with
  | alone hx => simp [hx, Payload.units, Payload.starts, Payload.ends]
  | @last es u x hdr bytes h hgap hx =>
    obtain ⟨hunits, hstart⟩ := openRun_shape h
    have hne : es ≠ [] := by
      rintro rfl
      simp at hstart
    refine ⟨?_, by rw [List.head?_append_of_ne_nil _ hne]; exact hstart, ?_⟩
    · simpa [hx, Payload.units, or_imp, forall_and] using hunits
    · simp [hx, Payload.ends]

theorem interruptedEntries_runs (run : List Entry) (u : List UInt8)
    (hrun : run <:+: interruptedEntries) : ¬WholeRun run u := by
  have hnone : ∀ tail ∈ interruptedEntries.tails, ∀ run ∈ tail.inits,
      (∀ x ∈ run, x.content.units = []) → (run.head?.any fun x => x.content.starts) = true →
        ¬(run.getLast?.any fun x => x.content.ends) = true := by
    decide
  intro h
  obtain ⟨tail, hinit, htail⟩ := List.infix_iff_prefix_suffix.mp hrun
  obtain ⟨hunits, hstart, hend⟩ := wholeRun_shape h
  exact hnone tail ((List.mem_tails _ _).mpr htail) run ((List.mem_inits _ _).mpr hinit) hunits hstart hend

/-- The slice goes into the middle of the IDR unit, and the event is complete. -/
theorem complete_with_slice_inside :
    ¬∀ qs, List.Forall₂ (fun g x => Depacketizer.Fits 64 g.entries → Depacketizer.KeepsWhole g x)
      (({} : Grouping).receiveAll qs).2
      (({ buf := AuBuffers.zeroed 64 } : Depacketizer 64).receiveAll qs).2 := by
  intro h
  have hrun := h interruptedRun
  have hgroups : (({} : Grouping).receiveAll interruptedRun).2 =
      [⟨3000, interruptedEntries, 0, true⟩] := rfl
  rw [hgroups] at hrun
  obtain ⟨x, xs, hx, -, hevents⟩ := List.forall₂_cons_left_iff.mp hrun
  have hall : ∀ y ∈ (({ buf := AuBuffers.zeroed 64 } : Depacketizer 64).receiveAll
      interruptedRun).2, y.1.complete = true ∧
        y.2 = startCode ++ [0x65, 4] ++ startCode ++ [0x41, 7, 6] := by
    decide +kernel
  rw [hevents] at hall
  obtain ⟨hcomplete, hdata⟩ := hall x List.mem_cons_self
  have hfits : Depacketizer.Fits 64 interruptedEntries := Depacketizer.fits_of_weight (by decide)
  obtain ⟨us, hus, hgenuine, -⟩ := hx hfits
  rw [hdata] at hus
  cases us with
  | nil => simp [startCoded, startCode] at hus
  | cons u us =>
    rcases hgenuine hcomplete u List.mem_cons_self with ⟨y, hy, hu⟩ | ⟨run, hinfix, hwhole⟩
    · have honly : ∀ y ∈ interruptedEntries, ∀ v ∈ y.content.units, v = [0x41, 7] := by decide
      obtain rfl := honly y hy u hu
      simp [startCoded, startCode] at hus
    · exact interruptedEntries_runs run u hinfix hwhole

end P5G
