import P5G.Rtp.Assembly

/-!
# An access unit with losses

What an assembly has become after the packets of an access unit, some of them
lost: it holds the NAL units that were received whole, in order, and it has
counted the ones that were received in part.
-/

namespace P5G

namespace Assembly

def counts (a : Assembly) : Nat × Nat × Int × Int :=
  (a.packets, a.lost, a.firstArrival, a.lastArrival)

theorem append_counts (a : Assembly) (p : List UInt8) : (a.append p).counts = a.counts := by
  rw [append]
  split <;> rfl

theorem closeFu_counts (a : Assembly) : a.closeFu.counts = a.counts := by
  rw [closeFu]
  split <;> rfl

theorem continueFu_counts (a : Assembly) (last : Bool) (fragment : List UInt8) :
    (a.continueFu last fragment).counts = a.counts := by
  rw [continueFu]
  repeat' split
  all_goals rfl

theorem nals_counts (ns : List Nal) (a : Assembly) : (ns.foldl nal a).counts = a.counts := by
  induction ns generalizing a with
  | nil => rfl
  | cons n ns ih => exact (ih (a.nal n)).trans (a.append_counts n.annexB)

theorem piece_counts (a : Assembly) (p : Piece) : (a.piece p).counts = a.counts := by
  cases p with
  | single n => exact a.append_counts n.annexB
  | stapA g => exact nals_counts g.nals { a with orphan := false }
  | fuA n start last fragment =>
    refine (continueFu_counts _ last fragment).trans ?_
    cases start with
    | false => rfl
    | true => exact a.closeFu_counts

theorem miss_counts (a : Assembly) (g : Nat) :
    (a.miss g).counts = (a.packets, a.lost + g, a.firstArrival, a.lastArrival) := by
  cases hfu : a.fu with
  | none => rw [miss_none hfu]; rfl
  | some o =>
    by_cases hg : g = 0
    · rw [hg, miss_zero]; rfl
    · rw [miss_some hfu hg]; rfl

theorem take_counts (a : Assembly) (g : Nat) (arrival : Int) (p : Piece) :
    (a.take g arrival p).counts =
      (a.packets + 1, a.lost + g, if a.packets = 0 then arrival else a.firstArrival, arrival) := by
  have h := (a.stamp arrival).miss_counts g
  simp only [counts, Prod.mk.injEq] at h
  obtain ⟨hpackets, hlost, hfirst, hlast⟩ := h
  rw [take, piece_counts]
  simp only [arrive, counts, hpackets, hlost, hfirst, hlast]
  rfl

/-- A stamp from an earlier access unit is overwritten by the first packet. -/
theorem take_fresh (first last arrival : Int) (g : Nat) (p : Piece) :
    ({ firstArrival := first, lastArrival := last } : Assembly).take g arrival p =
      ({} : Assembly).take g arrival p := rfl

theorem continueFu_idr (a : Assembly) (last : Bool) (fragment : List UInt8) :
    (a.continueFu last fragment).idr = a.idr := by
  rw [continueFu]
  repeat' split
  all_goals rfl

theorem nals_idr (ns : List Nal) (a : Assembly) :
    (ns.foldl nal a).idr = (a.idr || ns.any Nal.isIdr) := by
  induction ns generalizing a with
  | nil => simp
  | cons n ns ih => rw [List.foldl_cons, ih, List.any_cons, nal, Bool.or_assoc]

theorem piece_idr (a : Assembly) (p : Piece) : (a.piece p).idr = (a.idr || p.startsIdr) := by
  cases p with
  | single n => rfl
  | stapA g => exact nals_idr g.nals { a with orphan := false }
  | fuA n start last fragment =>
    refine (continueFu_idr _ last fragment).trans ?_
    cases start with
    | false => simp [Piece.startsIdr]
    | true => rfl

theorem miss_idr (a : Assembly) (g : Nat) : (a.miss g).idr = a.idr := by
  rw [miss]
  split
  · rfl
  · split
    · rfl
    · exact closeFu_idr { a with lost := a.lost + g }

theorem take_idr (a : Assembly) (g : Nat) (arrival : Int) (p : Piece) :
    (a.take g arrival p).idr = (a.idr || p.startsIdr) :=
  (piece_idr _ p).trans (congrArg (· || p.startsIdr) ((a.stamp arrival).miss_idr g))

def step (x : Assembly × Nat) (p : Sent) : Assembly × Nat :=
  match p.fate with
  | none => (x.1, x.2 + 1)
  | some r => (x.1.take x.2 r.arrival p.piece, 0)

def feed (x : Assembly × Nat) (ps : List Sent) : Assembly × Nat := ps.foldl step x

theorem step_none {p : Sent} (h : p.fate = none) (a : Assembly) (g : Nat) :
    step (a, g) p = (a, g + 1) := by
  rw [step, h]

theorem step_some {p : Sent} {r : Received} (h : p.fate = some r) (a : Assembly) (g : Nat) :
    step (a, g) p = (a.take g r.arrival p.piece, 0) := by
  rw [step, h]

theorem feed_cons (x : Assembly × Nat) (p : Sent) (ps : List Sent) :
    feed x (p :: ps) = feed (step x p) ps := rfl

theorem feed_append (x : Assembly × Nat) (ps qs : List Sent) :
    feed x (ps ++ qs) = feed (feed x ps) qs := List.foldl_append

theorem feed_lost (ps : List Sent) (a : Assembly) (g : Nat) :
    (feed (a, g) ps).1.lost + (feed (a, g) ps).2 = a.lost + g + ps.countP Sent.lost := by
  induction ps generalizing a g with
  | nil => rfl
  | cons p ps ih =>
    rw [feed_cons, List.countP_cons]
    cases hp : p.fate with
    | none =>
      rw [step_none hp, ih]
      simp only [Sent.lost, hp, Option.isNone_none, ↓reduceIte]
      omega
    | some r =>
      have h := a.take_counts g r.arrival p.piece
      simp only [counts, Prod.mk.injEq] at h
      rw [step_some hp, ih, h.2.1]
      simp [Sent.lost, hp]

theorem feed_packets (ps : List Sent) (a : Assembly) (g : Nat) :
    (feed (a, g) ps).1.packets = a.packets + (ps.filterMap Sent.fate).length := by
  induction ps generalizing a g with
  | nil => rfl
  | cons p ps ih =>
    rw [feed_cons]
    cases hp : p.fate with
    | none => rw [step_none hp, ih, List.filterMap_cons_none hp]
    | some r =>
      have h := a.take_counts g r.arrival p.piece
      simp only [counts, Prod.mk.injEq] at h
      rw [step_some hp, ih, h.1, List.filterMap_cons_some hp, List.length_cons]
      omega

theorem feed_lastArrival (ps : List Sent) (a : Assembly) (g : Nat) :
    (feed (a, g) ps).1.lastArrival =
      ((ps.filterMap Sent.fate).getLast?.map Received.arrival).getD a.lastArrival := by
  induction ps generalizing a g with
  | nil => rfl
  | cons p ps ih =>
    rw [feed_cons]
    cases hp : p.fate with
    | none => rw [step_none hp, ih, List.filterMap_cons_none hp]
    | some r =>
      have h := a.take_counts g r.arrival p.piece
      simp only [counts, Prod.mk.injEq] at h
      rw [step_some hp, ih, h.2.2.2, List.filterMap_cons_some hp, List.getLast?_cons]
      cases (ps.filterMap Sent.fate).getLast? <;> rfl

theorem feed_firstArrival (ps : List Sent) (a : Assembly) (g : Nat) :
    (feed (a, g) ps).1.firstArrival =
      if a.packets = 0 then
        ((ps.filterMap Sent.fate).head?.map Received.arrival).getD a.firstArrival
      else a.firstArrival := by
  induction ps generalizing a g with
  | nil => simp [feed]
  | cons p ps ih =>
    rw [feed_cons]
    cases hp : p.fate with
    | none => rw [step_none hp, ih, List.filterMap_cons_none hp]
    | some r =>
      have h := a.take_counts g r.arrival p.piece
      simp only [counts, Prod.mk.injEq] at h
      rw [step_some hp, ih, h.1, h.2.2.1, List.filterMap_cons_some hp]
      simp

theorem feed_idr (ps : List Sent) (a : Assembly) (g : Nat) :
    (feed (a, g) ps).1.idr = (a.idr || ps.any fun p => !p.lost && p.piece.startsIdr) := by
  induction ps generalizing a g with
  | nil => simp [feed]
  | cons p ps ih =>
    rw [feed_cons, List.any_cons]
    cases hp : p.fate with
    | none => simp [step_none hp, ih, Sent.lost, hp]
    | some r => simp [step_some hp, ih, take_idr, Sent.lost, hp, Bool.or_assoc]

/-! ## Units received in part

A unit that was received in part is counted once: when the gap closes its open
prefix, or at its first orphan.  `partials` also counts the unit that is open,
which is why it can only grow over a unit, and `spent` says that the next
orphan belongs to a unit already counted. -/

def partials (a : Assembly) : Nat := a.lostFrag + a.fu.isSome.toNat

def spent (a : Assembly) : Bool := a.orphan || a.fu.isSome

theorem closeFu_bytes (a : Assembly) : a.closeFu.bytes = a.whole := by
  cases hfu : a.fu with
  | none => rw [closeFu_none hfu, bytes, hfu]; exact List.append_nil _
  | some o => rw [closeFu_some hfu]; exact List.append_nil _

theorem closeFu_lostFrag (a : Assembly) : a.closeFu.lostFrag = a.partials := by
  cases hfu : a.fu with
  | none => rw [closeFu_none hfu, partials, hfu]; rfl
  | some o => rw [closeFu_some hfu, partials, hfu]; rfl

/-- What holds between two packets: a gap is pending wherever the open unit has
lost a packet already, and an orphan run has been counted. -/
structure Counted (x : Assembly × Nat) : Prop where
  gap : x.1.fu.isSome = true → 0 < x.2
  spent : x.1.spent = true → 0 < x.1.partials

theorem counted_empty : Counted ({}, 0) where
  gap h := by cases h
  spent h := by cases h

/-- The gap before a packet, once counted, has closed what was open. -/
structure Missed (a b : Assembly) : Prop where
  whole : b.whole = a.whole
  fu : b.fu = none
  orphan : b.orphan = a.spent
  partials : b.partials = a.partials

theorem missed {a : Assembly} {g : Nat} (h : a.fu.isSome = true → 0 < g) (arrival : Int) :
    Missed a (a.arrive g arrival) := by
  rw [arrive]
  cases hfu : a.fu with
  | none =>
    have hs : (a.stamp arrival).fu = none := hfu
    rw [miss_none hs]
    exact ⟨rfl, hfu, by simp [spent, hfu, stamp], rfl⟩
  | some o =>
    have hs : (a.stamp arrival).fu = some o := hfu
    have hg : g ≠ 0 := Nat.ne_of_gt (h (by rw [hfu]; rfl))
    rw [miss_some hs hg]
    exact ⟨rfl, rfl, by simp [spent, hfu], by simp [Assembly.partials, hfu, stamp]⟩

/-! ## FU-A runs -/

/-- The continuations of a unit that can no longer be completed. -/
structure Skipped (a : Assembly) (ps : List Sent) (r : Assembly × Nat) : Prop where
  whole : r.1.whole = a.whole
  counted : Counted r
  le : a.partials ≤ r.1.partials
  bound : r.1.partials ≤ a.partials + if a.spent || ps.all Sent.lost then 0 else 1
  pos : ps.all Sent.lost = false → 0 < r.1.partials

theorem skipped_lost {a : Assembly} {g : Nat} (h : Counted (a, g)) {p : Sent} {ps : List Sent}
    (hp : p.fate = none) {r : Assembly × Nat}
    (hps : Counted (a, g + 1) → Skipped a ps r) : Skipped a (p :: ps) r := by
  have hr := hps ⟨fun _ => Nat.succ_pos g, h.spent⟩
  have hall : (p :: ps).all Sent.lost = ps.all Sent.lost := by simp [Sent.lost, hp]
  exact ⟨hr.whole, hr.counted, hr.le, hall ▸ hr.bound, hall ▸ hr.pos⟩

/-- A continuation without a start is counted unless the run it is in was. -/
theorem skipped_orphan {a : Assembly} {g : Nat} (h : Counted (a, g)) {p : Sent} {r : Received}
    (hp : p.fate = some r) {n : Nal} {last : Bool} {fragment : List UInt8}
    (hpiece : p.piece = .fuA n false last fragment) :
    Skipped a [p] (step (a, g) p) ∧ (step (a, g) p).1.spent = !last := by
  have hm := missed h.gap r.arrival
  have hstep : step (a, g) p =
      ({ a.arrive g r.arrival with
        orphan := !last
        lostFrag := if (a.arrive g r.arrival).orphan then (a.arrive g r.arrival).lostFrag
          else (a.arrive g r.arrival).lostFrag + 1 }, 0) := by
    rw [step_some hp, hpiece, take, piece, if_neg Bool.false_ne_true, continueFu_none hm.fu]
  have hspent := h.spent
  have hpartials : (step (a, g) p).1.partials = a.partials + if a.spent then 0 else 1 := by
    have hb := hm.partials
    rw [hstep]
    simp only [partials, hm.fu, hm.orphan, Option.isSome_none, Bool.toNat_false] at hb ⊢
    split <;> omega
  have hpos : 0 < (step (a, g) p).1.partials := by
    rw [hpartials]
    split
    · next hs => exact hspent hs
    · omega
  have hnone : (step (a, g) p).1.fu = none := by rw [hstep]; exact hm.fu
  refine ⟨⟨by rw [hstep]; exact hm.whole, ⟨fun ho => ?_, fun _ => hpos⟩, ?_, ?_, fun _ => hpos⟩, ?_⟩
  · rw [hnone] at ho
    cases ho
  · omega
  · rw [hpartials]
    simp [Sent.lost, hp]
  · rw [spent, hnone, hstep]
    simp

theorem skipped_trans {a b : Assembly} {g : Nat} {p : Sent} {ps : List Sent} {r : Assembly × Nat}
    (h : Skipped a [p] (b, g)) (hb : b.spent = true) (hr : Skipped b ps r) :
    Skipped a (p :: ps) r where
  whole := hr.whole.trans h.whole
  counted := hr.counted
  le := Nat.le_trans h.le hr.le
  bound := by
    have hle : r.1.partials ≤ b.partials := by simpa [hb] using hr.bound
    refine Nat.le_trans hle (Nat.le_trans h.bound ?_)
    cases hp : p.lost with
    | false => simp [hp]
    | true => simp [hp]
  pos := fun _ => Nat.lt_of_lt_of_le (h.counted.spent hb) hr.le

theorem feed_skipped {n : Nal} {last : List UInt8} (middle : List (List UInt8)) {ps : List Sent}
    (hps : ps.map Sent.piece =
      middle.map (.fuA n false false) ++ [.fuA n false true last])
    {a : Assembly} {g : Nat} (h : Counted (a, g)) : Skipped a ps (feed (a, g) ps) := by
  induction middle generalizing ps a g with
  | nil =>
    obtain ⟨p, rfl, hpiece⟩ : ∃ p, ps = [p] ∧ p.piece = .fuA n false true last := by
      simpa using hps
    cases hp : p.fate with
    | none =>
      rw [feed_cons, step_none hp]
      refine skipped_lost h hp fun hc => ⟨rfl, hc, Nat.le_refl _, by simp [feed], by simp⟩
    | some r => exact (skipped_orphan h hp hpiece).1
  | cons x middle ih =>
    obtain ⟨p, ps, rfl, hpiece, hrest⟩ : ∃ p qs, ps = p :: qs ∧ p.piece = .fuA n false false x ∧
        qs.map Sent.piece = middle.map (.fuA n false false) ++ [.fuA n false true last] := by
      simpa [List.map_eq_cons_iff] using hps
    rw [feed_cons]
    cases hp : p.fate with
    | none =>
      rw [step_none hp]
      exact skipped_lost h hp fun hc => ih hrest hc
    | some r =>
      obtain ⟨hskip, hspent⟩ := skipped_orphan h hp hpiece
      rw [step_some hp] at hskip hspent ⊢
      exact skipped_trans hskip hspent (ih hrest hskip.counted)

/-- The next fragment of a unit that is open with nothing missing. -/
theorem step_open {a : Assembly} {o : List UInt8} (ho : a.fu = some o) {p : Sent} {r : Received}
    (hp : p.fate = some r) {n : Nal} {last : Bool} {fragment : List UInt8}
    (hpiece : p.piece = .fuA n false last fragment) :
    ∃ b, step (a, 0) p = (b, 0) ∧ b.orphan = a.orphan ∧ b.lostFrag = a.lostFrag ∧
      b.whole = (if last then a.whole ++ (o ++ fragment) else a.whole) ∧
      b.fu = if last then none else some (o ++ fragment) := by
  have hfu : (a.arrive 0 r.arrival).fu = some o := by
    rw [arrive, miss_zero]
    exact ho
  rw [step_some hp, hpiece, take, piece, if_neg Bool.false_ne_true, continueFu_some hfu]
  refine ⟨_, rfl, ?_⟩
  rw [arrive, miss_zero]
  cases last with
  | false => exact ⟨rfl, rfl, rfl, rfl⟩
  | true => exact ⟨rfl, rfl, rfl, rfl⟩

theorem feed_open_whole {n : Nal} {last : List UInt8} (middle : List (List UInt8))
    {ps : List Sent}
    (hps : ps.map Sent.piece = middle.map (.fuA n false false) ++ [.fuA n false true last])
    (hall : ∀ p ∈ ps, p.fate ≠ none) {a : Assembly} {o : List UInt8} (ho : a.fu = some o) :
    ∃ b, feed (a, 0) ps = (b, 0) ∧ b.whole = a.whole ++ (o ++ middle.flatten ++ last) ∧
      b.fu = none ∧ b.orphan = a.orphan ∧ b.lostFrag = a.lostFrag := by
  induction middle generalizing ps a o with
  | nil =>
    obtain ⟨p, rfl, hpiece⟩ : ∃ p, ps = [p] ∧ p.piece = .fuA n false true last := by
      simpa using hps
    obtain ⟨r, hp⟩ := Option.ne_none_iff_exists'.mp (hall p List.mem_cons_self)
    obtain ⟨b, hb, horphan, hfrag, hwhole, hfu⟩ := step_open ho hp hpiece
    refine ⟨b, hb, ?_, hfu, horphan, hfrag⟩
    rw [hwhole, List.flatten_nil, List.append_nil]
    rfl
  | cons x middle ih =>
    obtain ⟨p, ps, rfl, hpiece, hrest⟩ : ∃ p qs, ps = p :: qs ∧ p.piece = .fuA n false false x ∧
        qs.map Sent.piece = middle.map (.fuA n false false) ++ [.fuA n false true last] := by
      simpa [List.map_eq_cons_iff] using hps
    obtain ⟨r, hp⟩ := Option.ne_none_iff_exists'.mp (hall p List.mem_cons_self)
    obtain ⟨b, hb, horphan, hfrag, hwhole, hfu⟩ := step_open ho hp hpiece
    obtain ⟨c, hc, hwhole', hfu', horphan', hfrag'⟩ :=
      ih hrest (fun q hq => hall q (List.mem_cons_of_mem p hq)) hfu
    refine ⟨c, by rw [feed_cons, hb, hc], ?_, hfu', horphan'.trans horphan, hfrag'.trans hfrag⟩
    rw [hwhole', hwhole, List.flatten_cons]
    simp

theorem partials_open {a : Assembly} {o : List UInt8} (ho : a.fu = some o) :
    a.partials = a.lostFrag + 1 := by
  rw [partials, ho]
  rfl

/-- The first lost fragment of an open unit. -/
theorem counted_open {a : Assembly} {o : List UInt8} (ho : a.fu = some o) : Counted (a, 1) := by
  refine ⟨fun _ => Nat.one_pos, fun _ => ?_⟩
  rw [partials_open ho]
  exact Nat.succ_pos _

theorem feed_open_broken {n : Nal} {last : List UInt8} (middle : List (List UInt8))
    {ps : List Sent}
    (hps : ps.map Sent.piece = middle.map (.fuA n false false) ++ [.fuA n false true last])
    (hlost : ∃ p ∈ ps, p.fate = none) {a : Assembly} {o : List UInt8} (ho : a.fu = some o) :
    (feed (a, 0) ps).1.whole = a.whole ∧ Counted (feed (a, 0) ps) ∧
      (feed (a, 0) ps).1.partials = a.lostFrag + 1 := by
  induction middle generalizing ps a o with
  | nil =>
    obtain ⟨p, rfl, hpiece⟩ : ∃ p, ps = [p] ∧ p.piece = .fuA n false true last := by
      simpa using hps
    have hp : p.fate = none := by simpa using hlost
    rw [feed_cons, step_none hp]
    exact ⟨rfl, counted_open ho, partials_open ho⟩
  | cons x middle ih =>
    obtain ⟨p, ps, rfl, hpiece, hrest⟩ : ∃ p qs, ps = p :: qs ∧ p.piece = .fuA n false false x ∧
        qs.map Sent.piece = middle.map (.fuA n false false) ++ [.fuA n false true last] := by
      simpa [List.map_eq_cons_iff] using hps
    rw [feed_cons]
    cases hp : p.fate with
    | none =>
      rw [step_none hp]
      have hskip := feed_skipped middle hrest (counted_open ho)
      have hspent : a.spent = true := by simp [spent, ho]
      have hbound := hskip.bound
      rw [hspent, Bool.true_or, if_pos rfl, partials_open ho] at hbound
      exact ⟨hskip.whole, hskip.counted, Nat.le_antisymm hbound (partials_open ho ▸ hskip.le)⟩
    | some r =>
      obtain ⟨b, hb, -, hfrag, hwhole, hfu⟩ := step_open ho hp hpiece
      have hrec : ∃ q ∈ ps, q.fate = none := by simpa [hp] using hlost
      obtain ⟨hwhole', hcounted, hpartials⟩ := ih hrest hrec hfu
      rw [hb]
      exact ⟨hwhole'.trans hwhole, hcounted, hpartials.trans (congrArg (· + 1) hfrag)⟩

/-! ## Units -/

structure Added (u : SentUnit) (a : Assembly) (r : Assembly × Nat) : Prop where
  whole : r.1.whole = a.whole ++ if u.whole then annexB u.packing.nals else []
  counted : Counted r
  le : a.partials ≤ r.1.partials
  bound : r.1.partials ≤ a.partials + if u.broken then 1 else 0
  pos : u.broken = true → 0 < r.1.partials

/-- A unit in one packet is received whole or not at all. -/
theorem added_one {u : SentUnit} {p : Sent} (hu : u.packets = [p])
    (hone : ∀ b : Assembly, b.fu = none → (b.piece p.piece).whole =
      b.whole ++ annexB u.packing.nals ∧ (b.piece p.piece).fu = none ∧
      (b.piece p.piece).orphan = false ∧ (b.piece p.piece).lostFrag = b.lostFrag)
    {a : Assembly} {g : Nat} (h : Counted (a, g)) : Added u a (feed (a, g) u.packets) := by
  have hbroken : u.broken = false := by
    rw [SentUnit.broken, hu]
    simp
  have hwhole : u.whole = !p.lost := by simp [SentUnit.whole, hu]
  rw [hu, feed_cons]
  cases hp : p.fate with
  | none =>
    rw [step_none hp]
    refine ⟨?_, ⟨fun _ => Nat.succ_pos g, h.spent⟩, Nat.le_refl _, Nat.le_add_right _ _, ?_⟩
    · simp [hwhole, Sent.lost, hp, feed]
    · simp [hbroken]
  | some r =>
    have hm := missed h.gap r.arrival
    obtain ⟨hw, hfu, horphan, hfrag⟩ := hone _ hm.fu
    rw [hm.whole] at hw
    have hpartials := hm.partials
    rw [partials, hm.fu, ← hfrag] at hpartials
    rw [step_some hp]
    show Added u a ((a.arrive g r.arrival).piece p.piece, 0)
    generalize (a.arrive g r.arrival).piece p.piece = c at hw hfu horphan hpartials ⊢
    have hc : c.partials = a.partials := by rw [← hpartials, partials, hfu]
    have hspent : c.spent = false := by rw [spent, hfu, horphan]; rfl
    refine ⟨?_, ⟨fun ho => ?_, fun hs => ?_⟩, Nat.le_of_eq hc.symm, ?_, ?_⟩
    · simpa [hwhole, Sent.lost, hp] using hw
    · rw [hfu] at ho
      cases ho
    · rw [hspent] at hs
      cases hs
    · exact Nat.le_trans (Nat.le_of_eq hc) (Nat.le_add_right _ _)
    · simp [hbroken]

theorem any_received (ps : List Sent) : (ps.any fun p => !p.lost) = !ps.all Sent.lost :=
  List.not_all_eq_any_not.symm

theorem any_lost (ps : List Sent) : ps.any Sent.lost = !ps.all fun p => !p.lost := by
  rw [List.not_all_eq_any_not]
  simp

/-- The start of a unit opens it, whatever was open before. -/
theorem step_start {a : Assembly} {g : Nat} (h : Counted (a, g)) {p : Sent} {r : Received}
    (hp : p.fate = some r) {n : Nal} {fragment : List UInt8}
    (hpiece : p.piece = .fuA n true false fragment) :
    ∃ b, step (a, g) p = (b, 0) ∧ b.whole = a.whole ∧
      b.fu = some (startCode ++ [n.hdr] ++ fragment) ∧ b.orphan = false ∧
      b.lostFrag = a.partials := by
  have hm := missed h.gap r.arrival
  have hpartials := hm.partials
  rw [partials, hm.fu] at hpartials
  have hstart : ((a.arrive g r.arrival).startFu n).fu = some (startCode ++ [n.hdr]) := rfl
  rw [step_some hp, hpiece, take, piece, if_pos rfl, continueFu_some hstart,
    if_neg Bool.false_ne_true]
  refine ⟨_, rfl, ?_⟩
  rw [startFu, closeFu_none hm.fu]
  exact ⟨hm.whole, rfl, rfl, hpartials⟩

theorem added_fuA {u : SentUnit} {f : Fragmented} (hu : u.packing = .fuA f) {a : Assembly} {g : Nat}
    (h : Counted (a, g)) : Added u a (feed (a, g) u.packets) := by
  have hcut := u.cut
  rw [hu, Packing.pieces] at hcut
  obtain ⟨p, ps, hps, hpiece, hrest⟩ := List.map_eq_cons_iff.mp hcut
  have hwhole : u.whole = (!p.lost && ps.all fun q => !q.lost) := by
    rw [SentUnit.whole, hps, List.all_cons]
  rw [hps, feed_cons]
  cases hp : p.fate with
  | none =>
    have hlost : p.lost = true := Sent.lost_none hp
    have hbroken : u.broken = !(p :: ps).all Sent.lost := by
      rw [SentUnit.broken, hps, any_received, List.any_cons, hlost, Bool.true_or, Bool.and_true]
    rw [step_none hp]
    have hskip := skipped_lost h hp (feed_skipped f.middle hrest)
    refine ⟨?_, hskip.counted, hskip.le, ?_, fun hb => hskip.pos ?_⟩
    · simp [hskip.whole, hwhole, hlost]
    · refine Nat.le_trans hskip.bound (Nat.add_le_add_left ?_ _)
      rw [hbroken]
      cases a.spent <;> cases (p :: ps).all Sent.lost <;> decide
    · rw [hbroken] at hb
      exact Bool.not_eq_true' _ ▸ hb
  | some r =>
    have hlost : p.lost = false := Sent.lost_some hp
    have hbroken : u.broken = !ps.all fun q => !q.lost := by
      rw [SentUnit.broken, hps, List.any_cons, hlost, any_lost, List.all_cons, hlost]
      rfl
    obtain ⟨b, hb, hbw, hbfu, hbo, hbf⟩ := step_start h hp hpiece
    rw [hb]
    cases hall : ps.all fun q => !q.lost with
    | true =>
      have hrec : ∀ q ∈ ps, q.fate ≠ none := by
        intro q hq
        have hq' := List.all_eq_true.mp hall q hq
        exact Option.isSome_iff_ne_none.mp (by simpa [Sent.lost] using hq')
      obtain ⟨c, hc, hcw, hcfu, hco, hcf⟩ := feed_open_whole f.middle hrest hrec hbfu
      have hpartials : c.partials = a.partials := by
        rw [partials, hcfu, hcf, hbf]
        rfl
      rw [hc]
      refine ⟨?_, ⟨fun ho => ?_, fun hs => ?_⟩, Nat.le_of_eq hpartials.symm, ?_, ?_⟩
      · rw [hcw, hbw, hwhole, hlost, hall, hu]
        simp [Packing.nals, annexB, Nal.annexB, Nal.bytes, ← f.whole]
      · rw [hcfu] at ho
        cases ho
      · rw [spent, hcfu, hco, hbo] at hs
        cases hs
      · exact Nat.le_trans (Nat.le_of_eq hpartials) (Nat.le_add_right _ _)
      · simp [hbroken, hall]
    | false =>
      have hrec : ∃ q ∈ ps, q.fate = none := by
        obtain ⟨q, hq, hq'⟩ := List.all_eq_false.mp hall
        exact ⟨q, hq, by simpa [Sent.lost] using hq'⟩
      obtain ⟨hw, hcounted, hpartials⟩ := feed_open_broken f.middle hrest hrec hbfu
      rw [hbf] at hpartials
      refine ⟨?_, hcounted, by omega, ?_, fun _ => by omega⟩
      · rw [hw, hbw, hwhole, hall]
        simp
      · rw [hbroken, hall, hpartials]
        exact Nat.le_refl _

theorem nals_whole (ns : List Nal) {a : Assembly} (h : a.fu = none) :
    (ns.foldl nal a).whole = a.whole ++ annexB ns ∧ (ns.foldl nal a).fu = none ∧
      (ns.foldl nal a).orphan = a.orphan ∧ (ns.foldl nal a).lostFrag = a.lostFrag := by
  induction ns generalizing a with
  | nil => exact ⟨(List.append_nil _).symm, h, rfl, rfl⟩
  | cons n ns ih =>
    have hnal : a.nal n = { a with whole := a.whole ++ n.annexB, idr := a.idr || n.isIdr } := by
      rw [nal, append_none h]
    have hfu : (a.nal n).fu = none := by rw [hnal]; exact h
    obtain ⟨hw, hf, ho, hl⟩ := ih hfu
    rw [hnal] at hw ho hl
    refine ⟨?_, hf, ?_, ?_⟩
    · rw [List.foldl_cons, hnal, hw, annexB_cons, List.append_assoc]
    · rw [List.foldl_cons, hnal, ho]
    · rw [List.foldl_cons, hnal, hl]

theorem added (u : SentUnit) {a : Assembly} {g : Nat} (h : Counted (a, g)) :
    Added u a (feed (a, g) u.packets) := by
  have hcut := u.cut
  cases hk : u.packing with
  | single n =>
    rw [hk] at hcut
    obtain ⟨p, hu, hpiece⟩ : ∃ p, u.packets = [p] ∧ p.piece = .single n := by
      simpa [Packing.pieces] using hcut
    refine added_one hu (fun b hb => ?_) h
    rw [hpiece, hk]
    obtain ⟨hw, hf, -, hl⟩ := nals_whole [n] hb
    exact ⟨hw, hf, rfl, hl⟩
  | stapA g' =>
    rw [hk] at hcut
    obtain ⟨p, hu, hpiece⟩ : ∃ p, u.packets = [p] ∧ p.piece = .stapA g' := by
      simpa [Packing.pieces] using hcut
    refine added_one hu (fun b hb => ?_) h
    rw [hpiece, hk]
    exact nals_whole g'.nals (a := { b with orphan := false }) hb
  | fuA f => exact added_fuA hk h

theorem feed_units (us : List SentUnit) {a : Assembly} {g : Nat} (h : Counted (a, g)) :
    let r := feed (a, g) (us.flatMap SentUnit.packets)
    r.1.whole = a.whole ++ annexB ((us.filter SentUnit.whole).flatMap fun u => u.packing.nals) ∧
      Counted r ∧ a.partials ≤ r.1.partials ∧
      r.1.partials ≤ a.partials + us.countP SentUnit.broken ∧
      ((∃ u ∈ us, u.broken = true) → 0 < r.1.partials) := by
  induction us generalizing a g with
  | nil => exact ⟨(List.append_nil _).symm, h, Nat.le_refl _, Nat.le_refl _, by simp⟩
  | cons u us ih =>
    have hu := added u h
    rw [List.flatMap_cons, feed_append]
    generalize feed (a, g) u.packets = x at hu
    obtain ⟨b, k⟩ := x
    obtain ⟨hw, hc, hle, hbound, hpos⟩ := ih hu.counted
    refine ⟨?_, hc, Nat.le_trans hu.le hle, ?_, ?_⟩
    · rw [hw, hu.whole, List.filter_cons]
      cases u.whole with
      | false => simp
      | true => simp [annexB_append]
    · rw [List.countP_cons]
      have hb : b.partials ≤ a.partials + if u.broken then 1 else 0 := hu.bound
      omega
    · rintro ⟨v, hv, hb⟩
      rcases List.mem_cons.mp hv with rfl | hv
      · exact Nat.lt_of_lt_of_le (hu.pos hb) hle
      · exact hpos ⟨v, hv, hb⟩

end Assembly

end P5G
