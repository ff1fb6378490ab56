import P5G.Rtp.Exact
import P5G.Rtp.Gathered

/-!
# Groups of one access unit

A group whose packets are those of one access unit, in the order of sending,
is what `Assembly.feed` makes of the access unit with some of its packets
lost.  Which packets the network has lost is a matter of the group, so the
access unit is taken with fates of its own.
-/

namespace P5G

namespace Sent

def key (p : Sent) : Piece × RtpHeader := (p.piece, p.header)

def receivedAt (p : Sent) (t : Int) : Sent where
  piece := p.piece
  header := p.header
  fate := some ⟨t, []⟩
  carries := p.carries
  behind r hr q hq := by
    obtain rfl : ⟨t, []⟩ = r := Option.some.inj hr
    cases hq

def unreceived (p : Sent) : Sent where
  piece := p.piece
  header := p.header
  fate := none
  carries := p.carries
  behind r hr := by cases hr

end Sent

/-- The entries of the received packets, where `g` packets are missing before them. -/
def replay : Nat → List Sent → List Entry
  | _, [] => []
  | g, p :: ps =>
    match p.fate with
    | none => replay (g + 1) ps
    | some r => ⟨p.header, r.arrival, g⟩ :: replay 0 ps

def trailing : Nat → List Sent → Nat
  | g, [] => g
  | g, p :: ps => if p.lost then trailing (g + 1) ps else trailing 0 ps

theorem replay_none {p : Sent} (h : p.fate = none) (g : Nat) (ps : List Sent) :
    replay g (p :: ps) = replay (g + 1) ps := by
  rw [replay, h]

theorem replay_some {p : Sent} {r : Received} (h : p.fate = some r) (g : Nat) (ps : List Sent) :
    replay g (p :: ps) = ⟨p.header, r.arrival, g⟩ :: replay 0 ps := by
  rw [replay, h]

theorem trailing_none {p : Sent} (h : p.fate = none) (g : Nat) (ps : List Sent) :
    trailing g (p :: ps) = trailing (g + 1) ps := if_pos (Sent.lost_none h)

theorem trailing_some {p : Sent} {r : Received} (h : p.fate = some r) (g : Nat) (ps : List Sent) :
    trailing g (p :: ps) = trailing 0 ps := if_neg (by simp [Sent.lost_some h])

theorem replay_append (ps qs : List Sent) (g : Nat) :
    replay g (ps ++ qs) = replay g ps ++ replay (trailing g ps) qs := by
  induction ps generalizing g with
  | nil => rfl
  | cons p ps ih =>
    rw [List.cons_append]
    cases hp : p.fate with
    | none => rw [replay_none hp, replay_none hp, trailing_none hp, ih]
    | some r => rw [replay_some hp, replay_some hp, trailing_some hp, ih, List.cons_append]

theorem trailing_append (ps qs : List Sent) (g : Nat) :
    trailing g (ps ++ qs) = trailing (trailing g ps) qs := by
  induction ps generalizing g with
  | nil => rfl
  | cons p ps ih =>
    rw [List.cons_append]
    cases hp : p.fate with
    | none => rw [trailing_none hp, trailing_none hp, ih]
    | some r => rw [trailing_some hp, trailing_some hp, ih]

theorem replay_lost {ps : List Sent} (h : ∀ p ∈ ps, p.fate = none) (g : Nat) :
    replay g ps = [] ∧ trailing g ps = g + ps.length := by
  induction ps generalizing g with
  | nil => exact ⟨rfl, rfl⟩
  | cons p ps ih =>
    have hp := h p List.mem_cons_self
    obtain ⟨hr, ht⟩ := ih (fun q hq => h q (List.mem_cons_of_mem p hq)) (g + 1)
    rw [replay_none hp, trailing_none hp, hr, ht, List.length_cons]
    exact ⟨rfl, by omega⟩

theorem replay_ne_nil {ps : List Sent} (h : ∃ p ∈ ps, p.lost = false) (g : Nat) :
    replay g ps ≠ [] := by
  induction ps generalizing g with
  | nil => simp at h
  | cons p ps ih =>
    cases hp : p.fate with
    | none =>
      rw [replay_none hp]
      exact ih (by simpa [Sent.lost, hp] using h) _
    | some r =>
      rw [replay_some hp]
      exact List.cons_ne_nil _ _

/-- The first gap is the only thing that depends on what was before. -/
theorem alike_replay (ps : List Sent) (g k : Nat) : Alike (replay g ps) (replay k ps) := by
  induction ps generalizing g k with
  | nil => exact trivial
  | cons p ps ih =>
    cases hp : p.fate with
    | none =>
      rw [replay_none hp, replay_none hp]
      exact ih (g + 1) (k + 1)
    | some r =>
      rw [replay_some hp, replay_some hp]
      exact ⟨rfl, rfl⟩

namespace Assembly

theorem enter_sent (a : Assembly) (p : Sent) (g : Nat) (arrival : Int) :
    a.enter ⟨p.header, arrival, g⟩ = a.take g arrival p.piece := by
  rw [enter, Entry.content, p.carries, Piece.ofBytes_payload, payload_content]
  rfl

theorem feed_replay (ps : List Sent) (a : Assembly) (g : Nat) :
    (feed (a, g) ps).1 = (replay g ps).foldl enter a := by
  induction ps generalizing a g with
  | nil => rfl
  | cons p ps ih =>
    rw [feed_cons]
    cases hp : p.fate with
    | none => rw [step_none hp, replay_none hp, ih]
    | some r => rw [step_some hp, replay_some hp, ih, List.foldl_cons, enter_sent]

end Assembly

theorem weight_replay (ps : List Sent) (g : Nat) :
    weight (replay g ps) ≤ (ps.map fun p => p.piece.size).sum := by
  induction ps generalizing g with
  | nil => exact Nat.le_refl _
  | cons p ps ih =>
    rw [List.map_cons, List.sum_cons]
    cases hp : p.fate with
    | none =>
      have h := ih (g + 1)
      rw [replay_none hp]
      omega
    | some r =>
      have h := ih 0
      have hsize : (Entry.content ⟨p.header, r.arrival, g⟩).size = p.piece.size := by
        rw [Entry.content, p.carries, Piece.ofBytes_payload, Piece.content_size]
      rw [replay_some hp, weight, List.map_cons, List.sum_cons, hsize]
      exact Nat.add_le_add_left h _

theorem Alike.weight {es fs : List Entry} (h : Alike es fs) : P5G.weight es = P5G.weight fs := by
  cases es with
  | nil =>
    cases fs with
    | nil => rfl
    | cons y fs => exact h.elim
  | cons x es =>
    cases fs with
    | nil => exact h.elim
    | cons y fs =>
      obtain ⟨hxy, rfl⟩ := h
      have hpacket : x.packet = y.packet := congrArg Prod.fst hxy
      have hcontent : x.content = y.content := by rw [Entry.content, Entry.content, hpacket]
      simp [P5G.weight, hcontent]

def SameUnit (u v : SentUnit) : Prop :=
  v.packing = u.packing ∧ v.packets.map Sent.key = u.packets.map Sent.key

/-- Packets with fates of their own fall into the same units. -/
theorem exists_units (us : List SentUnit) {ps : List Sent}
    (h : ps.map Sent.key = (us.flatMap SentUnit.packets).map Sent.key) :
    ∃ vs, vs.flatMap SentUnit.packets = ps ∧ List.Forall₂ SameUnit us vs := by
  induction us generalizing ps with
  | nil =>
    obtain rfl : ps = [] := by simpa using h
    exact ⟨[], rfl, .nil⟩
  | cons u us ih =>
    rw [List.flatMap_cons, List.map_append] at h
    obtain ⟨qs, rs, rfl, hq, hr⟩ := List.map_eq_append_iff.mp h
    obtain ⟨vs, hvs, hsame⟩ := ih hr
    have hcut : qs.map Sent.piece = u.packing.pieces := by
      rw [← u.cut]
      have hpieces := congrArg (List.map Prod.fst) hq
      rw [List.map_map, List.map_map] at hpieces
      exact hpieces
    refine ⟨⟨u.packing, qs, hcut⟩ :: vs, ?_, .cons ⟨rfl, hq⟩ hsame⟩
    rw [List.flatMap_cons, hvs]

theorem nals_of_same {us vs : List SentUnit} (h : List.Forall₂ SameUnit us vs) :
    (vs.flatMap fun v => v.packing.nals) = us.flatMap fun u => u.packing.nals := by
  induction h with
  | nil => rfl
  | cons huv _ ih => rw [List.flatMap_cons, List.flatMap_cons, ih, huv.1]

structure Recovered (us : List SentUnit) (a : Assembly) : Prop where
  whole : a.whole = annexB ((us.filter SentUnit.whole).flatMap fun u => u.packing.nals)
  partials_le : a.partials ≤ us.countP SentUnit.broken
  partials_pos : (∃ u ∈ us, u.broken = true) → 0 < a.partials
  idr : a.idr = (us.flatMap SentUnit.packets).any fun p => !p.lost && p.piece.startsIdr

theorem recovered {us : List SentUnit} {es : List Entry}
    (h : Alike es (replay 0 (us.flatMap SentUnit.packets))) : Recovered us (gather es) := by
  obtain ⟨n, hn⟩ := h.gather
  have hfeed : (Assembly.feed ({}, 0) (us.flatMap SentUnit.packets)).1 =
      gather (replay 0 (us.flatMap SentUnit.packets)) := Assembly.feed_replay _ _ _
  obtain ⟨hwhole, -, -, hle, hpos⟩ := Assembly.feed_units us Assembly.counted_empty
  have hidr := Assembly.feed_idr (us.flatMap SentUnit.packets) {} 0
  rw [hfeed] at hwhole hle hpos hidr
  rw [hn]
  exact {
    whole := hwhole
    partials_le := Nat.le_trans hle (Nat.le_of_eq (Nat.zero_add _))
    partials_pos := hpos
    idr := hidr.trans (Bool.false_or _) }

end P5G
