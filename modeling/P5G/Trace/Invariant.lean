import P5G.Trace.Core
import Mathlib.Data.List.Basic

/-!
# The ring invariant

`Moves` lists what one step can do, with its guard and its result written out,
so that every preservation proof is a case split over it.  `Inv` says that the
claimed but not yet written sequence numbers fit in one turn of the ring, that
each of them is either published or held by exactly one writer, and that what
was emitted is a prefix of what was accepted.
-/

namespace P5G
namespace SlotRing
namespace Core

variable {T Row : Type*} {cap : Capacity}

section Memory

variable (s : Core T Row)

@[simp] theorem setRow_slots (j : Nat) (r : Row) :
    (s.setRow j r).slots = Function.update s.slots j { s.slots j with row := r } := rfl

@[simp] theorem setRow_writers (j : Nat) (r : Row) : (s.setRow j r).writers = s.writers := rfl

@[simp] theorem setRow_accepted (j : Nat) (r : Row) :
    (s.setRow j r).accepted = s.accepted := rfl

@[simp] theorem setReady_writers (j : Nat) (b : Bool) : (s.setReady j b).writers = s.writers := rfl

@[simp] theorem setReady_emitted (j : Nat) (b : Bool) : (s.setReady j b).emitted = s.emitted := rfl

@[simp] theorem setReady_slots (j : Nat) (b : Bool) :
    (s.setReady j b).slots = Function.update s.slots j { s.slots j with ready := b } := rfl

theorem setRow_ready (j k : Nat) (r : Row) :
    (Function.update s.slots j { s.slots j with row := r } k).ready = (s.slots k).ready := by
  by_cases h : k = j
  · subst h; simp
  · simp [Function.update_of_ne h]

theorem setReady_row (j k : Nat) (b : Bool) :
    (Function.update s.slots j { s.slots j with ready := b } k).row = (s.slots k).row := by
  by_cases h : k = j
  · subst h; simp
  · simp [Function.update_of_ne h]

end Memory

variable {s s' : Core T Row}

/-! ## The invariant -/

/-- The sequence number a writer has claimed and not yet published, with its
row. -/
def held : WriterPc Row → Option (Nat × Row)
  | .copy r i => some (i, r)
  | .publish r i => some (i, r)
  | _ => none

/-- How far the pass has come: `written` rows are out, the slot under `format`
and `clear` is ready, and no pass looks past `claimed`. -/
def PassAt (cap : Capacity) (s : Core T Row) : DrainPc → Prop
  | .out => s.written = s.consumed
  | .loadConsumed => s.written = s.consumed
  | .loadClaimed m => s.written = m ∧ s.consumed = m
  | .test m e => s.written = m ∧ m ≤ e ∧ e ≤ s.claimed
  | .format m e => s.written = m ∧ m < e ∧ e ≤ s.claimed ∧ (s.slots (cap.index m)).ready = true
  | .clear m e => s.written = m ∧ m < e ∧ e ≤ s.claimed ∧ (s.slots (cap.index m)).ready = true
  | .store m e => s.written = m ∧ m ≤ e ∧ e ≤ s.claimed
  | .ended m e => s.written = m ∧ s.consumed = m ∧ m ≤ e ∧ e ≤ s.claimed

theorem PassAt.mono {d : DrainPc} (h : PassAt cap s d) (hw : s'.written = s.written)
    (hc : s'.consumed = s.consumed) (hle : s.claimed ≤ s'.claimed)
    (hr : ∀ j, (s.slots j).ready = true → (s'.slots j).ready = true) : PassAt cap s' d := by
  cases d <;> simp only [PassAt, hw, hc] at h ⊢
  case out | loadConsumed | loadClaimed => exact h
  case test | store | ended => omega
  case format | clear => exact ⟨h.1, h.2.1, by omega, hr _ h.2.2.2⟩

/-- Rows handed out: one more than `written` between formatting a row and
releasing its slot. -/
def formatted (s : Core T Row) : Nat :=
  match s.drain with
  | .clear _ _ => s.written + 1
  | _ => s.written

structure Inv (cap : Capacity) (s : Core T Row) : Prop where
  consumed_le : s.consumed ≤ s.written
  written_le : s.written ≤ s.claimed
  claimed_le : s.claimed ≤ s.consumed + cap.val
  accepted_length : s.accepted.length = s.claimed
  loaded : ∀ t r i, s.writers t = .loadConsumed r i → i ≤ s.claimed
  room : ∀ t r i, s.writers t = .cas r i →
    i ≤ s.claimed ∧ (i = s.claimed → i < s.consumed + cap.val)
  owns : ∀ t i r, held (s.writers t) = some (i, r) →
    s.written ≤ i ∧ i < s.claimed ∧ s.accepted[i]? = some (t, r) ∧
      (s.slots (cap.index i)).ready = false
  copied : ∀ t r i, s.writers t = .publish r i → (s.slots (cap.index i)).row = r
  ready_row : ∀ k, s.written ≤ k → k < s.claimed → (s.slots (cap.index k)).ready = true →
    ∃ t, s.accepted[k]? = some (t, (s.slots (cap.index k)).row)
  unready : ∀ k, s.written ≤ k → k < s.claimed → (s.slots (cap.index k)).ready = false →
    ∃ t r, held (s.writers t) = some (k, r)
  ready_live : ∀ j, (s.slots j).ready = true →
    ∃ k, s.written ≤ k ∧ k < s.claimed ∧ cap.index k = j
  pass : PassAt cap s s.drain
  emitted : s.emitted = (s.accepted.map Prod.snd).take (formatted s)

theorem inv_empty (memory : Nat → Row) : Inv cap (empty memory : Core T Row) := by
  refine ⟨Nat.le_refl 0, Nat.le_refl 0, Nat.zero_le _, rfl, ?_, ?_, ?_, ?_, ?_, ?_, ?_, rfl, rfl⟩
  · intro t r i h; cases h
  · intro t r i h; cases h
  · intro t i r h; cases h
  · intro t r i h; cases h
  · intro k _ hk; exact absurd hk (Nat.not_lt_zero k)
  · intro k _ hk; exact absurd hk (Nat.not_lt_zero k)
  · intro j h; cases h

namespace Inv

/-- The live sequence numbers are within one turn of the ring, so the slot
determines the number. -/
theorem index_inj (h : Inv cap s) {i j : Nat} (hi : s.written ≤ i) (hj : s.written ≤ j)
    (hi' : i < s.claimed) (hj' : j < s.claimed) (he : cap.index i = cap.index j) : i = j := by
  have hc := h.consumed_le
  have hr := h.claimed_le
  exact cap.index_inj (b := s.written) hi hj (by omega) (by omega) he

theorem formatted_le (h : Inv cap s) : formatted s ≤ s.claimed := by
  have hpass := h.pass
  have hw := h.written_le
  unfold formatted
  split
  · next m e hd =>
    rw [hd] at hpass
    have := hpass.1
    have := hpass.2.1
    have := hpass.2.2.1
    omega
  · exact hw

/-- A sequence number is held by one writer. -/
theorem held_unique (h : Inv cap s) {t u : T} {i : Nat} {r q : Row}
    (ht : held (s.writers t) = some (i, r)) (hu : held (s.writers u) = some (i, q)) : t = u := by
  have hat := (h.owns t i r ht).2.2.1
  have hau := (h.owns u i q hu).2.2.1
  rw [hat] at hau
  exact congrArg Prod.fst (Option.some.inj hau)

/-- The pass may move on without touching anything else. -/
theorem setDrain (h : Inv cap s) {d : DrainPc} (hpass : PassAt cap s d)
    (hform : formatted { s with drain := d } = formatted s) :
    Inv cap { s with drain := d } := by
  refine ⟨h.consumed_le, h.written_le, h.claimed_le, h.accepted_length, h.loaded, h.room, h.owns,
    h.copied, h.ready_row, h.unready, h.ready_live, ?_, ?_⟩
  · cases d <;> exact hpass
  · show s.emitted = _
    rw [hform]
    exact h.emitted

theorem format (h : Inv cap s) {m e : Nat} (hpc : s.drain = .format m e) :
    Inv cap { s with
      drain := .clear m e
      emitted := s.emitted ++ [(s.slots (cap.index m)).row] } := by
  have hpass := h.pass
  rw [hpc] at hpass
  obtain ⟨hm, hme, hec, hready⟩ := hpass
  obtain ⟨t, ht⟩ := h.ready_row m (by omega) (by omega) hready
  refine ⟨h.consumed_le, h.written_le, h.claimed_le, h.accepted_length, h.loaded, h.room, h.owns,
    h.copied, h.ready_row, h.unready, h.ready_live, ⟨hm, hme, hec, hready⟩, ?_⟩
  have hemit := h.emitted
  have hform : formatted s = m := by simp only [formatted, hpc, hm]
  rw [hform] at hemit
  show s.emitted ++ [(s.slots (cap.index m)).row] = (s.accepted.map Prod.snd).take (s.written + 1)
  rw [hm, List.take_add_one, hemit, List.getElem?_map, ht]
  rfl

theorem clear (h : Inv cap s) {m e : Nat} (hpc : s.drain = .clear m e) :
    Inv cap { s.setReady (cap.index m) false with
      drain := .test (m + 1) e
      written := s.written + 1 } := by
  have hpass := h.pass
  rw [hpc] at hpass
  obtain ⟨hm, hme, hec, hready⟩ := hpass
  have hcw := h.consumed_le
  have row (j : Nat) : ((s.setReady (cap.index m) false).slots j).row = (s.slots j).row :=
    setReady_row s _ _ false
  have ready {j : Nat} (hne : j ≠ cap.index m) :
      ((s.setReady (cap.index m) false).slots j).ready = (s.slots j).ready := by
    rw [setReady_slots, Function.update_of_ne hne]
  have readySelf : ((s.setReady (cap.index m) false).slots (cap.index m)).ready = false := by
    rw [setReady_slots, Function.update_self]
  have apart {k : Nat} (hk : s.written + 1 ≤ k) (hk' : k < s.claimed) :
      cap.index k ≠ cap.index m := by
    intro he
    have := h.index_inj (by omega) (by omega) hk' (by omega) he
    omega
  -- a writer cannot hold the number being released: its slot is ready
  have heldApart {u : T} {k : Nat} {q : Row} (hu : held (s.writers u) = some (k, q)) :
      s.written + 1 ≤ k := by
    obtain ⟨hk, -, -, hk'⟩ := h.owns u k q hu
    rcases Nat.lt_or_ge s.written k with hlt | hge
    · exact hlt
    · have hkm : k = m := by omega
      rw [hkm, hready] at hk'
      cases hk'
  refine ⟨Nat.le_succ_of_le hcw, by show s.written + 1 ≤ s.claimed; omega, h.claimed_le,
    h.accepted_length, h.loaded, h.room, ?_, ?_, ?_, ?_, ?_,
    ⟨by show s.written + 1 = m + 1; omega, hme, hec⟩, ?_⟩
  · intro u k q hu
    obtain ⟨-, hk', hacc, hkr⟩ := h.owns u k q hu
    exact ⟨heldApart hu, hk', hacc, (ready (apart (heldApart hu) hk')).trans hkr⟩
  · intro u q k hu
    show ((s.setReady (cap.index m) false).slots (cap.index k)).row = q
    rw [row]
    exact h.copied u q k hu
  · intro k hk hk' hr
    change s.written + 1 ≤ k at hk
    change k < s.claimed at hk'
    show ∃ u, s.accepted[k]? = some (u, ((s.setReady (cap.index m) false).slots (cap.index k)).row)
    rw [row]
    exact h.ready_row k (by omega) hk' ((ready (apart hk hk')).symm.trans hr)
  · intro k hk hk' hr
    change s.written + 1 ≤ k at hk
    change k < s.claimed at hk'
    exact h.unready k (by omega) hk' ((ready (apart hk hk')).symm.trans hr)
  · intro j hr
    change ((s.setReady (cap.index m) false).slots j).ready = true at hr
    have hj : j ≠ cap.index m := by
      rintro rfl
      rw [readySelf] at hr
      cases hr
    rw [ready hj] at hr
    obtain ⟨k, hk, hk', hkj⟩ := h.ready_live j hr
    have hkm : k ≠ m := by
      rintro rfl
      exact hj hkj.symm
    exact ⟨k, by show s.written + 1 ≤ k; omega, hk', hkj⟩
  · have hemit := h.emitted
    have hform : formatted s = s.written + 1 := by simp only [formatted, hpc]
    rw [hform] at hemit
    exact hemit

theorem store (h : Inv cap s) {m e : Nat} (hpc : s.drain = .store m e) :
    Inv cap { s with drain := .ended m e, consumed := m } := by
  have hpass := h.pass
  rw [hpc] at hpass
  obtain ⟨hm, hme, hec⟩ := hpass
  have hcw := h.consumed_le
  have hcl := h.claimed_le
  refine ⟨by show m ≤ s.written; omega, h.written_le, by show s.claimed ≤ m + cap.val; omega,
    h.accepted_length, h.loaded, ?_, h.owns, h.copied, h.ready_row, h.unready, h.ready_live,
    ⟨hm, rfl, hme, hec⟩, ?_⟩
  · intro t r i ht
    obtain ⟨h1, h2⟩ := h.room t r i ht
    refine ⟨h1, fun hi => ?_⟩
    have := h2 hi
    show i < m + cap.val
    omega
  · have hemit := h.emitted
    have hform : formatted s = s.written := by simp only [formatted, hpc]
    rw [hform] at hemit
    exact hemit

end Inv

variable [DecidableEq T]

@[simp] theorem setWriter_writers (s : Core T Row) (t : T) (pc : WriterPc Row) :
    (s.setWriter t pc).writers = Function.update s.writers t pc := rfl

@[simp] theorem setWriter_accepted (s : Core T Row) (t : T) (pc : WriterPc Row) :
    (s.setWriter t pc).accepted = s.accepted := rfl

/-! ## What one step can do -/

inductive Moves (cap : Capacity) (s : Core T Row) : Core T Row → Prop
  | enter (t : T) (r : Row) (h : s.writers t = .out) :
      Moves cap s (s.setWriter t (.loadClaimed r))
  | loadClaimed (t : T) (r : Row) (h : s.writers t = .loadClaimed r) :
      Moves cap s (s.setWriter t (.loadConsumed r s.claimed))
  | full (t : T) (r : Row) (i : Nat) (h : s.writers t = .loadConsumed r i)
      (hfull : cap.val ≤ wrapSub i s.consumed) :
      Moves cap s (s.setWriter t (.refused r))
  | room (t : T) (r : Row) (i : Nat) (h : s.writers t = .loadConsumed r i)
      (hroom : wrapSub i s.consumed < cap.val) :
      Moves cap s (s.setWriter t (.cas r i))
  | refused (t : T) (r : Row) (h : s.writers t = .refused r) :
      Moves cap s (s.setWriter t .out)
  | claim (t : T) (r : Row) (h : s.writers t = .cas r s.claimed) :
      Moves cap s { s.setWriter t (.copy r s.claimed) with
        claimed := s.claimed + 1
        accepted := s.accepted ++ [(t, r)] }
  | retry (t : T) (r : Row) (i : Nat) (h : s.writers t = .cas r i) :
      Moves cap s (s.setWriter t (.loadConsumed r s.claimed))
  | copy (t : T) (r : Row) (i : Nat) (h : s.writers t = .copy r i) :
      Moves cap s ((s.setRow (cap.index i) r).setWriter t (.publish r i))
  | publish (t : T) (r : Row) (i : Nat) (h : s.writers t = .publish r i) :
      Moves cap s ((s.setReady (cap.index i) true).setWriter t .out)
  | beginPass (h : s.drain = .out) : Moves cap s { s with drain := .loadConsumed }
  | passStart (h : s.drain = .loadConsumed) :
      Moves cap s { s with drain := .loadClaimed s.consumed }
  | passEmpty (h : s.drain = .loadClaimed s.claimed) : Moves cap s { s with drain := .out }
  | passOpen (m : Nat) (h : s.drain = .loadClaimed m) :
      Moves cap s { s with drain := .test m s.claimed }
  | testReady (m e : Nat) (h : s.drain = .test m e) (hne : m ≠ e)
      (hready : (s.slots (cap.index m)).ready = true) :
      Moves cap s { s with drain := .format m e }
  | testStop (m e : Nat) (h : s.drain = .test m e)
      (hstop : m = e ∨ (s.slots (cap.index m)).ready = false) :
      Moves cap s { s with drain := .store m e }
  | format (m e : Nat) (h : s.drain = .format m e) :
      Moves cap s { s with
        drain := .clear m e
        emitted := s.emitted ++ [(s.slots (cap.index m)).row] }
  | clear (m e : Nat) (h : s.drain = .clear m e) :
      Moves cap s { s.setReady (cap.index m) false with
        drain := .test (m + 1) e
        written := s.written + 1 }
  | store (m e : Nat) (h : s.drain = .store m e) :
      Moves cap s { s with drain := .ended m e, consumed := m }
  | endPass (m e : Nat) (h : s.drain = .ended m e) : Moves cap s { s with drain := .out }

theorem moves_of_writerStep {t : T} {spurious : Bool}
    (h : s.writerStep cap t spurious = some s') : Moves cap s s' := by
  unfold writerStep at h
  split at h
  · cases h
  · next r hpc =>
    cases h
    exact .loadClaimed t r hpc
  · next r i hpc =>
    split at h
    · next hfull =>
      cases h
      exact .full t r i hpc hfull
    · next hroom =>
      cases h
      exact .room t r i hpc (Nat.lt_of_not_le hroom)
  · next r hpc =>
    cases h
    exact .refused t r hpc
  · next r i hpc =>
    split at h
    · next hcas =>
      obtain ⟨rfl, -⟩ := hcas
      cases h
      exact .claim t r hpc
    · cases h
      exact .retry t r i hpc
  · next r i hpc =>
    cases h
    exact .copy t r i hpc
  · next r i hpc =>
    cases h
    exact .publish t r i hpc

theorem moves_of_passStep {final : Bool} (h : s.passStep cap final = some s') :
    Moves cap s s' := by
  unfold passStep at h
  split at h
  · cases h
  · next hpc =>
    cases h
    exact .passStart hpc
  · next m hpc =>
    split at h
    · next hempty =>
      cases h
      rw [hempty.1] at hpc
      exact .passEmpty hpc
    · cases h
      exact .passOpen m hpc
  · next m e hpc =>
    split at h
    · next hready =>
      cases h
      exact .testReady m e hpc hready.1 hready.2
    · next hstop =>
      cases h
      refine .testStop m e hpc ?_
      by_cases hme : m = e
      · exact .inl hme
      · exact .inr (by simpa [hme] using hstop)
  · next m e hpc =>
    cases h
    exact .format m e hpc
  · next m e hpc =>
    cases h
    exact .clear m e hpc
  · next m e hpc =>
    cases h
    exact .store m e hpc
  · cases h

theorem moves_of_step {a : CoreAct T Row} (h : s.step cap a = some s') : Moves cap s s' := by
  cases a with
  | enter t r =>
    simp only [step] at h
    split at h
    · next hpc =>
      cases h
      exact .enter t r hpc
    · cases h
  | writer t spurious => exact moves_of_writerStep h
  | beginPass =>
    simp only [step] at h
    split at h
    · next hpc =>
      cases h
      exact .beginPass hpc
    · cases h
  | pass final => exact moves_of_passStep h
  | endPass =>
    simp only [step] at h
    split at h
    · next m e hpc =>
      cases h
      exact .endPass m e hpc
    · cases h

/-! ## Every step keeps the invariant -/

namespace Inv

/-- A writer that holds nothing may move to another place where it holds
nothing, as long as what it has read allows that place. -/
theorem setWriter (h : Inv cap s) {t : T} {pc : WriterPc Row}
    (hold : held (s.writers t) = none) (hpc : held pc = none)
    (hload : ∀ r i, pc = .loadConsumed r i → i ≤ s.claimed)
    (hcas : ∀ r i, pc = .cas r i → i ≤ s.claimed ∧ (i = s.claimed → i < s.consumed + cap.val)) :
    Inv cap (s.setWriter t pc) := by
  have other {u : T} {q : WriterPc Row} (hu : Function.update s.writers t pc u = q)
      (hne : q ≠ pc) : s.writers u = q := by
    by_cases hut : u = t
    · subst hut
      rw [Function.update_self] at hu
      exact absurd hu.symm hne
    · rwa [Function.update_of_ne hut] at hu
  have heldEq (u : T) : held (Function.update s.writers t pc u) = held (s.writers u) := by
    by_cases hut : u = t
    · subst hut
      rw [Function.update_self, hpc, hold]
    · rw [Function.update_of_ne hut]
  refine ⟨h.consumed_le, h.written_le, h.claimed_le, h.accepted_length, ?_, ?_, ?_, ?_,
    h.ready_row, ?_, h.ready_live, h.pass, h.emitted⟩
  · intro u r i hu
    by_cases hpcu : pc = .loadConsumed r i
    · exact hload r i hpcu
    · exact h.loaded u r i (other hu (Ne.symm hpcu))
  · intro u r i hu
    by_cases hpcu : pc = .cas r i
    · exact hcas r i hpcu
    · exact h.room u r i (other hu (Ne.symm hpcu))
  · intro u i r hu
    simp only [setWriter_writers, heldEq] at hu
    exact h.owns u i r hu
  · intro u r i hu
    refine h.copied u r i (other hu ?_)
    rintro rfl
    cases hpc
  · intro k hk hk' hr
    obtain ⟨u, r, hu⟩ := h.unready k hk hk' hr
    exact ⟨u, r, by simpa only [setWriter_writers, heldEq] using hu⟩

/-- What a writer holds after another writer has moved, or after its own move. -/
theorem held_update {f : T → WriterPc Row} {t u : T} {pc : WriterPc Row} {i : Nat} {r : Row}
    (h : held (Function.update f t pc u) = some (i, r)) :
    (u = t ∧ held pc = some (i, r)) ∨ (u ≠ t ∧ held (f u) = some (i, r)) := by
  by_cases hut : u = t
  · subst hut
    rw [Function.update_self] at h
    exact .inl ⟨rfl, h⟩
  · rw [Function.update_of_ne hut] at h
    exact .inr ⟨hut, h⟩

theorem pc_update {f : T → WriterPc Row} {t u : T} {pc q : WriterPc Row}
    (h : Function.update f t pc u = q) : (u = t ∧ pc = q) ∨ (u ≠ t ∧ f u = q) := by
  by_cases hut : u = t
  · subst hut
    rw [Function.update_self] at h
    exact .inl ⟨rfl, h⟩
  · rw [Function.update_of_ne hut] at h
    exact .inr ⟨hut, h⟩

theorem claim (h : Inv cap s) {t : T} {r : Row} (hpc : s.writers t = .cas r s.claimed) :
    Inv cap { s.setWriter t (.copy r s.claimed) with
      claimed := s.claimed + 1
      accepted := s.accepted ++ [(t, r)] } := by
  have hlen := h.accepted_length
  have hroom : s.claimed < s.consumed + cap.val := (h.room t r s.claimed hpc).2 rfl
  have hcw := h.consumed_le
  have hwc := h.written_le
  have old {k : Nat} (hk : k < s.claimed) : (s.accepted ++ [(t, r)])[k]? = s.accepted[k]? :=
    List.getElem?_append_left (by omega)
  have new : (s.accepted ++ [(t, r)])[s.claimed]? = some (t, r) := by
    rw [← hlen]
    exact List.getElem?_concat_length
  -- the slot of the new number is free: its last row has been consumed
  have free : (s.slots (cap.index s.claimed)).ready = false := by
    cases hr : (s.slots (cap.index s.claimed)).ready with
    | false => rfl
    | true =>
      obtain ⟨k, hk, hk', hidx⟩ := h.ready_live _ hr
      have : k = s.claimed := cap.index_inj (b := s.written) hk hwc (by omega) (by omega) hidx
      omega
  refine ⟨hcw, Nat.le_succ_of_le hwc, hroom, by simp [hlen], ?_, ?_, ?_, ?_, ?_, ?_, ?_, ?_, ?_⟩
  · intro u q i hu
    rcases pc_update hu with ⟨-, hq⟩ | ⟨-, hu⟩
    · cases hq
    · exact Nat.le_succ_of_le (h.loaded u q i hu)
  · intro u q i hu
    rcases pc_update hu with ⟨-, hq⟩ | ⟨-, hu⟩
    · cases hq
    · have := (h.room u q i hu).1
      simp only
      omega
  · intro u i q hu
    rcases held_update hu with ⟨rfl, hq⟩ | ⟨-, hu⟩
    · cases hq
      exact ⟨hwc, Nat.lt_succ_self _, new, free⟩
    · obtain ⟨h1, h2, h3, h4⟩ := h.owns u i q hu
      exact ⟨h1, Nat.lt_succ_of_lt h2, by rw [old h2]; exact h3, h4⟩
  · intro u q i hu
    rcases pc_update hu with ⟨-, hq⟩ | ⟨-, hu⟩
    · cases hq
    · exact h.copied u q i hu
  · intro k hk hk' hr
    rcases Nat.lt_succ_iff_lt_or_eq.mp hk' with hlt | rfl
    · obtain ⟨u, hu⟩ := h.ready_row k hk hlt hr
      exact ⟨u, by rw [old hlt]; exact hu⟩
    · exact absurd (free.symm.trans hr) (by decide)
  · intro k hk hk' hr
    rcases Nat.lt_succ_iff_lt_or_eq.mp hk' with hlt | rfl
    · obtain ⟨u, q, hu⟩ := h.unready k hk hlt hr
      refine ⟨u, q, ?_⟩
      have hne : u ≠ t := by
        rintro rfl
        rw [hpc] at hu
        cases hu
      simpa [Function.update_of_ne hne] using hu
    · exact ⟨t, r, by simp [held]⟩
  · intro j hr
    obtain ⟨k, hk, hk', hj⟩ := h.ready_live j hr
    exact ⟨k, hk, Nat.lt_succ_of_lt hk', hj⟩
  · exact h.pass.mono rfl rfl (Nat.le_succ _) (fun _ hj => hj)
  · show s.emitted = _
    have hform : formatted s ≤ s.accepted.length := by
      rw [hlen]
      exact h.formatted_le
    rw [List.map_append]
    exact h.emitted.trans
      (List.take_append_of_le_length (by rw [List.length_map]; exact hform)).symm

theorem copy (h : Inv cap s) {t : T} {r : Row} {i : Nat} (hpc : s.writers t = .copy r i) :
    Inv cap ((s.setRow (cap.index i) r).setWriter t (.publish r i)) := by
  obtain ⟨hi, hi', hacc, hready⟩ := h.owns t i r (by rw [hpc]; rfl)
  -- no other live sequence number lies in the slot being written
  have apart {k : Nat} (hk : s.written ≤ k) (hk' : k < s.claimed) (hne : k ≠ i) :
      cap.index k ≠ cap.index i :=
    fun he => hne (h.index_inj hk hi hk' hi' he)
  have row {k : Nat} (hne : cap.index k ≠ cap.index i) :
      ((s.setRow (cap.index i) r).slots (cap.index k)).row = (s.slots (cap.index k)).row := by
    rw [setRow_slots, Function.update_of_ne hne]
  have ready (j : Nat) : ((s.setRow (cap.index i) r).slots j).ready = (s.slots j).ready :=
    setRow_ready s _ _ r
  refine ⟨h.consumed_le, h.written_le, h.claimed_le, h.accepted_length, ?_, ?_, ?_, ?_, ?_, ?_,
    ?_, ?_, h.emitted⟩
  · intro u q k hu
    rcases pc_update hu with ⟨-, hq⟩ | ⟨-, hu⟩
    · cases hq
    · exact h.loaded u q k hu
  · intro u q k hu
    rcases pc_update hu with ⟨-, hq⟩ | ⟨-, hu⟩
    · cases hq
    · exact h.room u q k hu
  · intro u k q hu
    show _ ∧ _ ∧ _ ∧ ((s.setRow (cap.index i) r).slots (cap.index k)).ready = false
    rw [ready]
    rcases held_update hu with ⟨rfl, hq⟩ | ⟨-, hu⟩
    · cases hq
      exact ⟨hi, hi', hacc, hready⟩
    · exact h.owns u k q hu
  · intro u q k hu
    show ((s.setRow (cap.index i) r).slots (cap.index k)).row = q
    rcases pc_update hu with ⟨-, hq⟩ | ⟨hne, hu⟩
    · cases hq
      rw [setRow_slots, Function.update_self]
    · have hheld : held (s.writers u) = some (k, q) := congrArg held hu
      obtain ⟨hk, hk', -, -⟩ := h.owns u k q hheld
      have hki : k ≠ i := by
        rintro rfl
        exact hne (h.held_unique hheld (by rw [hpc]; rfl))
      rw [row (apart hk hk' hki)]
      exact h.copied u q k hu
  · intro k hk hk' hr
    change ((s.setRow (cap.index i) r).slots (cap.index k)).ready = true at hr
    rw [ready] at hr
    have hki : k ≠ i := by
      rintro rfl
      rw [hready] at hr
      cases hr
    show ∃ u, s.accepted[k]? = some (u, ((s.setRow (cap.index i) r).slots (cap.index k)).row)
    rw [row (apart hk hk' hki)]
    exact h.ready_row k hk hk' hr
  · intro k hk hk' hr
    change ((s.setRow (cap.index i) r).slots (cap.index k)).ready = false at hr
    rw [ready] at hr
    obtain ⟨u, q, hu⟩ := h.unready k hk hk' hr
    by_cases hut : u = t
    · subst hut
      rw [hpc] at hu
      cases hu
      exact ⟨u, r, by simp [held]⟩
    · exact ⟨u, q, by simpa [Function.update_of_ne hut] using hu⟩
  · intro j hr
    change ((s.setRow (cap.index i) r).slots j).ready = true at hr
    rw [ready] at hr
    exact h.ready_live j hr
  · exact h.pass.mono rfl rfl (Nat.le_refl _) (fun j hj => (ready j).trans hj)

theorem publish (h : Inv cap s) {t : T} {r : Row} {i : Nat}
    (hpc : s.writers t = .publish r i) :
    Inv cap ((s.setReady (cap.index i) true).setWriter t .out) := by
  have hheld : held (s.writers t) = some (i, r) := by rw [hpc]; rfl
  obtain ⟨hi, hi', hacc, hready⟩ := h.owns t i r hheld
  have hrow := h.copied t r i hpc
  have row (j : Nat) : ((s.setReady (cap.index i) true).slots j).row = (s.slots j).row :=
    setReady_row s _ _ true
  have ready {j : Nat} (hne : j ≠ cap.index i) :
      ((s.setReady (cap.index i) true).slots j).ready = (s.slots j).ready := by
    rw [setReady_slots, Function.update_of_ne hne]
  have readySelf : ((s.setReady (cap.index i) true).slots (cap.index i)).ready = true := by
    rw [setReady_slots, Function.update_self]
  refine ⟨h.consumed_le, h.written_le, h.claimed_le, h.accepted_length, ?_, ?_, ?_, ?_, ?_, ?_,
    ?_, ?_, h.emitted⟩
  · intro u q k hu
    rcases pc_update hu with ⟨-, hq⟩ | ⟨-, hu⟩
    · cases hq
    · exact h.loaded u q k hu
  · intro u q k hu
    rcases pc_update hu with ⟨-, hq⟩ | ⟨-, hu⟩
    · cases hq
    · exact h.room u q k hu
  · intro u k q hu
    rcases held_update hu with ⟨-, hq⟩ | ⟨hne, hu⟩
    · cases hq
    · obtain ⟨hk, hk', haccu, hkr⟩ := h.owns u k q hu
      have hidx : cap.index k ≠ cap.index i := by
        intro he
        have hki := h.index_inj hk hi hk' hi' he
        subst hki
        exact hne (h.held_unique hu hheld)
      exact ⟨hk, hk', haccu, (ready hidx).trans hkr⟩
  · intro u q k hu
    show ((s.setReady (cap.index i) true).slots (cap.index k)).row = q
    rw [row]
    rcases pc_update hu with ⟨-, hq⟩ | ⟨-, hu⟩
    · cases hq
    · exact h.copied u q k hu
  · intro k hk hk' hr
    show ∃ u, s.accepted[k]? = some (u, ((s.setReady (cap.index i) true).slots (cap.index k)).row)
    rw [row]
    by_cases hidx : cap.index k = cap.index i
    · have hki := h.index_inj hk hi hk' hi' hidx
      subst hki
      exact ⟨t, by rw [hrow]; exact hacc⟩
    · exact h.ready_row k hk hk' ((ready hidx).symm.trans hr)
  · intro k hk hk' hr
    change ((s.setReady (cap.index i) true).slots (cap.index k)).ready = false at hr
    have hidx : cap.index k ≠ cap.index i := by
      intro he
      rw [he, readySelf] at hr
      cases hr
    rw [ready hidx] at hr
    obtain ⟨u, q, hu⟩ := h.unready k hk hk' hr
    have hut : u ≠ t := by
      rintro rfl
      rw [hheld] at hu
      cases hu
      exact hidx rfl
    exact ⟨u, q, by simpa [Function.update_of_ne hut] using hu⟩
  · intro j hr
    change ((s.setReady (cap.index i) true).slots j).ready = true at hr
    by_cases hj : j = cap.index i
    · exact ⟨i, hi, hi', hj.symm⟩
    · rw [ready hj] at hr
      exact h.ready_live j hr
  · refine h.pass.mono rfl rfl (Nat.le_refl _) (fun j hj => ?_)
    by_cases hji : j = cap.index i
    · rw [hji]; exact readySelf
    · exact (ready hji).trans hj

end Inv

/-- Every step keeps the invariant. -/
theorem Inv.moves (h : Inv cap s) (hmove : Moves cap s s') : Inv cap s' := by
  have hcw := h.consumed_le
  have hwc := h.written_le
  have hcl := h.claimed_le
  cases hmove with
  | enter t r hpc =>
    exact h.setWriter (by rw [hpc]; rfl) rfl (fun _ _ e => by cases e) (fun _ _ e => by cases e)
  | loadClaimed t r hpc =>
    refine h.setWriter (by rw [hpc]; rfl) rfl (fun _ _ e => ?_) (fun _ _ e => by cases e)
    cases e
    exact Nat.le_refl _
  | full t r i hpc _ =>
    exact h.setWriter (by rw [hpc]; rfl) rfl (fun _ _ e => by cases e) (fun _ _ e => by cases e)
  | room t r i hpc hroom =>
    have hi := h.loaded t r i hpc
    refine h.setWriter (by rw [hpc]; rfl) rfl (fun _ _ e => by cases e) (fun _ _ e => ?_)
    cases e
    -- the value read may be behind `consumed`, but then it is behind `claimed`
    refine ⟨hi, fun heq => lt_of_wrapSub_lt ?_ hroom (by omega)⟩
    have := cap.lt_word
    omega
  | refused t r hpc =>
    exact h.setWriter (by rw [hpc]; rfl) rfl (fun _ _ e => by cases e) (fun _ _ e => by cases e)
  | claim t r hpc => exact h.claim hpc
  | retry t r i hpc =>
    refine h.setWriter (by rw [hpc]; rfl) rfl (fun _ _ e => ?_) (fun _ _ e => by cases e)
    cases e
    exact Nat.le_refl _
  | copy t r i hpc => exact h.copy hpc
  | publish t r i hpc => exact h.publish hpc
  | beginPass hpc =>
    have hpass := h.pass
    rw [hpc] at hpass
    exact h.setDrain hpass (by simp only [formatted, hpc])
  | passStart hpc =>
    have hpass := h.pass
    rw [hpc] at hpass
    exact h.setDrain ⟨hpass, rfl⟩ (by simp only [formatted, hpc])
  | passEmpty hpc =>
    have hpass := h.pass
    rw [hpc] at hpass
    exact h.setDrain (hpass.1.trans hpass.2.symm) (by simp only [formatted, hpc])
  | passOpen m hpc =>
    have hpass := h.pass
    rw [hpc] at hpass
    exact h.setDrain ⟨hpass.1, by have := hpass.1; omega, Nat.le_refl _⟩
      (by simp only [formatted, hpc])
  | testReady m e hpc hne hready =>
    have hpass := h.pass
    rw [hpc] at hpass
    exact h.setDrain ⟨hpass.1, by have := hpass.2.1; omega, hpass.2.2, hready⟩
      (by simp only [formatted, hpc])
  | testStop m e hpc _ =>
    have hpass := h.pass
    rw [hpc] at hpass
    exact h.setDrain hpass (by simp only [formatted, hpc])
  | format m e hpc => exact h.format hpc
  | clear m e hpc => exact h.clear hpc
  | store m e hpc => exact h.store hpc
  | endPass m e hpc =>
    have hpass := h.pass
    rw [hpc] at hpass
    exact h.setDrain (hpass.1.trans hpass.2.1.symm) (by simp only [formatted, hpc])

theorem reachable_inv {memory : Nat → Row}
    (h : (coreMachine (T := T) cap memory).Reachable s) : Inv cap s :=
  h.invariant (inv_empty memory) (fun _ _ _ hi hs => hi.moves (moves_of_step hs))

end Core
end SlotRing
end P5G
