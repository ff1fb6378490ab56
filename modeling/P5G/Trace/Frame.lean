import P5G.Trace.Invariant

/-!
# What each kind of step moves

A program that owns a ring decides which steps of it are taken, and needs to
know what each kind of step leaves alone.
-/

namespace P5G

namespace SlotRing
namespace Core

variable {T Row : Type*} [DecidableEq T] {cap : Capacity} {s c : Core T Row}

theorem enter_eq {t : T} {r : Row} (h : s.step cap (.enter t r) = some c) :
    s.writers t = .out ∧ c = s.setWriter t (.loadClaimed r) := by
  simp only [step] at h
  split at h
  · next hpc =>
    cases h
    exact ⟨hpc, rfl⟩
  · cases h

/-- What a writer's step leaves alone. -/
theorem writer_frame {t : T} {spurious : Bool} (h : s.step cap (.writer t spurious) = some c) :
    c.drain = s.drain ∧ c.emitted = s.emitted ∧ c.consumed = s.consumed ∧
      c.written = s.written ∧ ∀ u, u ≠ t → c.writers u = s.writers u := by
  have other {f : T → WriterPc Row} {pc : WriterPc Row} (u : T) (hu : u ≠ t) :
      Function.update f t pc u = f u := Function.update_of_ne hu _ _
  simp only [step, writerStep] at h
  split at h
  · cases h
  · cases h; exact ⟨rfl, rfl, rfl, rfl, other⟩
  · split at h <;> cases h <;> exact ⟨rfl, rfl, rfl, rfl, other⟩
  · cases h; exact ⟨rfl, rfl, rfl, rfl, other⟩
  · split at h <;> cases h <;> exact ⟨rfl, rfl, rfl, rfl, other⟩
  · cases h; exact ⟨rfl, rfl, rfl, rfl, other⟩
  · cases h; exact ⟨rfl, rfl, rfl, rfl, other⟩

/-- What a drainer's step leaves alone. -/
theorem pass_frame {final : Bool} (h : s.step cap (.pass final) = some c) :
    c.writers = s.writers ∧ c.accepted = s.accepted ∧ c.claimed = s.claimed := by
  simp only [step, passStep] at h
  split at h
  · cases h
  · cases h; exact ⟨rfl, rfl, rfl⟩
  · split at h <;> cases h <;> exact ⟨rfl, rfl, rfl⟩
  · split at h <;> cases h <;> exact ⟨rfl, rfl, rfl⟩
  · cases h; exact ⟨rfl, rfl, rfl⟩
  · cases h; exact ⟨rfl, rfl, rfl⟩
  · cases h; exact ⟨rfl, rfl, rfl⟩
  · cases h

/-- The `claimed` a pass goes up to, once it has read it. -/
def target : DrainPc → Option Nat
  | .test _ e | .format _ e | .clear _ e | .store _ e | .ended _ e => some e
  | _ => none

/-- A pass keeps the `claimed` it read. -/
theorem pass_target {final : Bool} (h : s.step cap (.pass final) = some c)
    (hread : ∀ m, s.drain ≠ .loadClaimed m) : target c.drain = target s.drain := by
  simp only [step, passStep] at h
  split at h
  case h_1 => cases h
  case h_2 hpc => cases h; rw [hpc]; rfl
  case h_3 m hpc => exact absurd hpc (hread m)
  case h_4 m e hpc => split at h <;> cases h <;> rw [hpc] <;> rfl
  case h_5 m e hpc => cases h; rw [hpc]; rfl
  case h_6 m e hpc => cases h; rw [hpc]; rfl
  case h_7 m e hpc => cases h; rw [hpc]; rfl
  case h_8 => cases h

/-- A pass that has stopped short of the `claimed` it read. -/
def Short : DrainPc → Prop
  | .store m e | .ended m e => m ≠ e
  | _ => False

/-- A slot the pass tests below the `claimed` it read is published. -/
def TestsReady (cap : Capacity) (s : Core T Row) : Prop :=
  match s.drain with
  | .test m e => m ≠ e → (s.slots (cap.index m)).ready = true
  | _ => True

instance : Decidable (TestsReady cap s) :=
  match h : s.drain with
  | .test m e => decidable_of_iff (m ≠ e → (s.slots (cap.index m)).ready = true)
      (by simp only [TestsReady, h])
  | .out | .loadConsumed | .loadClaimed _ | .format _ _ | .clear _ _ | .store _ _
  | .ended _ _ => isTrue (by simp only [TestsReady, h])

/-- A pass stops short at an unpublished slot and nowhere else. -/
theorem pass_short {final : Bool} (h : s.step cap (.pass final) = some c) :
    Short c.drain ↔ Short s.drain ∨ ¬ TestsReady cap s := by
  simp only [step, passStep] at h
  split at h
  case h_1 => cases h
  case h_2 hpc => cases h; simp [Short, TestsReady, hpc]
  case h_3 m hpc => split at h <;> cases h <;> simp [Short, TestsReady, hpc]
  case h_4 m e hpc =>
    split at h
    · next hready =>
      cases h
      simp [Short, TestsReady, hpc, hready.2]
    · next hstop =>
      cases h
      simp only [Short, TestsReady, hpc, false_or, Classical.not_imp]
      exact ⟨fun hne => ⟨hne, fun hr => hstop ⟨hne, hr⟩⟩, fun hne => hne.1⟩
  case h_5 m e hpc => cases h; simp [Short, TestsReady, hpc]
  case h_6 m e hpc => cases h; simp [Short, TestsReady, hpc]
  case h_7 m e hpc => cases h; simp [Short, TestsReady, hpc]
  case h_8 => cases h

theorem beginPass_eq (h : s.step cap .beginPass = some c) :
    s.drain = .out ∧ c = { s with drain := .loadConsumed } := by
  simp only [step] at h
  split at h
  · next hd =>
    cases h
    exact ⟨hd, rfl⟩
  · cases h

theorem endPass_eq (h : s.step cap .endPass = some c) :
    (∃ m e, s.drain = .ended m e) ∧ c = { s with drain := .out } := by
  simp only [step] at h
  split at h
  · next m e hd =>
    cases h
    exact ⟨⟨m, e, hd⟩, rfl⟩
  · cases h

/-- The row a writer is carrying that has neither been accepted nor refused. -/
def pendingRow : WriterPc Row → Option Row
  | .loadClaimed r => some r
  | .loadConsumed r _ => some r
  | .refused r => some r
  | .cas r _ => some r
  | _ => none

/-- The step of a writer that neither leaves full-handed nor publishes: it stays
inside, and its row is accepted exactly when the row stops being pending. -/
theorem writer_inside {t : T} {spurious : Bool}
    (h : s.step cap (.writer t spurious) = some c)
    (href : ∀ r, s.writers t ≠ .refused r) (hpub : ∀ r i, s.writers t ≠ .publish r i) :
    c.writers t ≠ .out ∧
      ((pendingRow (c.writers t) = pendingRow (s.writers t) ∧ c.accepted = s.accepted) ∨
        ∃ r, pendingRow (s.writers t) = some r ∧ pendingRow (c.writers t) = none ∧
          c.accepted = s.accepted ++ [(t, r)]) := by
  simp only [step, writerStep] at h
  split at h
  · cases h
  · next r hpc =>
    cases h
    simp [pendingRow, hpc]
  · next r i hpc =>
    split at h <;> cases h <;> simp [pendingRow, hpc]
  · next r hpc => exact absurd hpc (href r)
  · next r i hpc =>
    split at h
    · cases h
      exact ⟨by simp, .inr ⟨r, by rw [hpc]; rfl, by simp [pendingRow], rfl⟩⟩
    · cases h
      simp [pendingRow, hpc]
  · next r i hpc =>
    cases h
    simp [pendingRow, hpc]
  · next r i hpc => exact absurd hpc (hpub r i)

theorem writer_refused {t : T} {spurious : Bool} {r : Row}
    (h : s.step cap (.writer t spurious) = some c) (hpc : s.writers t = .refused r) :
    c = s.setWriter t .out := by
  simp only [step, writerStep, hpc] at h
  cases h
  rfl

theorem writer_publish {t : T} {spurious : Bool} {r : Row} {i : Nat}
    (h : s.step cap (.writer t spurious) = some c) (hpc : s.writers t = .publish r i) :
    c = (s.setReady (cap.index i) true).setWriter t .out := by
  simp only [step, writerStep, hpc] at h
  cases h
  rfl

/-- A writer finds the ring full at its test and nowhere else. -/
theorem refused_origin {b : CoreAct T Row} (h : s.step cap b = some c) {t : T} {r : Row}
    (hpc : c.writers t = .refused r) (hnot : s.writers t ≠ .refused r) :
    ∃ spurious i, b = .writer t spurious ∧ s.writers t = .loadConsumed r i ∧
      cap.val ≤ wrapSub i s.consumed := by
  cases b with
  | enter u q =>
    obtain ⟨-, rfl⟩ := enter_eq h
    by_cases hu : t = u
    · subst hu
      simp at hpc
    · exact absurd ((Function.update_of_ne hu _ _).symm.trans hpc) hnot
  | beginPass =>
    obtain ⟨-, rfl⟩ := beginPass_eq h
    exact absurd hpc hnot
  | endPass =>
    obtain ⟨-, rfl⟩ := endPass_eq h
    exact absurd hpc hnot
  | pass final =>
    rw [(pass_frame h).1] at hpc
    exact absurd hpc hnot
  | writer u spurious =>
    by_cases hu : t = u
    · subst hu
      refine ⟨spurious, ?_⟩
      simp only [step, writerStep] at h
      split at h
      · cases h
      · cases h; simp at hpc
      · next q i hq =>
        split at h
        · next hfull =>
          cases h
          simp only [setWriter_writers, Function.update_self] at hpc
          cases hpc
          exact ⟨i, rfl, hq, hfull⟩
        · cases h; simp at hpc
      · cases h; simp at hpc
      · split at h <;> cases h <;> simp at hpc
      · cases h; simp at hpc
      · cases h; simp at hpc
    · exact absurd (((writer_frame h).2.2.2.2 t hu).symm.trans hpc) hnot

end Core
end SlotRing
end P5G
