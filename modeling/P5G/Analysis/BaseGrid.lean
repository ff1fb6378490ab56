import P5G.Analysis.ExpectedFrames
import P5G.Sender.Grid

/-!
# The base grid and the senders' grids

`load` maps slot `j` of a camera of `f` fps to base instant `j * (30 / f)`, and
takes that instant to be `BASE_PERIOD_NS` times its index after the epoch.  The
sender captures the slot `j * (1000000 / f)` microseconds after it.
-/

namespace P5G
namespace Fusion

open Sender

/-- The rate of a camera whose frames are on the base grid. -/
def onGrid (c : Camera) (h : c.fps ∣ baseFps) : FrameRate := ⟨c.fps, h⟩

theorem divisors_baseFps {n : Nat} (h : n ∣ baseFps) :
    n = 1 ∨ n = 2 ∨ n = 3 ∨ n = 5 ∨ n = 6 ∨ n = 10 ∨ n = 15 ∨ n = 30 := by
  have hle : n ≤ 30 := Nat.le_of_dvd (by decide) h
  have hall : ∀ n ≤ 30, n ∣ 30 →
      n = 1 ∨ n = 2 ∨ n = 3 ∨ n = 5 ∨ n = 6 ∨ n = 10 ∨ n = 15 ∨ n = 30 := by decide
  exact hall n hle h

/-- Only 1/15 s and 1/30 s lose nothing against the base period in whole microseconds. -/
theorem at_eq_base_iff (c : Camera) (h : c.fps ∣ baseFps) (s : State) {j k : Int}
    (hk : j * (onGrid c h).step = k) :
    s.at c j * 1000 = s.startUs * 1000 + k * basePeriodNs ↔
      k = 0 ∨ c.fps = 15 ∨ c.fps = 30 := by
  have hperiod : basePeriodNs = 33333000 := by decide
  rw [State.at, Camera.intervalUs, hperiod]
  simp only [onGrid, FrameRate.step] at hk
  rcases divisors_baseFps h with hf | hf | hf | hf | hf | hf | hf | hf <;>
    rw [hf] at hk ⊢ <;> simp [baseFps] at hk ⊢ <;> omega

section

variable {c₁ c₂ : Camera} {s₁ s₂ : State} {j₁ j₂ k : Int}

/-- Two slots with one base index are captured in the same microsecond, the one of the
base instant, exactly at the epoch and between cameras of 15 and 30 fps. -/
theorem same_instant_iff (h₁ : c₁.fps ∣ baseFps) (h₂ : c₂.fps ∣ baseFps)
    (hstart : s₁.startUs = s₂.startUs) (hk₁ : j₁ * (onGrid c₁ h₁).step = k)
    (hk₂ : j₂ * (onGrid c₂ h₂).step = k) :
    (s₁.at c₁ j₁ = s₂.at c₂ j₂ ∧
        s₁.at c₁ j₁ * 1000 = s₁.startUs * 1000 + k * basePeriodNs) ↔
      k = 0 ∨ (c₁.fps = 15 ∨ c₁.fps = 30) ∧ (c₂.fps = 15 ∨ c₂.fps = 30) := by
  have hbase₁ := at_eq_base_iff c₁ h₁ s₁ hk₁
  have hbase₂ := at_eq_base_iff c₂ h₂ s₂ hk₂
  rw [← hstart] at hbase₂
  constructor
  · rintro ⟨hsame, hinstant⟩
    have hfirst := hbase₁.mp hinstant
    rw [hsame] at hinstant
    have hsecond := hbase₂.mp hinstant
    omega
  · intro hrates
    have hfirst := hbase₁.mpr (by omega)
    have hsecond := hbase₂.mpr (by omega)
    exact ⟨by omega, hfirst⟩

end

def atRate (fps : Nat) (h : 0 < fps) : Camera := { twoFrames with fps := fps, fps_pos := h }

/-- Slot 2 at 15 fps and slot 4 at 30 fps. -/
theorem same_instant_fifteen :
    (init (atRate 15 (by decide))).at (atRate 15 (by decide)) 2 =
      (init (atRate 30 (by decide))).at (atRate 30 (by decide)) 4 :=
  ((@same_instant_iff (atRate 15 (by decide)) (atRate 30 (by decide))
    (init (atRate 15 (by decide))) (init (atRate 30 (by decide))) 2 4 4
    (by decide) (by decide) rfl (by decide) (by decide)).mpr (.inr ⟨.inl rfl, .inr rfl⟩)).1

/-- Slot 1 at 10 fps is captured a microsecond after slot 3 at 30 fps. -/
theorem same_instant_ten :
    ¬ ∀ (c₁ c₂ : Camera) (h₁ : c₁.fps ∣ baseFps) (h₂ : c₂.fps ∣ baseFps) (s₁ s₂ : State)
      (j₁ j₂ k : Int), s₁.startUs = s₂.startUs →
      j₁ * (onGrid c₁ h₁).step = k → j₂ * (onGrid c₂ h₂).step = k →
      s₁.at c₁ j₁ = s₂.at c₂ j₂ ∧
        s₁.at c₁ j₁ * 1000 = s₁.startUs * 1000 + k * basePeriodNs := by
  intro h
  have hsame := (h (atRate 10 (by decide)) (atRate 30 (by decide)) (by decide) (by decide)
    (init (atRate 10 (by decide))) (init (atRate 30 (by decide))) 1 3 3 rfl (by decide)
    (by decide)).1
  revert hsame
  decide

end Fusion
end P5G
