import Mathlib.Data.UInt

/-!
# Sequence locks

A value in parts, behind a counter.  The one writer makes the counter odd, stores the
parts one after another and makes it even again; a reader takes the parts between two
reads of the counter.  `stores` counts the stores to the counter and does not wrap.
-/

namespace P5G

structure Seqlock (V : Type*) where
  seq : UInt32
  val : V
  stores : Nat

namespace Seqlock

variable {V β : Type*} {x : Seqlock V} {since : Nat} {P : V → Prop}

def bump (x : Seqlock V) (seq : UInt32) : Seqlock V :=
  { x with seq := seq, stores := x.stores + 1 }

def put (x : Seqlock V) (f : V → V) : Seqlock V := { x with val := f x.val }

/-- The counter is the number of stores to it, modulo its width. -/
def Good (x : Seqlock V) : Prop := x.seq = UInt32.ofNat x.stores

theorem Good.bump (h : x.Good) : (x.bump (x.seq + 1)).Good := by
  have hseq : x.seq = UInt32.ofNat x.stores := h
  show x.seq + 1 = UInt32.ofNat (x.stores + 1)
  rw [hseq, UInt32.ofNat_add]
  rfl

theorem Good.put (h : x.Good) (f : V → V) : (x.put f).Good := h

/-- No write is in progress at an even counter. -/
theorem Good.even (h : x.Good) : x.seq &&& 1 = 0 ↔ x.stores % 2 = 0 := by
  have hseq : x.seq = UInt32.ofNat x.stores := h
  rw [← UInt32.toNat_inj, UInt32.toNat_and, hseq]
  simp only [UInt32.toNat_ofNat', UInt32.toNat_one, UInt32.toNat_zero, Nat.and_one_is_mod]
  omega

/-- What a reader knows that read the even counter at `since` stores: `P` holds of the
value unless a write has begun. -/
structure Since (x : Seqlock V) (since : Nat) (P : V → Prop) : Prop where
  even : since % 2 = 0
  le : since ≤ x.stores
  holds : x.stores = since → P x.val

theorem Since.start (heven : x.stores % 2 = 0) : x.Since x.stores fun _ => True :=
  ⟨heven, Nat.le_refl _, fun _ => trivial⟩

/-- The reader reads a part. -/
theorem Since.read (h : x.Since since P) (f : V → β) :
    x.Since since fun v => P v ∧ f v = f x.val :=
  ⟨h.even, h.le, fun heq => ⟨h.holds heq, rfl⟩⟩

theorem Since.bump (h : x.Since since P) (seq : UInt32) : (x.bump seq).Since since P := by
  have hle := h.le
  refine ⟨h.even, Nat.le_succ_of_le hle, fun heq => ?_⟩
  have hsucc : x.stores + 1 = since := heq
  omega

/-- The writer stores a part, which it does behind an odd counter. -/
theorem Since.put (h : x.Since since P) (hodd : x.stores % 2 = 1) (f : V → V) :
    (x.put f).Since since P := by
  have heven := h.even
  refine ⟨heven, h.le, fun heq => ?_⟩
  have hsame : x.stores = since := heq
  omega

/-- An unchanged counter says that there was no write, unless it has come round. -/
theorem Since.validate (h : x.Since since P) (hgood : x.Good)
    (hseq : x.seq = UInt32.ofNat since) (hfew : x.stores / 2 < since / 2 + 2 ^ 31) :
    x.stores = since ∧ P x.val := by
  have heven := h.even
  have hle := h.le
  have hmod : x.stores % 2 ^ 32 = since % 2 ^ 32 := by
    have hsame : UInt32.ofNat x.stores = UInt32.ofNat since := hgood.symm.trans hseq
    simpa using congrArg UInt32.toNat hsame
  have heq : x.stores = since := by omega
  exact ⟨heq, h.holds heq⟩

end Seqlock
end P5G
