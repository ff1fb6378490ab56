import P5G.Gst.Snapshot

/-!
# A lookup by itself

What a call of `LookupArrival` returns that no write comes between.
-/

namespace P5G
namespace Gst
namespace Receiver

variable {Thread : Type*} {s s' : State Thread} {ts : UInt32} [DecidableEq Thread]

/-- The result of `LookupArrival` from fields that do not change. -/
def Fields.lookup (v : Fields) (ts : UInt32) : Option (Nat × Nat × Nat) :=
  if v.key = ts.toUInt64 then some (v.first, v.last, v.n) else none

def Reader.free : Reader → Bool
  | .idle | .returned _ _ => true
  | .seq _ _ _ | .key _ | .first _ | .last _ _ | .n _ _ _ | .check _ _ _ _ => false

/-- A call of `LookupArrival` by `r`, of `k` steps and all by itself, returns `result`. -/
def State.Returns (s : State Thread) (r : Thread) (ts : UInt32)
    (result : Option (Nat × Nat × Nat)) : Prop :=
  ∃ k s', (receiver Thread).exec s (.lookup r ts :: List.replicate k (.read r)) = some s' ∧
    s'.readers r = .returned ts result

def Reader.steps (x : Seqlock Fields) : Nat → Reader → Option Reader
  | 0, rd => some rd
  | k + 1, rd => (rd.step x).bind (steps x k)

theorem steps_returned {x : Seqlock Fields} {rd : Reader} {j k : Nat}
    {a b : Option (Nat × Nat × Nat)} (ha : rd.steps x j = some (.returned ts a))
    (hb : rd.steps x k = some (.returned ts b)) : a = b := by
  induction j generalizing rd k with
  | zero =>
    cases ha
    cases k with
    | zero =>
      cases hb
      rfl
    | succ k => cases hb
  | succ j ih =>
    cases k with
    | zero =>
      cases hb
      cases ha
    | succ k =>
      obtain ⟨rd', hrd', ha⟩ := Option.bind_eq_some_iff.mp ha
      rw [Reader.steps, hrd'] at hb
      exact ih ha hb

/-- A lookup in a slot without a write. -/
theorem exists_steps {x : Seqlock Fields} (heven : x.seq &&& 1 = 0) (ts : UInt32) (began : Nat) :
    ∃ k, (Reader.seq ts 0 began).steps x k = some (.returned ts (x.val.lookup ts)) := by
  by_cases hkey : x.val.key = ts.toUInt64
  · refine ⟨6, ?_⟩
    simp [Reader.steps, Reader.step, heven, hkey, Fields.lookup]
  · refine ⟨2, ?_⟩
    simp [Reader.steps, Reader.step, heven, hkey, Fields.lookup]

theorem read_setReader {r : Thread} {rd : Reader} (hts : rd.ts? = some ts) :
    (s.setReader r rd).read r = (rd.step (s.slot ts).lock).map fun x => s.setReader r x := by
  have hself : (s.setReader r rd).readers r = rd := Function.update_self _ _ _
  have hupdate : ∀ x, (s.setReader r rd).setReader r x = s.setReader r x := fun x => by
    rw [State.setReader, State.setReader, State.setReader]
    simp
  rw [State.read, hself, hts]
  simp only [Option.bind_some, hupdate]
  rfl

theorem exec_reads {r : Thread} {rd : Reader} (hts : rd.ts? = some ts) (k : Nat) :
    (receiver Thread).exec (s.setReader r rd) (List.replicate k (.read r)) =
      (rd.steps (s.slot ts).lock k).map fun x => s.setReader r x := by
  induction k generalizing rd with
  | zero => rfl
  | succ k ih =>
    rw [List.replicate_succ, Machine.exec, Reader.steps]
    have hread : (receiver Thread).step (s.setReader r rd) (.read r) =
      (rd.step (s.slot ts).lock).map fun x => s.setReader r x := read_setReader hts
    rw [hread]
    cases hstep : rd.step (s.slot ts).lock with
    | none => rfl
    | some rd' => exact ih ((ts?_step hstep).trans hts)

theorem lookup_free {r : Thread} (hr : (s.readers r).free = true) :
    s.lookup r ts = some (s.setReader r (.seq ts 0 ((s.slot ts).lock.stores / 2))) := by
  rw [State.lookup]
  cases hrd : s.readers r <;> rw [hrd] at hr <;> first | rfl | cases hr

theorem returns_iff {r : Thread} {result : Option (Nat × Nat × Nat)} (hi : Recording s)
    (hw : s.writer = .idle) (hr : (s.readers r).free = true) :
    s.Returns r ts result ↔ (s.slot ts).lock.val.lookup ts = result := by
  have hok := hi.writer
  rw [WriterOk, hw] at hok
  have heven := (hi.good (arrivalSlot ts)).even.mpr (hok (arrivalSlot ts)).even
  obtain ⟨j, hj⟩ := exists_steps heven ts ((s.slot ts).lock.stores / 2)
  have hexec : ∀ k, (receiver Thread).exec s (.lookup r ts :: List.replicate k (.read r)) =
      ((Reader.seq ts 0 ((s.slot ts).lock.stores / 2)).steps (s.slot ts).lock k).map
        fun x => s.setReader r x := fun k => by
    have hlookup : (receiver Thread).step s (.lookup r ts) = some _ := lookup_free hr
    rw [Machine.exec, hlookup]
    exact exec_reads rfl k
  have hself : ∀ rd, (s.setReader r rd).readers r = rd := fun rd => Function.update_self _ _ _
  constructor
  · intro hreturns
    obtain ⟨k, s', hs', hreader⟩ := hreturns
    rw [hexec k] at hs'
    obtain ⟨rd, hrd, rfl⟩ := Option.map_eq_some_iff.mp hs'
    rw [hself] at hreader
    rw [hreader] at hrd
    exact steps_returned hj hrd
  · intro hresult
    refine ⟨j, _, (hexec j).trans (Option.map_eq_some_iff.mpr ⟨_, hj, rfl⟩), ?_⟩
    rw [hself, ← hresult]
    rfl

end Receiver
end Gst
end P5G
