import P5G.Gst.Arrivals

/-!
# Coherent snapshots

A lookup that returns true has read the fields of one completed write.  What they then
say is a matter of the packets recorded in the slot so far, one after another.
-/

namespace P5G
namespace Gst
namespace Receiver

/-! ## One packet after another -/

def record (v : Fields) (p : Packet) : Fields :=
  (fieldStores p (v.key = p.ts.toUInt64)).foldl FieldStore.apply v

def entry (log : List Packet) : Fields := log.foldl record Fields.init

theorem record_same {v : Fields} {p : Packet} (h : v.key = p.ts.toUInt64) :
    record v p = ⟨v.key, min p.mono v.first, p.mono, v.n + 1⟩ := by
  simp only [record, h, fieldStores, decide_true, if_true, List.foldl_cons, List.foldl_nil,
    FieldStore.apply, Fields.mk.injEq, true_and, and_true]
  rw [Nat.min_def]
  split <;> split <;> omega

theorem record_new {v : Fields} {p : Packet} (h : v.key ≠ p.ts.toUInt64) :
    record v p = ⟨p.ts.toUInt64, p.mono, p.mono, 1⟩ := by
  simp [record, h, fieldStores, FieldStore.apply]

theorem entry_concat (log : List Packet) (p : Packet) :
    entry (log ++ [p]) = record (entry log) p := by
  rw [entry, List.foldl_append]
  rfl

/-- The packets `run` of one frame, from the one on that the slot was assigned with, and
their summary. -/
structure Summary (ts : UInt32) (before run : List Packet) (v : Fields) : Prop where
  ne_nil : run ≠ []
  frame : ∀ p ∈ run, p.ts = ts
  assigned : ∀ p ∈ before.getLast?, p.ts ≠ ts
  key : v.key = ts.toUInt64
  n : v.n = run.length
  last : ∀ p ∈ run.getLast?, v.last = p.mono
  first_mem : v.first ∈ run.map Packet.mono
  first_le : ∀ p ∈ run, v.first ≤ p.mono

/-- A slot in which nothing has been recorded is no frame's. -/
theorem init_key_ne (ts : UInt32) : Fields.init.key ≠ ts.toUInt64 := by
  intro h
  have hnat := congrArg UInt64.toNat h
  have hlt := ts.toNat_lt
  rw [UInt32.toNat_toUInt64] at hnat
  have hinit : Fields.init.key.toNat = 0xffffffffffffffff := rfl
  omega

/-- One more packet of the frame. -/
theorem Summary.concat {ts : UInt32} {before run : List Packet} {v : Fields} {p : Packet}
    (h : Summary ts before run v) (hp : p.ts = ts) :
    Summary ts before (run ++ [p]) ⟨v.key, min p.mono v.first, p.mono, v.n + 1⟩ := by
  refine ⟨by simp, fun q hq => ?_, h.assigned, h.key, ?_, fun q hq => ?_, ?_, fun q hq => ?_⟩
  · rcases List.mem_append.mp hq with hq | hq
    · exact h.frame q hq
    · rw [List.mem_singleton.mp hq]
      exact hp
  · rw [List.length_append, h.n]
    rfl
  · rw [List.getLast?_concat] at hq
    cases hq
    rfl
  · rw [List.map_append, List.mem_append]
    rcases Nat.le_total p.mono v.first with hle | hle
    · exact .inr (by simp [Nat.min_eq_left hle])
    · exact .inl (by simpa [Nat.min_eq_right hle] using h.first_mem)
  · rcases List.mem_append.mp hq with hq | hq
    · exact Nat.le_trans (Nat.min_le_right _ _) (h.first_le q hq)
    · rw [List.mem_singleton.mp hq]
      exact Nat.min_le_left _ _

/-- The first packet of a frame. -/
theorem Summary.single {before : List Packet} {p : Packet}
    (h : ∀ q ∈ before.getLast?, q.ts ≠ p.ts) :
    Summary p.ts before [p] ⟨p.ts.toUInt64, p.mono, p.mono, 1⟩ := by
  refine ⟨by simp, by simp, h, rfl, rfl, by simp, by simp, by simp⟩

/-- The frame of the last packet is the one summarised. -/
theorem Summary.ts_of_getLast? {ts : UInt32} {before run : List Packet} {v : Fields} {q : Packet}
    (h : Summary ts before run v) (hq : q ∈ (before ++ run).getLast?) : q.ts = ts := by
  rw [List.getLast?_append_of_ne_nil _ h.ne_nil] at hq
  exact h.frame q (List.mem_of_getLast? hq)

/-- The fields are the summary of the last frame recorded. -/
theorem exists_summary (log : List Packet) :
    log = [] ∨ ∃ ts before run, log = before ++ run ∧ Summary ts before run (entry log) := by
  induction log using List.reverseRecOn with
  | nil => exact .inl rfl
  | append_singleton log p ih =>
    right
    rw [entry_concat]
    by_cases hkey : (entry log).key = p.ts.toUInt64
    · rw [record_same hkey]
      rcases ih with rfl | ⟨ts, before, run, hlog, hsum⟩
      · exact absurd hkey (init_key_ne p.ts)
      · have hts : p.ts = ts := UInt32.toUInt64_inj.mp (hkey.symm.trans hsum.key)
        refine ⟨ts, before, run ++ [p], ?_, hsum.concat hts⟩
        rw [hlog, List.append_assoc]
    · rw [record_new hkey]
      refine ⟨p.ts, log, [p], rfl, Summary.single fun q hq heq => ?_⟩
      rcases ih with rfl | ⟨ts, before, run, hlog, hsum⟩
      · cases hq
      · rw [hlog] at hq
        have hts := hsum.ts_of_getLast? hq
        rw [← heq, hts] at hkey
        exact hkey hsum.key

/-- A frame's summary is that of its last run of packets. -/
theorem summary_of_key {log : List Packet} {ts : UInt32} (h : (entry log).key = ts.toUInt64) :
    ∃ before run, log = before ++ run ∧ Summary ts before run (entry log) := by
  rcases exists_summary log with rfl | ⟨ts', before, run, hlog, hsum⟩
  · exact absurd h (init_key_ne ts)
  · have heq : ts' = ts := UInt32.toUInt64_inj.mp (hsum.key.symm.trans h)
    rw [heq] at hsum
    exact ⟨before, run, hlog, hsum⟩

/-! ## The recording thread -/

structure Committed (x : Arrival) : Prop where
  even : x.lock.stores % 2 = 0
  val : x.lock.val = entry x.log

variable {Thread : Type*} {s s' : State Thread}

/-- What a slot has of the write in progress: the stores to come make it whole. -/
structure Writing (x : Arrival) (p : Packet) (seq0 : UInt32) (rest : List FieldStore) : Prop where
  odd : x.lock.stores % 2 = 1
  seq : x.lock.seq = seq0 + 1
  val : rest.foldl FieldStore.apply x.lock.val = record (entry x.log) p

def WriterOk (s : State Thread) : Prop :=
  match s.writer with
  | .idle | .loadKey _ => ∀ i, Committed (s.arrivals i)
  | .loadSeq p sameFrame =>
    (∀ i, Committed (s.arrivals i)) ∧
      sameFrame = decide ((s.slot p.ts).lock.val.key = p.ts.toUInt64)
  | .openSeq p sameFrame seq0 =>
    (∀ i, Committed (s.arrivals i)) ∧
      sameFrame = decide ((s.slot p.ts).lock.val.key = p.ts.toUInt64) ∧
      (s.slot p.ts).lock.seq = seq0
  | .store p seq0 rest =>
    (∀ i, i ≠ arrivalSlot p.ts → Committed (s.arrivals i)) ∧ Writing (s.slot p.ts) p seq0 rest

structure Recording (s : State Thread) : Prop where
  good : ∀ i, (s.arrivals i).lock.Good
  writer : WriterOk s

structure Later (x x' : Arrival) : Prop where
  stores : x.lock.stores ≤ x'.lock.stores
  since : ∀ since P, x.lock.Since since P → x'.lock.Since since P
  log : x.log <+: x'.log

theorem Later.refl (x : Arrival) : Later x x := ⟨Nat.le_refl _, fun _ _ h => h, List.prefix_refl _⟩

theorem later_setSlot {ts : UInt32} {x : Arrival} (h : Later (s.slot ts) x) (i : Nat) :
    Later (s.arrivals i) ((s.setSlot ts x).arrivals i) := by
  by_cases hi : i = arrivalSlot ts
  · subst hi
    have hself : (s.setSlot ts x).arrivals (arrivalSlot ts) = x := State.slot_setSlot ts x
    rw [hself]
    exact h
  · rw [State.arrivals_setSlot_of_ne hi]
    exact Later.refl _

theorem forall_setSlot {ts : UInt32} {x : Arrival} {P : Arrival → Prop}
    (hothers : ∀ i, i ≠ arrivalSlot ts → P (s.arrivals i)) (hx : P x) (i : Nat) :
    P ((s.setSlot ts x).arrivals i) := by
  by_cases hi : i = arrivalSlot ts
  · subst hi
    have hself : (s.setSlot ts x).arrivals (arrivalSlot ts) = x := State.slot_setSlot ts x
    rw [hself]
    exact hx
  · rw [State.arrivals_setSlot_of_ne hi]
    exact hothers i hi

theorem good_setSlot {ts : UInt32} {x : Arrival} (h : ∀ i, (s.arrivals i).lock.Good)
    (hx : x.lock.Good) (i : Nat) : ((s.setSlot ts x).arrivals i).lock.Good :=
  forall_setSlot (P := fun x => x.lock.Good) (fun i _ => h i) hx i

/-- A write is under way in the slot of `p`. -/
theorem writerOk_store {p : Packet} {seq0 : UInt32} {rest : List FieldStore} {x : Arrival}
    (h : ∀ i, i ≠ arrivalSlot p.ts → Committed (s.arrivals i)) (hx : Writing x p seq0 rest) :
    WriterOk ((s.setSlot p.ts x).setWriter (.store p seq0 rest)) := by
  refine ⟨fun i hi => ?_, ?_⟩
  · have harrival := State.arrivals_setSlot_of_ne (s := s) (x := x) hi
    exact harrival ▸ h i hi
  · have hslot := State.slot_setSlot (s := s) p.ts x
    exact hslot.symm ▸ hx

/-- The counter is made odd. -/
theorem Recording.openSeq {p : Packet} {sameFrame : Bool} {seq0 : UInt32} (hi : Recording s)
    (hw : s.writer = .openSeq p sameFrame seq0) (h : s.write = some s') :
    Recording s' ∧ ∀ i, Later (s.arrivals i) (s'.arrivals i) := by
  have hok := hi.writer
  rw [WriterOk, hw] at hok
  obtain ⟨hall, hsame, hseq⟩ := hok
  have hslot : Committed (s.slot p.ts) := hall (arrivalSlot p.ts)
  have hgood : (s.slot p.ts).lock.Good := hi.good (arrivalSlot p.ts)
  have heven := hslot.even
  rw [State.write, hw] at h
  cases h
  refine ⟨⟨good_setSlot hi.good ?_, writerOk_store (fun i _ => hall i) ⟨?_, rfl, ?_⟩⟩,
    later_setSlot ?_⟩
  · rw [← hseq]
    exact hgood.bump
  · show ((s.slot p.ts).lock.stores + 1) % 2 = 1
    omega
  · rw [hsame, ← hslot.val]
    rfl
  · exact ⟨Nat.le_succ _, fun _ _ hsince => hsince.bump _, List.prefix_refl _⟩

/-- A field is stored. -/
theorem Recording.store {p : Packet} {seq0 : UInt32} {f : FieldStore} {rest : List FieldStore}
    (hi : Recording s) (hw : s.writer = .store p seq0 (f :: rest)) (h : s.write = some s') :
    Recording s' ∧ ∀ i, Later (s.arrivals i) (s'.arrivals i) := by
  have hok := hi.writer
  rw [WriterOk, hw] at hok
  obtain ⟨hothers, hwriting⟩ := hok
  have hgood : (s.slot p.ts).lock.Good := hi.good (arrivalSlot p.ts)
  rw [State.write, hw] at h
  cases h
  refine ⟨⟨good_setSlot hi.good (hgood.put _), writerOk_store hothers ?_⟩, later_setSlot ?_⟩
  · exact ⟨hwriting.odd, hwriting.seq, hwriting.val⟩
  · exact ⟨Nat.le_refl _, fun _ _ hsince => hsince.put hwriting.odd (FieldStore.apply · f),
      List.prefix_refl _⟩

/-- The counter is made even again, and the packet is recorded. -/
theorem Recording.closeSeq {p : Packet} {seq0 : UInt32} (hi : Recording s)
    (hw : s.writer = .store p seq0 []) (h : s.write = some s') :
    Recording s' ∧ ∀ i, Later (s.arrivals i) (s'.arrivals i) := by
  have hok := hi.writer
  rw [WriterOk, hw] at hok
  obtain ⟨hothers, hwriting⟩ := hok
  have hgood : (s.slot p.ts).lock.Good := hi.good (arrivalSlot p.ts)
  have hodd := hwriting.odd
  rw [State.write, hw] at h
  cases h
  refine ⟨⟨good_setSlot hi.good ?_, forall_setSlot hothers ⟨?_, ?_⟩⟩, later_setSlot ?_⟩
  · have hnext : seq0 + 2 = (s.slot p.ts).lock.seq + 1 := by
      rw [hwriting.seq, UInt32.add_assoc]
      rfl
    rw [hnext]
    exact hgood.bump
  · show ((s.slot p.ts).lock.stores + 1) % 2 = 0
    omega
  · rw [entry_concat, ← hwriting.val]
    rfl
  · exact ⟨Nat.le_succ _, fun _ _ hsince => hsince.bump _, List.prefix_append _ _⟩

/-- A step of the recording thread. -/
theorem Recording.write (hi : Recording s) (h : s.write = some s') :
    Recording s' ∧ ∀ i, Later (s.arrivals i) (s'.arrivals i) := by
  have hok := hi.writer
  cases hw : s.writer with
  | idle =>
    rw [State.write, hw] at h
    cases h
  | loadKey p =>
    rw [WriterOk, hw] at hok
    rw [State.write, hw] at h
    cases h
    exact ⟨⟨hi.good, hok, rfl⟩, fun i => Later.refl _⟩
  | loadSeq p sameFrame =>
    rw [WriterOk, hw] at hok
    rw [State.write, hw] at h
    cases h
    exact ⟨⟨hi.good, hok.1, hok.2, rfl⟩, fun i => Later.refl _⟩
  | openSeq p sameFrame seq0 => exact hi.openSeq hw h
  | store p seq0 rest =>
    cases rest with
    | nil => exact hi.closeSeq hw h
    | cons f rest => exact hi.store hw h

/-- A packet comes in, which no slot has yet. -/
theorem Recording.packet {p : Packet} (hi : Recording s) (h : s.packet p = some s') :
    Recording s' ∧ s'.arrivals = s.arrivals ∧ s'.readers = s.readers := by
  have hok := hi.writer
  rw [State.packet] at h
  split at h
  · next hw =>
    rw [WriterOk, hw] at hok
    split at h
    · cases h
    · split at h
      · cases h
        refine ⟨⟨hi.good, ?_⟩, rfl, rfl⟩
        rw [WriterOk, hw]
        exact hok
      · cases h
        exact ⟨⟨hi.good, hok⟩, rfl, rfl⟩
  · cases h

theorem even_committed (hi : Recording s) (ts : UInt32) (heven : (s.slot ts).lock.stores % 2 = 0) :
    Committed (s.slot ts) := by
  have hok := hi.writer
  rw [WriterOk] at hok
  cases hw : s.writer with
  | idle | loadKey p =>
    rw [hw] at hok
    exact hok _
  | loadSeq p sameFrame | openSeq p sameFrame seq0 =>
    rw [hw] at hok
    exact hok.1 _
  | store p seq0 rest =>
    rw [hw] at hok
    by_cases hslot : arrivalSlot ts = arrivalSlot p.ts
    · have hodd := hok.2.odd
      rw [State.slot, hslot] at heven
      rw [State.slot] at hodd
      omega
    · exact hok.1 _ hslot

/-! ## Lookups -/

/-- What an attempt knows of its slot, `P` being what it has read. -/
structure AttemptOk (x : Arrival) (t : Attempt) (P : Fields → Prop) : Prop where
  began : t.began ≤ t.since / 2
  s0 : t.s0 = UInt32.ofNat t.since
  read : x.lock.Since t.since P

def ReaderOk (x : Arrival) : Reader → Prop
  | .idle | .returned _ none => True
  | .seq _ _ began => began ≤ x.lock.stores / 2
  | .key t => AttemptOk x t fun _ => True
  | .first t => AttemptOk x t fun v => v.key = t.ts.toUInt64
  | .last t f => AttemptOk x t fun v => v.key = t.ts.toUInt64 ∧ v.first = f
  | .n t f l => AttemptOk x t fun v => (v.key = t.ts.toUInt64 ∧ v.first = f) ∧ v.last = l
  | .check t f l k =>
    AttemptOk x t fun v => ((v.key = t.ts.toUInt64 ∧ v.first = f) ∧ v.last = l) ∧ v.n = k
  | .returned ts (some (f, l, k)) =>
    ∃ log, log <+: x.log ∧ entry log = ⟨ts.toUInt64, f, l, k⟩

theorem AttemptOk.later {x x' : Arrival} {t : Attempt} {P : Fields → Prop} (h : AttemptOk x t P)
    (hlater : Later x x') : AttemptOk x' t P :=
  ⟨h.began, h.s0, hlater.since _ _ h.read⟩

theorem readerOk_later {x x' : Arrival} {rd : Reader} (h : ReaderOk x rd) (hlater : Later x x') :
    ReaderOk x' rd := by
  cases rd with
  | idle => trivial
  | seq ts attempt began =>
    have hbegan : began ≤ x.lock.stores / 2 := h
    exact Nat.le_trans hbegan (Nat.div_le_div_right hlater.stores)
  | key t | first t | last t f | n t f l | check t f l k => exact AttemptOk.later h hlater
  | returned ts result =>
    cases result with
    | none => trivial
    | some result =>
      obtain ⟨log, hlog, hentry⟩ := h
      exact ⟨log, hlog.trans hlater.log, hentry⟩

/-- Fewer than 2^31 writes have come to the slot since the lookup began. -/
def Reader.Few (x : Seqlock Fields) : Reader → Prop
  | .check t _ _ _ => x.stores / 2 < t.began + 2 ^ 31
  | _ => True

instance {x : Seqlock Fields} : (rd : Reader) → Decidable (rd.Few x)
  | .check t _ _ _ => Nat.decLt (x.stores / 2) (t.began + 2 ^ 31)
  | .idle | .seq _ _ _ | .key _ | .first _ | .last _ _ | .n _ _ _ | .returned _ _ => .isTrue trivial

theorem readerOk_retry {x : Arrival} {ts : UInt32} {attempt began : Nat}
    (h : began ≤ x.lock.stores / 2) : ReaderOk x (.retry ts attempt began) := by
  rw [Reader.retry]
  split
  · exact h
  · trivial

/-- A step of a lookup. -/
theorem readerOk_step {x : Arrival} {rd rd' : Reader} (hgood : x.lock.Good)
    (hcommitted : x.lock.stores % 2 = 0 → Committed x) (hfew : rd.Few x.lock)
    (hi : ReaderOk x rd) (h : rd.step x.lock = some rd') : ReaderOk x rd' := by
  cases rd with
  | idle => cases h
  | seq ts attempt began =>
    have hbegan : began ≤ x.lock.stores / 2 := hi
    rw [Reader.step] at h
    split at h
    · cases h
      exact readerOk_retry hbegan
    · next hseq =>
      cases h
      have heven := hgood.even.mp (not_not.mp hseq)
      exact ⟨hbegan, hgood, .start heven⟩
  | key t =>
    rw [Reader.step] at h
    split at h
    · cases h
      trivial
    · next hkey =>
      cases h
      have hread := hi.read.read Fields.key
      refine ⟨hi.began, hi.s0, ⟨hread.even, hread.le, fun heq => ?_⟩⟩
      exact (hread.holds heq).2.trans (not_not.mp hkey)
  | first t =>
    cases h
    exact ⟨hi.began, hi.s0, hi.read.read Fields.first⟩
  | last t f =>
    cases h
    exact ⟨hi.began, hi.s0, hi.read.read Fields.last⟩
  | n t f l =>
    cases h
    exact ⟨hi.began, hi.s0, hi.read.read Fields.n⟩
  | check t f l k =>
    rw [Reader.step] at h
    split at h
    · next hseq =>
      cases h
      have hbegan := hi.began
      have hwrites : x.lock.stores / 2 < t.began + 2 ^ 31 := hfew
      obtain ⟨hsame, ⟨⟨hkey, hfirst⟩, hlast⟩, hn⟩ :=
        hi.read.validate hgood (hseq.trans hi.s0) (by omega)
      have hval := (hcommitted (hsame ▸ hi.read.even)).val
      refine ⟨x.log, List.prefix_refl _, ?_⟩
      rw [← hval, ← hkey, ← hfirst, ← hlast, ← hn]
    · cases h
      have hle := hi.read.le
      have hbegan := hi.began
      exact readerOk_retry (by omega)
  | returned ts result => cases h

/-! ## Every interleaving -/

structure Coherent (s : State Thread) : Prop extends Recording s where
  readers : ∀ r ts, (s.readers r).ts? = some ts → ReaderOk (s.slot ts) (s.readers r)

/-- No lookup comes to compare the counter behind 2^31 writes. -/
def Few (s : State Thread) : RecvAct Thread → Prop
  | .read r => ∀ ts ∈ (s.readers r).ts?, (s.readers r).Few (s.slot ts).lock
  | _ => True

theorem Coherent.write (hi : Coherent s) (h : s.write = some s') : Coherent s' := by
  obtain ⟨hrecording, hlater⟩ := hi.toRecording.write h
  have hreaders : s'.readers = s.readers := by
    rw [State.write] at h
    split at h <;> cases h <;> rfl
  refine ⟨hrecording, fun r ts hts => ?_⟩
  rw [hreaders] at hts ⊢
  exact readerOk_later (hi.readers r ts hts) (hlater _)

theorem Coherent.packet {p : Packet} (hi : Coherent s) (h : s.packet p = some s') :
    Coherent s' := by
  obtain ⟨hrecording, harrivals, hreaders⟩ := hi.toRecording.packet h
  refine ⟨hrecording, fun r ts hts => ?_⟩
  rw [hreaders] at hts ⊢
  rw [State.slot, harrivals]
  exact hi.readers r ts hts

variable [DecidableEq Thread]

theorem Coherent.setReader {r : Thread} {rd : Reader} {ts : UInt32} (hi : Coherent s)
    (hts : rd.ts? = some ts) (hrd : ReaderOk (s.slot ts) rd) : Coherent (s.setReader r rd) := by
  refine ⟨⟨hi.good, hi.writer⟩, fun r' ts' hts' => ?_⟩
  by_cases hr : r' = r
  · subst hr
    have hself : (s.setReader r' rd).readers r' = rd := Function.update_self _ _ _
    rw [hself] at hts' ⊢
    cases hts.symm.trans hts'
    exact hrd
  · have hother : (s.setReader r rd).readers r' = s.readers r' := Function.update_of_ne hr _ _
    rw [hother] at hts' ⊢
    exact hi.readers r' ts' hts'

theorem ts?_retry (ts : UInt32) (attempt began : Nat) :
    (Reader.retry ts attempt began).ts? = some ts := by
  rw [Reader.retry]
  split <;> rfl

theorem ts?_step {x : Seqlock Fields} {rd rd' : Reader} (h : rd.step x = some rd') :
    rd'.ts? = rd.ts? := by
  cases rd with
  | idle | returned => cases h
  | seq ts attempt began =>
    rw [Reader.step] at h
    split at h <;> cases h
    · exact ts?_retry ts attempt began
    · rfl
  | check t f l k =>
    rw [Reader.step] at h
    split at h <;> cases h
    · rfl
    · exact ts?_retry t.ts t.attempt t.began
  | key =>
    rw [Reader.step] at h
    split at h <;> cases h <;> rfl
  | first | last | n =>
    cases h
    rfl

theorem Coherent.lookup {r : Thread} {ts : UInt32} (hi : Coherent s)
    (h : s.lookup r ts = some s') : Coherent s' := by
  rw [State.lookup] at h
  have hbegan : ReaderOk (s.slot ts) (.seq ts 0 ((s.slot ts).lock.stores / 2)) := Nat.le_refl _
  split at h
  · cases h
    exact hi.setReader rfl hbegan
  · cases h
    exact hi.setReader rfl hbegan
  · cases h

theorem Coherent.read {r : Thread} (hi : Coherent s) (hfew : Few s (.read r))
    (h : s.read r = some s') : Coherent s' := by
  obtain ⟨ts, hts, h⟩ := Option.bind_eq_some_iff.mp h
  obtain ⟨rd, hrd, rfl⟩ := Option.map_eq_some_iff.mp h
  apply hi.setReader ((ts?_step hrd).trans hts)
  exact readerOk_step (hi.good _) (even_committed hi.toRecording ts) (hfew ts hts)
    (hi.readers r ts hts) hrd

theorem reachable_coherent (h : (receiver Thread).ReachableBy Few s) : Coherent s := by
  apply h.invariant
  · refine ⟨⟨fun _ => rfl, fun _ => ⟨rfl, rfl⟩⟩, fun r ts hts => ?_⟩
    cases hts
  · intro s a s' hi hfew hstep
    cases a with
    | announce ssrc =>
      cases hstep
      exact ⟨⟨hi.good, hi.writer⟩, hi.readers⟩
    | packet p => exact hi.packet hstep
    | write => exact hi.write hstep
    | lookup r ts => exact hi.lookup hstep
    | read r => exact hi.read hfew hstep

/-- A lookup that has returned true gave the summary of the frame's packets as it was
after some completed write. -/
theorem lookupArrival_coherent (h : (receiver Thread).ReachableBy Few s) {r : Thread}
    {ts : UInt32} {first last n : Nat}
    (hr : s.readers r = .returned ts (some (first, last, n))) :
    ∃ before run after, (s.slot ts).log = before ++ run ++ after ∧
      Summary ts before run ⟨ts.toUInt64, first, last, n⟩ := by
  have hreader := (reachable_coherent h).readers r ts (by rw [hr]; rfl)
  rw [hr] at hreader
  obtain ⟨log, ⟨after, hlog⟩, hentry⟩ := hreader
  have hkey : (entry log).key = ts.toUInt64 := by rw [hentry]
  obtain ⟨before, run, heq, hsum⟩ := summary_of_key hkey
  refine ⟨before, run, after, ?_, ?_⟩
  · rw [← hlog, heq]
  · rw [← hentry]
    exact hsum

instance : (a : RecvAct Thread) → Decidable (Few s a)
  | .read r =>
    decidable_of_iff
      ((s.readers r).ts?.all fun ts => (s.readers r).Few (s.slot ts).lock)
      (by simp [Few, Option.all_eq_true])
  | .announce _ | .packet _ | .write | .lookup _ _ => .isTrue trivial

/-- A lookup that a write comes between, and that succeeds with its second attempt. -/
def retryRun : List (RecvAct Unit) :=
  [RecvAct.announce 7, .packet ⟨7, 900, 5⟩] ++ List.replicate 8 RecvAct.write ++
    [RecvAct.lookup () 900, .read (), .read (), .read (), .packet ⟨7, 900, 6⟩] ++
    List.replicate 7 RecvAct.write ++ List.replicate 9 (RecvAct.read ())

theorem lookupArrival_coherent_retryRun :
    ∃ s : State Unit, (receiver Unit).ReachableBy Few s ∧
      ∃ before run after, (s.slot 900).log = before ++ run ++ after ∧
        Summary 900 before run ⟨900, 5, 6, 2⟩ := by
  obtain ⟨s, hreach, hend⟩ := (receiver Unit).exists_of_execBy (G := Few) retryRun
    (P := fun s => s.readers () = .returned 900 (some (5, 6, 2))) (by decide +kernel)
  exact ⟨s, hreach, lookupArrival_coherent hreach hend⟩

end Receiver
end Gst
end P5G
