import P5G.Control.Dispatch
import P5G.Control.Messages

/-!
# What a registration tells

A register call sends inside a loop over a table that other handlers may change
while it is suspended.  `Told` says of every sender and every receiver in one
session that the sender has been told of the receiver, or that the loop of one
of the two will still come to it, unless a key has come into the table or gone
from it since the loop began.
-/

namespace P5G
namespace Control

variable {Conn : Type*} [DecidableEq Conn] {env : Env Conn} {s s' : State Conn} {c : Conn}

def Phase.error : Phase → Option PyError
  | .closed e => e
  | _ => none

/-- No handler is under way: each has ended or waits for a line. -/
def Phase.Idle : Phase → Prop
  | .sending | .looping _ => False
  | _ => True

instance : DecidablePred Phase.Idle
  | .sending | .looping _ => isFalse id
  | .absent | .reading | .closed _ => isTrue trivial

/-- A suspended register call goes on only if no key has come or gone in the
table it iterates since it began, and its send raises nothing. -/
def undisturbed (s : State Conn) : Act Conn → Bool
  | .resume c _ =>
    match s.phases c with
    | .looping l => l.edits = s.tableEdits l
    | _ => true
  | .sendRaises c =>
    match s.phases c with
    | .looping _ => false
    | _ => true
  | _ => true

/-- A well-formed register call of `c` is under way, or the step begins one. -/
def Registering (env : Env Conn) (s : State Conn) (c : Conn) (a : Act Conn) : Prop :=
  (∃ l, s.phases c = .looping l) ∨ ∃ msg peer, a = .line c msg ∧ registration env msg = some peer

/-- The server has tried to tell a sender of a receiver. -/
def Said (s : State Conn) (dest : Conn) (rid : Key) (info : Info) : Prop :=
  ∃ x ∈ s.sent, x.dest = dest ∧ x.out = .ready rid info

/-- The loop of a new sender will still come to a receiver. -/
def Hearing (s : State Conn) (name : Key) (c : Conn) (rid : Key) (e : Conn × Info) : Prop :=
  ∃ l, s.phases c = .looping l ∧ l.session = name ∧ l.kind = .hear ∧
    (l.edits = (s.sessions name).receivers.edits →
      ∃ i, l.pos ≤ i ∧ (s.sessions name).receivers.entries[i]? = some (rid, e))

/-- The loop of a new receiver will still come to a sender. -/
def Announcing (s : State Conn) (name k : Key) (c : Conn) (rid : Key) (e : Conn × Info) : Prop :=
  ∃ l, s.phases e.1 = .looping l ∧ l.session = name ∧ l.kind = .announce rid e.2 ∧
    (l.edits = (s.sessions name).senders.edits →
      ∃ i, l.pos ≤ i ∧ (s.sessions name).senders.entries[i]? = some (k, c))

def Covered (s : State Conn) (name k : Key) (c : Conn) (rid : Key) (e : Conn × Info) : Prop :=
  Said s c rid e.2 ∨ Hearing s name c rid e ∨ Announcing s name k c rid e

structure Told (s : State Conn) : Prop where
  covered : ∀ name k c rid e, (s.sessions name).senders.get? k = some c →
    (s.sessions name).receivers.get? rid = some e → Covered s name k c rid e
  behind : ∀ c l, s.phases c = .looping l → l.edits ≤ s.tableEdits l
  error : ∀ c, (s.phases c).error ≠ some .dictChanged

/-! ## Steps that register nothing -/

/-- The tables only lose entries, and no loop begins or ends. -/
structure Quiet (s s' : State Conn) : Prop where
  sent : ∀ x ∈ s.sent, x ∈ s'.sent
  senders : ∀ n, (s.sessions n).senders.Stable (s'.sessions n).senders
  receivers : ∀ n, (s.sessions n).receivers.Stable (s'.sessions n).receivers
  sender : ∀ n k c, (s'.sessions n).senders.get? k = some c →
    (s.sessions n).senders.get? k = some c
  receiver : ∀ n k e, (s'.sessions n).receivers.get? k = some e →
    (s.sessions n).receivers.get? k = some e
  loops : ∀ c l, s'.phases c = .looping l ↔ s.phases c = .looping l

omit [DecidableEq Conn] in
theorem tableEdits_le (hs : ∀ n, (s.sessions n).senders.edits ≤ (s'.sessions n).senders.edits)
    (hr : ∀ n, (s.sessions n).receivers.edits ≤ (s'.sessions n).receivers.edits) (l : Loop) :
    s.tableEdits l ≤ s'.tableEdits l := by
  unfold State.tableEdits
  cases l.kind with
  | hear => exact hr _
  | announce rid info => exact hs _

omit [DecidableEq Conn] in
theorem Said.mono (h : ∀ x ∈ s.sent, x ∈ s'.sent) {rid : Key} {info : Info}
    (hs : Said s c rid info) : Said s' c rid info := by
  obtain ⟨x, hx, hd, ho⟩ := hs
  exact ⟨x, h x hx, hd, ho⟩

omit [DecidableEq Conn] in
/-- What was covered stays covered when every loop goes on and both entries are
still there. -/
theorem Covered.frame (hb : ∀ c l, s.phases c = .looping l → l.edits ≤ s.tableEdits l)
    (hsent : ∀ x ∈ s.sent, x ∈ s'.sent)
    (hs : ∀ n, (s.sessions n).senders.Stable (s'.sessions n).senders)
    (hr : ∀ n, (s.sessions n).receivers.Stable (s'.sessions n).receivers)
    (hloops : ∀ c l, s.phases c = .looping l → s'.phases c = .looping l)
    {name k rid : Key} {e : Conn × Info} (h : Covered s name k c rid e)
    (hk : (s'.sessions name).senders.get? k = some c)
    (hrid : (s'.sessions name).receivers.get? rid = some e) : Covered s' name k c rid e := by
  rcases h with hsaid | ⟨l, hl, hn, hkind, hahead⟩ | ⟨l, hl, hn, hkind, hahead⟩
  · exact .inl (hsaid.mono hsent)
  · refine .inr (.inl ⟨l, hloops _ l hl, hn, hkind, fun he => ?_⟩)
    have hle : l.edits ≤ (s.sessions name).receivers.edits := by
      have := hb _ l hl
      rwa [State.tableEdits, hkind, hn] at this
    have hle' := (hr name).edits
    obtain ⟨i, hi, hget⟩ := hahead (by omega)
    exact ⟨i, hi, (hr name).entry (by omega) hget hrid⟩
  · refine .inr (.inr ⟨l, hloops _ l hl, hn, hkind, fun he => ?_⟩)
    have hle : l.edits ≤ (s.sessions name).senders.edits := by
      have := hb _ l hl
      rwa [State.tableEdits, hkind, hn] at this
    have hle' := (hs name).edits
    obtain ⟨i, hi, hget⟩ := hahead (by omega)
    exact ⟨i, hi, (hs name).entry (by omega) hget hk⟩

namespace Quiet

omit [DecidableEq Conn] in
/-- The tables are what they were. -/
theorem of_tables (hsent : ∀ x ∈ s.sent, x ∈ s'.sent)
    (hs : ∀ n, (s'.sessions n).senders = (s.sessions n).senders)
    (hr : ∀ n, (s'.sessions n).receivers = (s.sessions n).receivers)
    (hl : ∀ c l, s'.phases c = .looping l ↔ s.phases c = .looping l) : Quiet s s' := by
  refine ⟨hsent, fun n => ?_, fun n => ?_, fun n k c hk => ?_, fun n k e hk => ?_, hl⟩
  · rw [hs n]; exact .refl _
  · rw [hr n]; exact .refl _
  · rwa [hs n] at hk
  · rwa [hr n] at hk

omit [DecidableEq Conn] in
theorem trans {t : State Conn} (h : Quiet s s') (h' : Quiet s' t) : Quiet s t :=
  ⟨fun x hx => h'.sent x (h.sent x hx), fun n => (h.senders n).trans (h'.senders n),
    fun n => (h.receivers n).trans (h'.receivers n),
    fun n k c hk => h.sender n k c (h'.sender n k c hk),
    fun n k e hk => h.receiver n k e (h'.receiver n k e hk),
    fun c l => (h'.loops c l).trans (h.loops c l)⟩

theorem unregister (c : Conn) : Quiet s (s.unregister c) := by
  refine ⟨fun x hx => ?_, fun n => State.senders_unregister_stable n,
    fun n => State.receivers_unregister_stable n,
    fun n k c hk => (State.senders_of_unregister hk).1,
    fun n k e hk => (State.receivers_of_unregister hk).1, fun c l => ?_⟩
  · rwa [State.sent_unregister]
  · rw [State.phases_unregister]

theorem setPhase {p : Phase} (hp : ∀ l, p ≠ .looping l) (hc : ∀ l, s.phases c ≠ .looping l) :
    Quiet s (s.setPhase c p) := by
  refine of_tables (fun _ hx => hx) (fun _ => rfl) (fun _ => rfl) (fun c' l => ?_)
  rw [State.phases_setPhase]
  split
  · next heq =>
    subst heq
    exact ⟨fun h => absurd h (hp l), fun h => absurd h (hc l)⟩
  · exact Iff.rfl

theorem close (hc : ∀ l, s.phases c ≠ .looping l) (e : Option PyError) : Quiet s (s.close c e) :=
  (unregister c).trans (setPhase (fun _ => nofun) (by rwa [State.phases_unregister]))

omit [DecidableEq Conn] in
theorem send (dest : Conn) (out : Out) : Quiet s (s.send c dest out) :=
  of_tables (fun _ hx => List.mem_append_left _ hx) (fun _ => rfl) (fun _ => rfl)
    (fun _ _ => Iff.rfl)

theorem dropHolder (name : Key) (old : Option Conn) : Quiet s (s.dropHolder name old) :=
  of_tables (fun _ hx => by rwa [State.sent_dropHolder]) State.senders_dropHolder
    State.receivers_dropHolder (fun c l => by rw [State.phases_dropHolder])

omit [DecidableEq Conn] in
theorem popPending (name stream : Key) : Quiet s (s.popPending name stream) :=
  of_tables (fun _ hx => hx) State.senders_popPending State.receivers_popPending
    (fun _ _ => Iff.rfl)

omit [DecidableEq Conn] in
theorem handOver (name stream : Key) (recv : Conn) (host : String) (msg : Fields) :
    Quiet s (s.handOver c name stream recv host msg) :=
  of_tables (fun _ hx => List.mem_append_left _ hx) State.senders_handOver
    State.receivers_handOver (fun _ _ => Iff.rfl)

omit [DecidableEq Conn] in
theorem told (hq : Quiet s s') (h : Told s)
    (herr : ∀ c, (s'.phases c).error ≠ some .dictChanged) : Told s' := by
  refine ⟨fun name k c rid e hk hrid => ?_, fun c l hl => ?_, herr⟩
  · exact (h.covered name k c rid e (hq.sender _ _ _ hk) (hq.receiver _ _ _ hrid)).frame h.behind
      hq.sent hq.senders hq.receivers (fun c l => (hq.loops c l).mpr) hk hrid
  · exact Nat.le_trans (h.behind c l ((hq.loops c l).mp hl))
      (tableEdits_le (fun n => (hq.senders n).edits) (fun n => (hq.receivers n).edits) l)

end Quiet
/-! ## A turn of a loop -/

def ComesTo (s : State Conn) (c : Conn) (l : Loop) (j : Nat) (name k : Key) (dest : Conn)
    (rid : Key) (e : Conn × Info) : Prop :=
  l.session = name ∧
    ((l.kind = .hear ∧ dest = c ∧ (s.sessions name).receivers.entries[j]? = some (rid, e)) ∨
      (l.kind = .announce rid e.2 ∧ e.1 = c ∧
        (s.sessions name).senders.entries[j]? = some (k, dest)))

omit [DecidableEq Conn] in
theorem ComesTo.target {l : Loop} {j : Nat} {name k rid : Key} {dest : Conn} {e : Conn × Info}
    (h : ComesTo s c l j name k dest rid e) : (s.targets c l)[j]? = some (dest, rid, e.2) := by
  obtain ⟨rfl, ⟨hkind, rfl, he⟩ | ⟨hkind, -, he⟩⟩ := h
  · rw [State.targets, hkind]
    simp [he]
  · rw [State.targets, hkind]
    simp [he]

omit [DecidableEq Conn] in
/-- A loop that stands before a pair covers it. -/
theorem ComesTo.covered {l : Loop} {j : Nat} {name k rid : Key} {dest : Conn} {e : Conn × Info}
    (h : ComesTo s c l j name k dest rid e) (hc : s.phases c = .looping l) (hj : l.pos ≤ j) :
    Covered s name k dest rid e := by
  obtain ⟨hn, ⟨hkind, rfl, he⟩ | ⟨hkind, rfl, he⟩⟩ := h
  · exact .inr (.inl ⟨l, hc, hn, hkind, fun _ => ⟨j, hj, he⟩⟩)
  · exact .inr (.inr ⟨l, hc, hn, hkind, fun _ => ⟨j, hj, he⟩⟩)

/-- A turn keeps what is covered when the loop has the rest before it. -/
theorem visit_told {l : Loop} {i : Nat} (hl : l.edits = s.tableEdits l)
    (hcov : ∀ name k dest rid e, (s.sessions name).senders.get? k = some dest →
      (s.sessions name).receivers.get? rid = some e →
      Covered (s.setPhase c .reading) name k dest rid e ∨
        ∃ j, i ≤ j ∧ ComesTo s c l j name k dest rid e)
    (hbehind : ∀ c' l', c' ≠ c → s.phases c' = .looping l' → l'.edits ≤ s.tableEdits l')
    (herr : ∀ c', c' ≠ c → (s.phases c').error ≠ some .dictChanged) :
    Told (State.finish c (s.visit c l i)) := by
  rcases visit_cases s c l i with ⟨hnone, hv⟩ | ⟨dest, rid, info, hsome, hv⟩
  · rw [hv]
    refine ⟨fun name k d rid e hk hrid => ?_, fun c' l' hl' => ?_, fun c' => ?_⟩
    · rcases hcov name k d rid e hk hrid with hc | ⟨j, hj, hto⟩
      · exact hc
      · have := (List.getElem?_eq_some_iff.mp hto.target).1
        have := List.getElem?_eq_none_iff.mp hnone
        omega
    · simp only [State.finish, State.phases_setPhase] at hl'
      split at hl'
      · cases hl'
      · next hne => exact hbehind c' l' hne hl'
    · simp only [State.finish, State.phases_setPhase]
      split
      · exact nofun
      · next hne => exact herr c' hne
  · rw [hv]
    set t := State.finish c (s.send c dest (.ready rid info), .looping { l with pos := i + 1 })
      with ht
    have hphase : t.phases c = .looping { l with pos := i + 1 } := by
      simp [ht, State.finish]
    have hphases {c' : Conn} (hne : c' ≠ c) : t.phases c' = s.phases c' := by
      simp [ht, State.finish, hne]
    refine ⟨fun name k d rid' e hk hrid => ?_, fun c' l' hl' => ?_, fun c' => ?_⟩
    · rcases hcov name k d rid' e hk hrid with hc | ⟨j, hj, hto⟩
      · -- the other loops are where they were
        have hother {c' : Conn} {l' : Loop}
            (hl' : (s.setPhase c .reading).phases c' = .looping l') : t.phases c' = .looping l' := by
          rw [State.phases_setPhase] at hl'
          split at hl'
          · cases hl'
          · next hne => rw [hphases hne, hl']
        refine hc.imp (Said.mono (fun x hx => List.mem_append_left _ hx)) (Or.imp ?_ ?_)
        · exact fun ⟨l', hl', hrest⟩ => ⟨l', hother hl', hrest⟩
        · exact fun ⟨l', hl', hrest⟩ => ⟨l', hother hl', hrest⟩
      · by_cases hji : j = i
        · have htarget := hto.target
          rw [hji, hsome] at htarget
          cases htarget
          exact .inl ⟨_, List.mem_append_right _ (List.mem_singleton.mpr rfl), rfl, rfl⟩
        · have hto' : ComesTo t c { l with pos := i + 1 } j name k d rid' e := hto
          exact hto'.covered hphase (show i + 1 ≤ j by omega)
    · by_cases hne : c' = c
      · subst hne
        rw [hphase] at hl'
        cases hl'
        exact Nat.le_of_eq hl
      · rw [hphases hne] at hl'
        exact hbehind c' l' hne hl'
    · by_cases hne : c' = c
      · rw [hne, hphase]
        exact nofun
      · rw [hphases hne]
        exact herr c' hne

/-- A registration begins a loop over everything its connection is new to. -/
theorem Told.start (h : Told s) (hc : ∀ l, s.phases c ≠ .looping l) {name : Key} {kind : LoopKind}
    (hsent : s'.sent = s.sent)
    (hs : ∀ n, (s.sessions n).senders.Stable (s'.sessions n).senders)
    (hr : ∀ n, (s.sessions n).receivers.Stable (s'.sessions n).receivers)
    (hphases : s'.phases = s.phases)
    (hnew : ∀ n k dest rid e, (s'.sessions n).senders.get? k = some dest →
      (s'.sessions n).receivers.get? rid = some e →
      ((s.sessions n).senders.get? k = some dest ∧ (s.sessions n).receivers.get? rid = some e) ∨
        name = n ∧ ((kind = .hear ∧ dest = c) ∨ (kind = .announce rid e.2 ∧ e.1 = c))) :
    Told (State.finish c (s'.startLoop c name kind)) := by
  refine visit_told rfl (fun n k dest rid e hk hrid => ?_) (fun c' l hne hl => ?_)
    (fun c' hne => ?_)
  · rcases hnew n k dest rid e hk hrid with ⟨hk', hrid'⟩ | ⟨hn, ⟨hkind, rfl⟩ | ⟨hkind, rfl⟩⟩
    · have hbefore := h.covered n k dest rid e hk' hrid'
      refine .inl (@Covered.frame _ s (s'.setPhase c .reading) _ h.behind (fun x hx => ?_) hs hr
        (fun c' l hl => ?_) n k rid e hbefore hk hrid)
      · rw [← hsent] at hx
        exact hx
      · rw [State.phases_setPhase, if_neg ?_, hphases, hl]
        rintro rfl
        exact hc l hl
    · obtain ⟨i, hi⟩ := Dict.exists_getElem? hrid
      exact .inr ⟨i, Nat.zero_le i, hn, .inl ⟨hkind, rfl, hi⟩⟩
    · obtain ⟨i, hi⟩ := Dict.exists_getElem? hk
      exact .inr ⟨i, Nat.zero_le i, hn, .inr ⟨hkind, rfl, hi⟩⟩
  · rw [hphases] at hl
    exact Nat.le_trans (h.behind c' l hl)
      (tableEdits_le (fun n => (hs n).edits) (fun n => (hr n).edits) l)
  · rw [hphases]
    exact h.error c'

/-- A loop over a table that was not edited goes on. -/
theorem Told.turn (h : Told s) {l : Loop} (hl : s.phases c = .looping l)
    (he : l.edits = s.tableEdits l) : Told (State.finish c (s.visit c l l.pos)) := by
  refine visit_told he (fun n k dest rid e hk hrid => ?_) (fun c' l' _ hl' => h.behind c' l' hl')
    (fun c' _ => h.error c')
  have hother {c' : Conn} {l' : Loop} (hne : c' ≠ c) (hl' : s.phases c' = .looping l') :
      (s.setPhase c .reading).phases c' = .looping l' := by
    rw [State.phases_setPhase, if_neg hne, hl']
  rcases h.covered n k dest rid e hk hrid with hsaid | ⟨l', hl', hn, hkind, hahead⟩ |
    ⟨l', hl', hn, hkind, hahead⟩
  · exact .inl (.inl hsaid)
  · by_cases hne : dest = c
    · subst hne
      rw [hl] at hl'
      cases hl'
      rw [State.tableEdits, hkind, hn] at he
      obtain ⟨i, hi, hget⟩ := hahead he
      exact .inr ⟨i, hi, hn, .inl ⟨hkind, rfl, hget⟩⟩
    · exact .inl (.inr (.inl ⟨l', hother hne hl', hn, hkind, hahead⟩))
  · by_cases hne : e.1 = c
    · rw [hne, hl] at hl'
      cases hl'
      rw [State.tableEdits, hkind, hn] at he
      obtain ⟨i, hi, hget⟩ := hahead he
      exact .inr ⟨i, hi, hn, .inr ⟨hkind, hne, hget⟩⟩
    · exact .inl (.inr (.inr ⟨l', hother hne hl', hn, hkind, hahead⟩))

/-! ## Steps -/

theorem Told.setPhase (h : Told s) {p : Phase} (hp : ∀ l, p ≠ .looping l)
    (hc : ∀ l, s.phases c ≠ .looping l) (he : p.error ≠ some .dictChanged) :
    Told (s.setPhase c p) := by
  refine (Quiet.setPhase hp hc).told h fun c' => ?_
  rw [State.phases_setPhase]
  split
  · exact he
  · exact h.error c'

/-- A connection ends that was in no loop. -/
theorem Told.close (h : Told s) (hc : ∀ l, s.phases c ≠ .looping l) {e : Option PyError}
    (he : e ≠ some .dictChanged) : Told (s.close c e) := by
  refine (Quiet.close hc e).told h fun c' => ?_
  rw [State.close, State.phases_setPhase, State.phases_unregister]
  split
  · exact he
  · exact h.error c'

theorem Told.line (h : Told s) (hc : ∀ l, s.phases c ≠ .looping l) {msg : Json}
    {r : State Conn × Next} (hd : Dispatched env s c msg r) : Told (State.finish c r) := by
  -- a dispatch without a registration leaves the loops to go on
  have quiet {t : State Conn} (hq : Quiet s t) (hp : t.phases = s.phases) :
      Told (State.finish c (t, .reading)) ∧ Told (State.finish c (t, .sending)) ∧
        ∀ e, e ≠ .dictChanged → Told (State.finish c (t, .raised e)) := by
    have hct : ∀ l, t.phases c ≠ .looping l := by rwa [hp]
    have ht : Told t := hq.told h (fun c' => by rw [hp]; exact h.error c')
    exact ⟨ht.setPhase (fun _ => nofun) hct nofun, ht.setPhase (fun _ => nofun) hct nofun,
      fun e he => ht.close hct (fun hraised => he (Option.some.inj hraised))⟩
  cases hd with
  | raised e he => exact (quiet (.of_tables (fun _ hx => hx) (fun _ => rfl) (fun _ => rfl)
      (fun _ _ => Iff.rfl)) rfl).2.2 e he
  | ignored => exact (quiet (.of_tables (fun _ hx => hx) (fun _ => rfl) (fun _ => rfl)
      (fun _ _ => Iff.rfl)) rfl).1
  | deliver dest out => exact (quiet (.send dest out) rfl).2.1
  | sender name stream =>
    refine h.start hc ?_ (fun n => ?_) (fun n => ?_) ?_ (fun n k dest rid e hk hrid => ?_)
    · rw [State.sent_setSender, State.sent_dropHolder]
    · rw [State.senders_setSender, State.senders_dropHolder]
      split
      · exact .set
      · exact .refl _
    · rw [State.receivers_setSender, State.receivers_dropHolder]
      exact .refl _
    · rw [State.phases_setSender, State.phases_dropHolder]
    · rw [State.senders_setSender, State.senders_dropHolder] at hk
      rw [State.receivers_setSender, State.receivers_dropHolder] at hrid
      split at hk
      · next hn =>
        by_cases hks : k = stream
        · subst hks
          rw [Dict.get?_set_self] at hk
          exact .inr ⟨hn.symm, .inl ⟨rfl, (Option.some.inj hk).symm⟩⟩
        · rw [Dict.get?_set_ne hks] at hk
          exact .inl ⟨hk, hrid⟩
      · exact .inl ⟨hk, hrid⟩
  | badPorts name rid e he => exact (quiet (.dropHolder _ _) State.phases_dropHolder).2.2 e he
  | receiver name rid info =>
    refine h.start hc ?_ (fun n => ?_) (fun n => ?_) ?_ (fun n k dest rid' e hk hrid => ?_)
    · rw [State.sent_setReceiver, State.sent_dropHolder]
    · rw [State.senders_setReceiver, State.senders_dropHolder]
      exact .refl _
    · rw [State.receivers_setReceiver, State.receivers_dropHolder]
      split
      · exact .set
      · exact .refl _
    · rw [State.phases_setReceiver, State.phases_dropHolder]
    · rw [State.senders_setReceiver, State.senders_dropHolder] at hk
      rw [State.receivers_setReceiver, State.receivers_dropHolder] at hrid
      split at hrid
      · next hn =>
        by_cases hks : rid' = rid
        · subst hks
          rw [Dict.get?_set_self] at hrid
          cases hrid
          exact .inr ⟨hn.symm, .inr ⟨rfl, rfl⟩⟩
        · rw [Dict.get?_set_ne hks] at hrid
          exact .inl ⟨hk, hrid⟩
      · exact .inl ⟨hk, hrid⟩
  | start peer rid recv info host fields => exact (quiet (.handOver _ _ _ _ _) rfl).2.1
  | forward peer stream p fields => exact (quiet ((Quiet.popPending _ _).trans (.send _ _)) rfl).2.1
  | senderGone peer stream => exact (quiet (.popPending _ _) rfl).1

theorem Told.step (h : Told s) {a : Act Conn} (hok : undisturbed s a = true)
    (hstep : s.step env a = some s') : Told s' := by
  cases step_cases hstep with
  | accept c hp => exact h.setPhase (fun _ => nofun) (by rw [hp]; exact fun _ => nofun) nofun
  | line c msg r hp hd => exact h.line (by rw [hp]; exact fun _ => nofun) hd
  | badLine c => exact h
  | eof c hp => exact h.close (by rw [hp]; exact fun _ => nofun) (by decide)
  | sent c choice hp => exact h.setPhase (fun _ => nofun) (by rw [hp]; exact fun _ => nofun) nofun
  | turn c choice l r hp ht =>
    have he : l.edits = s.tableEdits l := by
      simpa [undisturbed, hp] using hok
    cases ht with
    | next => exact h.turn hp he
    | raised hne => exact absurd he hne
    | stopped hne => exact absurd he hne
    | visited hne => exact absurd he hne
  | sendRaised c hp =>
    have hc : ∀ l, s.phases c ≠ .looping l := by
      intro l hl
      simp [undisturbed, hl] at hok
    exact h.close hc (by decide)

/-- A turn of a loop ends its handler with no exception. -/
theorem visit_error {l : Loop} {i : Nat} :
    ((State.finish c (s.visit c l i)).phases c).error = none := by
  rcases visit_cases s c l i with ⟨-, hv⟩ | ⟨dest, rid, info, -, hv⟩
  · rw [hv, State.finish, State.phases_setPhase, if_pos rfl]
    rfl
  · rw [hv, State.finish, State.phases_setPhase, if_pos rfl]
    rfl

/-- No step that meets the condition ends a register call in an exception. -/
theorem register_goes_on {a : Act Conn} (hok : undisturbed s a = true)
    (hstep : s.step env a = some s') (hreg : Registering env s c a) : (s'.phases c).error = none := by
  rcases hreg with ⟨l, hl⟩ | ⟨msg, peer, rfl, hpeer⟩
  · by_cases hc : c = a.conn
    · cases step_cases hstep with
      | turn c' choice l' r hl' ht =>
        obtain rfl : c = c' := hc
        have he : l'.edits = s.tableEdits l' := by
          simpa [undisturbed, hl'] using hok
        cases ht with
        | next => exact visit_error
        | raised hne => exact absurd he hne
        | stopped hne => exact absurd he hne
        | visited hne => exact absurd he hne
      | sendRaised c' =>
        obtain rfl : c = c' := hc
        simp [undisturbed, hl] at hok
      | accept c' hp | line c' _ _ hp | badLine c' hp | eof c' hp | sent c' _ hp =>
        obtain rfl : c = c' := hc
        rw [hp] at hl
        cases hl
    · rw [step_phases_ne hstep hc, hl]
      rfl
  · simp only [State.step] at hstep
    split at hstep
    · cases hstep
      rcases dispatch_of_registration (s := s) (c := c) hpeer with ⟨-, hd⟩ | ⟨-, info, hd⟩
      · rw [hd]
        exact visit_error
      · rw [hd]
        exact visit_error
    · cases hstep

/-- In a run in which no key comes or goes in a table while a register call that
iterates it is suspended, and in which no send of such a call raises, no register
call ends in an exception, and once no handler is under way every registered
sender has been told of every registered receiver of its session. -/
theorem everybody_told (h : (server env).ReachableBy (fun s a => undisturbed s a = true) s) :
    (∀ c, (s.phases c).error ≠ some .dictChanged) ∧
      (∀ a s', undisturbed s a = true → (server env).step s a = some s' →
        ∀ c, Registering env s c a → (s'.phases c).error = none) ∧
      ((∀ c, (s.phases c).Idle) → ∀ name k c rid e, (s.sessions name).senders.get? k = some c →
        (s.sessions name).receivers.get? rid = some e → Said s c rid e.2) := by
  have htold : Told s := h.invariant ⟨nofun, nofun, nofun⟩ (fun _ _ _ hi hok hs => hi.step hok hs)
  refine ⟨htold.error, fun a s' hok hstep c => register_goes_on hok hstep,
    fun hidle name k c rid e hk hrid => ?_⟩
  rcases htold.covered name k c rid e hk hrid with hsaid | ⟨l, hl, -⟩ | ⟨l, hl, -⟩
  · exact hsaid
  · have := hidle c
    rw [hl] at this
    exact this.elim
  · have := hidle e.1
    rw [hl] at this
    exact this.elim

theorem everybody_told_upToStart : ∃ s : State (Fin 3),
    (server defaultEnv).ReachableBy (fun s a => undisturbed s a = true) s ∧
      ∃ info, Said s 1 (.str "recv0") info ∧ info.rtpPort = 5000 ∧ info.rtcpPort = 5001 := by
  obtain ⟨s, hrun, hidle, hk, e, hrid, hports⟩ := Machine.exists_of_execBy (m := server defaultEnv)
    (G := fun s a => undisturbed s a = true) upToStart
    (P := fun s : State (Fin 3) => (∀ c, (s.phases c).Idle) ∧
      (s.sessions (.str "s1")).senders.get? (.str "cam0") = some 1 ∧
      ∃ e ∈ (s.sessions (.str "s1")).receivers.get? (.str "recv0"),
        e.2.rtpPort = 5000 ∧ e.2.rtcpPort = 5001) (by decide +kernel)
  exact ⟨s, hrun, e.2, (everybody_told hrun).2.2 hidle _ _ _ _ _ hk hrid, hports⟩

/-- A second sender registers while the announcement of a receiver to the first
is under way: the register call of the receiver ends in the exception. -/
theorem announcement_interrupted : ¬ ∀ s : State (Fin 3), (server defaultEnv).Reachable s →
    (∀ c, (s.phases c).error ≠ some .dictChanged) ∧
      (∀ a s', (server defaultEnv).step s a = some s' →
        ∀ c, Registering defaultEnv s c a → (s'.phases c).error = none) ∧
      ((∀ c, (s.phases c).Idle) → ∀ name k c rid e, (s.sessions name).senders.get? k = some c →
        (s.sessions name).receivers.get? rid = some e → Said s c rid e.2) := by
  intro h
  obtain ⟨s, hs, herr⟩ := Machine.exists_of_execBy (m := server defaultEnv)
    (G := fun _ _ => True)
    [.accept 0, .accept 1, .accept 2, .line 1 (.obj defaultSender.register),
      .line 0 (.obj defaultReceiver.register),
      .line 2 (.obj { defaultSender with streamId := "cam1" }.register), .resume 0 .stop]
    (P := fun s : State (Fin 3) => (s.phases 0).error = some .dictChanged) (by decide +kernel)
  exact (h s hs).1 0 herr

end Control
end P5G
