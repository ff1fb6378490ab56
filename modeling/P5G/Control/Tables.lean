import P5G.Control.Dispatch
import P5G.Control.Messages

/-!
# What the tables refer to

`peers` remembers one registration of a connection, the session tables may name
it under several.  As long as no registration leaves an entry of an older one
behind, every entry of a table agrees with `peers`, and `unregister` clears them
all.
-/

namespace P5G
namespace Control

variable {Conn : Type*} [DecidableEq Conn] {env : Env Conn} {s s' : State Conn} {c : Conn}

def Phase.IsOpen : Phase → Prop
  | .absent | .closed _ => False
  | _ => True

instance : DecidablePred Phase.IsOpen
  | .absent | .closed _ => isFalse id
  | .reading | .sending | .looping _ => isTrue trivial

/-- The connection is found in a table of some session. -/
def State.Refers (s : State Conn) (c : Conn) : Prop :=
  ∃ name, (∃ k, (s.sessions name).senders.get? k = some c) ∨
    (∃ k info, (s.sessions name).receivers.get? k = some (c, info)) ∨
      ∃ stream p, (s.sessions name).pendingAck stream = some p ∧ p.involves c

/-- The table entry that a registration made still names the connection. -/
def State.Holds (s : State Conn) (c : Conn) (peer : Peer) : Prop :=
  match peer.role with
  | .sender => (s.sessions peer.session).senders.get? peer.id = some c
  | .receiver => ((s.sessions peer.session).receivers.get? peer.id).map Prod.fst = some c

/-- No registration leaves an entry behind: a connection registers anew only
when its last registration was the same one, or is named by no entry any more
and, in another session, by no handshake. -/
def LeavesNothing (env : Env Conn) (s : State Conn) : Act Conn → Prop
  | .line c msg => ∀ old new, s.peers c = some old → registration env msg = some new →
      old = new ∨ ¬ s.Holds c old ∧ (old.session = new.session ∨
        ∀ stream p, (s.sessions old.session).pendingAck stream = some p → ¬ p.involves c)
  | _ => True

structure Linked (s : State Conn) : Prop where
  senders : ∀ name k c, (s.sessions name).senders.get? k = some c →
    s.peers c = some ⟨name, .sender, k⟩
  receivers : ∀ name k c info, (s.sessions name).receivers.get? k = some (c, info) →
    s.peers c = some ⟨name, .receiver, k⟩
  pending : ∀ name stream p, (s.sessions name).pendingAck stream = some p →
    ∀ c, p.involves c → ∃ peer, s.peers c = some peer ∧ peer.session = name

namespace Linked

omit [DecidableEq Conn] in
theorem init : Linked (State.init : State Conn) :=
  ⟨nofun, nofun, nofun⟩

omit [DecidableEq Conn] in
/-- Only the tables and `peers` count. -/
theorem congr (h : Linked s) (hs : s'.sessions = s.sessions) (hp : s'.peers = s.peers) :
    Linked s' := by
  refine ⟨fun name k c hk => ?_, fun name k c info hk => ?_, fun name stream p hk => ?_⟩
  · rw [hs] at hk
    rw [hp]
    exact h.senders name k c hk
  · rw [hs] at hk
    rw [hp]
    exact h.receivers name k c info hk
  · rw [hs] at hk
    rw [hp]
    exact h.pending name stream p hk

theorem dropHolder (h : Linked s) (name : Key) (old : Option Conn) :
    Linked (s.dropHolder name old) := by
  refine ⟨fun n k c hk => ?_, fun n k c info hk => ?_, fun n st p hk => ?_⟩
  · rw [State.senders_dropHolder] at hk
    rw [State.peers_dropHolder]
    exact h.senders n k c hk
  · rw [State.receivers_dropHolder] at hk
    rw [State.peers_dropHolder]
    exact h.receivers n k c info hk
  · rw [State.peers_dropHolder]
    exact h.pending n st p (State.pendingAck_of_dropHolder hk)

omit [DecidableEq Conn] in
theorem popPending (h : Linked s) (name stream : Key) : Linked (s.popPending name stream) := by
  refine ⟨fun n k c hk => ?_, fun n k c info hk => ?_, fun n st p hk => ?_⟩
  · rw [State.senders_popPending] at hk
    exact h.senders n k c hk
  · rw [State.receivers_popPending] at hk
    exact h.receivers n k c info hk
  · refine h.pending n st p ?_
    rw [State.pendingAck_popPending] at hk
    split at hk
    · rw [Function.update_apply] at hk
      split at hk
      · cases hk
      · exact hk
    · exact hk

omit [DecidableEq Conn] in
/-- A handshake joins two connections that are registered in its session. -/
theorem handOver (h : Linked s) {peer : Peer} {rid : Key} {recv : Conn} {info : Info}
    (hpeer : s.peers c = some peer)
    (hrecv : (s.sessions peer.session).receivers.get? rid = some (recv, info)) (host : String)
    (fields : Fields) : Linked (s.handOver c peer.session peer.id recv host fields) := by
  refine ⟨fun n k c' hk => ?_, fun n k c' info' hk => ?_, fun n st p hk => ?_⟩
  · rw [State.senders_handOver] at hk
    exact h.senders n k c' hk
  · rw [State.receivers_handOver] at hk
    exact h.receivers n k c' info' hk
  · rw [State.pendingAck_handOver] at hk
    split at hk
    · next hn =>
      rw [Function.update_apply] at hk
      split at hk
      · cases hk
        rintro c' (rfl | rfl)
        · exact ⟨_, h.receivers _ rid _ info hrecv, hn.symm⟩
        · exact ⟨peer, hpeer, hn.symm⟩
      · exact h.pending n st p hk
    · exact h.pending n st p hk

/-! ## Registration -/

def Fresh (s : State Conn) (c : Conn) (new : Peer) : Prop :=
  ∀ old, s.peers c = some old → old = new ∨ ¬ s.Holds c old ∧ (old.session = new.session ∨
    ∀ stream p, (s.sessions old.session).pendingAck stream = some p → ¬ p.involves c)

theorem Fresh.dropHolder {new : Peer} (h : Fresh s c new) (name : Key) (old : Option Conn) :
    Fresh (s.dropHolder name old) c new := by
  intro q hq
  rw [State.peers_dropHolder] at hq
  refine (h q hq).imp_right (fun ⟨hholds, hpend⟩ => ⟨fun hh => hholds ?_, ?_⟩)
  · simpa only [State.Holds, State.senders_dropHolder, State.receivers_dropHolder] using hh
  · exact hpend.imp_right (fun hpend st p hp => hpend st p (State.pendingAck_of_dropHolder hp))

/-- The handshakes of a connection that registers anew are in its new session. -/
theorem pending_setPeer (h : Linked s) {new : Peer} (hfresh : Fresh s c new) {name stream : Key}
    {p : Pending Conn} (hp : (s.sessions name).pendingAck stream = some p) {c' : Conn}
    (hc : p.involves c') :
    ∃ peer, (if c' = c then some new else s.peers c') = some peer ∧ peer.session = name := by
  obtain ⟨peer, hpeer, hname⟩ := h.pending name stream p hp c' hc
  split
  · next heq =>
    subst heq
    refine ⟨new, rfl, ?_⟩
    rcases hfresh peer hpeer with rfl | ⟨-, hsame | hnone⟩
    · exact hname
    · exact hsame ▸ hname
    · rw [hname] at hnone
      exact absurd hc (hnone stream p hp)
  · exact ⟨peer, hpeer, hname⟩

/-- An entry of a connection that registers anew is the one it registers. -/
theorem sender_setPeer (h : Linked s) {new : Peer} (hfresh : Fresh s c new) {name k : Key}
    {c' : Conn} (hk : (s.sessions name).senders.get? k = some c') :
    (if c' = c then some new else s.peers c') = some ⟨name, .sender, k⟩ := by
  have hpeer := h.senders name k c' hk
  split
  · next heq =>
    subst heq
    rcases hfresh _ hpeer with heq | ⟨hholds, -⟩
    · rw [heq]
    · exact absurd hk hholds
  · exact hpeer

theorem receiver_setPeer (h : Linked s) {new : Peer} (hfresh : Fresh s c new) {name k : Key}
    {c' : Conn} {info : Info} (hk : (s.sessions name).receivers.get? k = some (c', info)) :
    (if c' = c then some new else s.peers c') = some ⟨name, .receiver, k⟩ := by
  have hpeer := h.receivers name k c' info hk
  split
  · next heq =>
    subst heq
    rcases hfresh _ hpeer with heq | ⟨hholds, -⟩
    · rw [heq]
    · exact absurd (by simp [State.Holds, hk]) hholds
  · exact hpeer

theorem setSender (h : Linked s) {name stream : Key} (hfresh : Fresh s c ⟨name, .sender, stream⟩) :
    Linked (s.setSender c name stream) := by
  refine ⟨fun n k c' hk => ?_, fun n k c' info hk => ?_, fun n st p hk c' hc => ?_⟩
  · rw [State.senders_setSender] at hk
    rw [State.peers_setSender]
    split at hk
    · next hn =>
      subst hn
      by_cases hks : k = stream
      · subst hks
        rw [Dict.get?_set_self] at hk
        cases hk
        rw [if_pos rfl]
      · rw [Dict.get?_set_ne hks] at hk
        exact h.sender_setPeer hfresh hk
    · exact h.sender_setPeer hfresh hk
  · rw [State.receivers_setSender] at hk
    rw [State.peers_setSender]
    exact h.receiver_setPeer hfresh hk
  · rw [State.pendingAck_setSender] at hk
    rw [State.peers_setSender]
    exact h.pending_setPeer hfresh hk hc

theorem setReceiver (h : Linked s) {name rid : Key} {info : Info}
    (hfresh : Fresh s c ⟨name, .receiver, rid⟩) : Linked (s.setReceiver c name rid info) := by
  refine ⟨fun n k c' hk => ?_, fun n k c' info' hk => ?_, fun n st p hk c' hc => ?_⟩
  · rw [State.senders_setReceiver] at hk
    rw [State.peers_setReceiver]
    exact h.sender_setPeer hfresh hk
  · rw [State.receivers_setReceiver] at hk
    rw [State.peers_setReceiver]
    split at hk
    · next hn =>
      subst hn
      by_cases hks : k = rid
      · subst hks
        rw [Dict.get?_set_self] at hk
        cases hk
        rw [if_pos rfl]
      · rw [Dict.get?_set_ne hks] at hk
        exact h.receiver_setPeer hfresh hk
    · exact h.receiver_setPeer hfresh hk
  · rw [State.pendingAck_setReceiver] at hk
    rw [State.peers_setReceiver]
    exact h.pending_setPeer hfresh hk hc

/-- `unregister` finds every entry of its connection. -/
theorem unregister (h : Linked s) (c : Conn) : Linked (s.unregister c) := by
  refine ⟨fun n k c' hk => ?_, fun n k c' info hk => ?_, fun n st p hk c' hc => ?_⟩
  · obtain ⟨hk, hne⟩ := State.senders_of_unregister hk
    have hpeer := h.senders n k c' hk
    rw [State.peers_unregister, if_neg ?_, hpeer]
    rintro rfl
    exact hne hpeer rfl
  · obtain ⟨hk, hne⟩ := State.receivers_of_unregister hk
    have hpeer := h.receivers n k c' info hk
    rw [State.peers_unregister, if_neg ?_, hpeer]
    rintro rfl
    exact hne hpeer rfl
  · obtain ⟨hk, hnone⟩ := State.pendingAck_of_unregister hk
    obtain ⟨peer, hpeer, hn⟩ := h.pending n st p hk c' hc
    rw [State.peers_unregister, if_neg ?_]
    · exact ⟨peer, hpeer, hn⟩
    · rintro rfl
      exact hnone peer hpeer hn hc

omit [DecidableEq Conn] in
theorem visit (h : Linked s) (c : Conn) (l : Loop) (i : Nat) : Linked (s.visit c l i).1 :=
  h.congr State.sessions_visit State.peers_visit

theorem dispatched (h : Linked s) {msg : Json} {r : State Conn × Next}
    (hd : Dispatched env s c msg r) (hok : LeavesNothing env s (.line c msg)) : Linked r.1 := by
  cases hd with
  | raised e => exact h
  | ignored => exact h
  | deliver dest out hplain => exact h.congr rfl rfl
  | sender name stream hreg =>
    have hfresh : Fresh s c ⟨name, .sender, stream⟩ := fun old hold => hok old _ hold hreg
    exact ((h.dropHolder _ _).setSender (hfresh.dropHolder _ _)).visit _ _ _
  | badPorts name rid e => exact h.dropHolder _ _
  | receiver name rid info fields hmsg hreg =>
    have hfresh : Fresh s c ⟨name, .receiver, rid⟩ := fun old hold => hok old _ hold hreg
    exact ((h.dropHolder _ _).setReceiver (hfresh.dropHolder _ _)).visit _ _ _
  | start peer rid recv info host fields hmsg htype hpeer hto hrecv =>
    exact h.handOver hpeer hrecv host fields
  | forward peer stream p fields => exact (h.popPending _ _).congr rfl rfl
  | senderGone peer stream => exact h.popPending _ _

theorem close (h : Linked s) (e : Option PyError) : Linked (s.close c e) :=
  (h.unregister c).congr rfl rfl

theorem finish {r : State Conn × Next} (h : Linked r.1) : Linked (State.finish c r) := by
  obtain ⟨s, n⟩ := r
  cases n with
  | raised e => exact h.close _
  | _ => exact h.congr rfl rfl

omit [DecidableEq Conn] in
theorem turned (h : Linked s) {l : Loop} {r : State Conn × Next} (ht : Turned s c l r) :
    Linked r.1 := by
  cases ht with
  | next => exact h.visit _ _ _
  | raised => exact h
  | stopped => exact h
  | visited _ i => exact h.visit _ _ _

theorem step (h : Linked s) {a : Act Conn} (hok : LeavesNothing env s a)
    (hstep : s.step env a = some s') : Linked s' := by
  cases step_cases hstep with
  | accept c => exact h.congr rfl rfl
  | line c msg r _ hd => exact finish (h.dispatched hd hok)
  | badLine c => exact h
  | eof c => exact h.close _
  | sent c choice => exact h.congr rfl rfl
  | turn c choice l r _ ht => exact finish (h.turned ht)
  | sendRaised c => exact h.close _

end Linked

def PeersOpen (s : State Conn) : Prop :=
  ∀ c, s.peers c ≠ none → (s.phases c).IsOpen

namespace PeersOpen

theorem close (h : PeersOpen s) (e : Option PyError) : PeersOpen (s.close c e) := by
  intro c' hc'
  simp only [State.close, State.peers_setPhase, State.peers_unregister, State.phases_setPhase,
    State.phases_unregister] at hc' ⊢
  split at hc'
  · exact absurd rfl hc'
  · next hne =>
    rw [if_neg hne]
    exact h c' hc'

theorem setPhase (h : PeersOpen s) {p : Phase} (hp : p.IsOpen) : PeersOpen (s.setPhase c p) := by
  intro c' hc'
  rw [State.phases_setPhase]
  split
  · exact hp
  · exact h c' hc'

/-- The connection whose handler runs is open, so only the others count. -/
theorem finish {r : State Conn × Next} (hopen : (r.1.phases c).IsOpen)
    (h : ∀ c', c' ≠ c → r.1.peers c' ≠ none → (r.1.phases c').IsOpen) :
    PeersOpen (State.finish c r) := by
  have hall : PeersOpen r.1 := by
    intro c' hc'
    by_cases hne : c' = c
    · exact hne ▸ hopen
    · exact h c' hne hc'
  obtain ⟨s, n⟩ := r
  cases n with
  | raised e => exact hall.close _
  | reading => exact hall.setPhase trivial
  | sending => exact hall.setPhase trivial
  | looping l => exact hall.setPhase trivial

theorem step (h : PeersOpen s) {a : Act Conn} (hstep : s.step env a = some s') :
    PeersOpen s' := by
  cases step_cases hstep with
  | accept c => exact h.setPhase trivial
  | line c msg r hp hd =>
    obtain ⟨hphases, hpeers⟩ := dispatched_peers hd
    refine finish (by rw [hphases, hp]; trivial) (fun c' hne hc' => ?_)
    rw [hphases]
    exact h c' (hpeers c' hne ▸ hc')
  | badLine c => exact h
  | eof c => exact h.close _
  | sent c choice => exact h.setPhase trivial
  | turn c choice l r hp ht =>
    have hpeers : r.1.peers = s.peers := by
      cases ht with
      | next => exact State.peers_visit
      | raised => rfl
      | stopped => rfl
      | visited => exact State.peers_visit
    refine finish (by rw [turned_phases ht, hp]; trivial) (fun c' _ hc' => ?_)
    rw [turned_phases ht]
    exact h c' (hpeers ▸ hc')
  | sendRaised c => exact h.close _

end PeersOpen

omit [DecidableEq Conn] in
theorem Linked.registered (h : Linked s) (hc : s.Refers c) : s.peers c ≠ none := by
  obtain ⟨name, ⟨k, hk⟩ | ⟨k, info, hk⟩ | ⟨stream, p, hp, hinv⟩⟩ := hc
  · rw [h.senders name k c hk]
    exact nofun
  · rw [h.receivers name k c info hk]
    exact nofun
  · obtain ⟨peer, hpeer, -⟩ := h.pending name stream p hp c hinv
    rw [hpeer]
    exact nofun

/-- In a run in which no registration leaves an entry behind, the tables refer
to no unregistered connection, and only to connections with an open handler. -/
theorem tables_open (h : (server env).ReachableBy (LeavesNothing env) s) (c : Conn) :
    (s.peers c = none → ¬ s.Refers c) ∧ (s.Refers c → (s.phases c).IsOpen) := by
  have hlinked : Linked s := h.invariant .init (fun _ _ _ hi hok hs => hi.step hok hs)
  have hopen : PeersOpen s :=
    h.reachable.invariant (fun c hc => absurd rfl hc) (fun _ _ _ hi hs => hi.step hs)
  exact ⟨fun hnone hc => hlinked.registered hc hnone, fun hc => hopen c (hlinked.registered hc)⟩

def registersOnce (env : Env Conn) (s : State Conn) : Act Conn → Bool
  | .line c msg => (s.peers c).isNone || (registration env msg).isNone
  | _ => true

omit [DecidableEq Conn] in
theorem leavesNothing_of_registersOnce {a : Act Conn} (h : registersOnce env s a = true) :
    LeavesNothing env s a := by
  cases a with
  | line c msg =>
    intro old new hold hnew
    simp [registersOnce, hold, hnew] at h
  | _ => trivial

theorem tables_open_upToStart : ∃ s : State (Fin 3),
    (server defaultEnv).ReachableBy (LeavesNothing defaultEnv) s ∧ s.Refers 0 ∧
      (s.phases 0).IsOpen := by
  obtain ⟨s, ⟨past, hrun⟩, p, hp, hrecv⟩ := Machine.exists_of_execBy (m := server defaultEnv)
    (G := fun s a => registersOnce defaultEnv s a = true) upToStart
    (P := fun s : State (Fin 3) => ∃ p ∈ (s.sessions (.str "s1")).pendingAck (.str "cam0"),
      p.receiver = 0) (by decide +kernel)
  have hrun' : (server defaultEnv).ReachableBy (LeavesNothing defaultEnv) s :=
    ⟨past, hrun.mono (fun _ _ => leavesNothing_of_registersOnce)⟩
  have href : s.Refers 0 := ⟨.str "s1", .inr (.inr ⟨.str "cam0", p, hp, .inl hrecv⟩)⟩
  exact ⟨s, hrun', href, (tables_open hrun' 0).2 href⟩

/-- A connection that registers as a second sender and then ends stays in the
table as the first. -/
theorem first_entry_stays : ¬ ∀ s : State (Fin 3), (server defaultEnv).Reachable s →
    ∀ c, (s.peers c = none → ¬ s.Refers c) ∧ (s.Refers c → (s.phases c).IsOpen) := by
  intro h
  obtain ⟨s, hs, hsender, hclosed⟩ := Machine.exists_of_execBy (m := server defaultEnv)
    (G := fun _ _ => True)
    [.accept 0, .line 0 (.obj defaultSender.register),
      .line 0 (.obj { defaultSender with streamId := "cam1" }.register), .eof 0]
    (P := fun s : State (Fin 3) => (s.sessions (.str "s1")).senders.get? (.str "cam0") = some 0 ∧
      ¬ (s.phases 0).IsOpen) (by decide +kernel)
  exact hclosed ((h s hs 0).2 ⟨.str "s1", .inl ⟨.str "cam0", hsender⟩⟩)

end Control
end P5G
