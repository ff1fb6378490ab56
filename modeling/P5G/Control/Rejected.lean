import P5G.Control.Tables
import P5G.Control.Register

/-!
# Rejected messages

A message whose dispatch raises ends its connection.  What is left of the
tables is what was there before, as far as it belongs to other connections,
unless the message was a receiver's registration without ports: the handshakes
of the connection that holds its id are dropped before its ports are read.

A dispatch may also raise after it has awaited a send, because the send raises
or because the table it iterates has changed.  By then a registration has
replaced the connection that held its id, and a stream-start has its generation.
-/

namespace P5G
namespace Control

variable {Conn : Type*} [DecidableEq Conn] {env : Env Conn} {s s' : State Conn} {c : Conn}

/-- The entries that do not involve `c`, in their order, and the generation are
those that were there before. -/
structure KeepsOthers (c : Conn) (x y : Session Conn) : Prop where
  senders : y.senders.entries.filter (fun e => e.2 ≠ c) =
    x.senders.entries.filter (fun e => e.2 ≠ c)
  receivers : y.receivers.entries.filter (fun e => e.2.1 ≠ c) =
    x.receivers.entries.filter (fun e => e.2.1 ≠ c)
  pendingAck : ∀ stream, (y.pendingAck stream).filter (fun p => ¬ p.involves c) =
    (x.pendingAck stream).filter (fun p => ¬ p.involves c)
  generation : y.generation = x.generation

namespace KeepsOthers

variable {x y z : Session Conn}

theorem refl (c : Conn) (x : Session Conn) : KeepsOthers c x x :=
  ⟨rfl, rfl, fun _ => rfl, rfl⟩

theorem trans (h : KeepsOthers c x y) (h' : KeepsOthers c y z) : KeepsOthers c x z where
  senders := h'.senders.trans h.senders
  receivers := h'.receivers.trans h.receivers
  pendingAck stream := (h'.pendingAck stream).trans (h.pendingAck stream)
  generation := h'.generation.trans h.generation

theorem symm (h : KeepsOthers c x y) : KeepsOthers c y x where
  senders := h.senders.symm
  receivers := h.receivers.symm
  pendingAck stream := (h.pendingAck stream).symm
  generation := h.generation.symm

theorem remove (c : Conn) (x : Session Conn) (peer : Peer) : KeepsOthers c x (x.remove peer c) := by
  refine ⟨?_, ?_, fun stream => ?_, State.generation_remove⟩
  · unfold Session.remove
    split
    · split
      · next hc =>
        refine Dict.filter_erase fun v hv => ?_
        rw [Dict.get?_eq_some_iff.mpr hv] at hc
        cases hc
        simp
      · rfl
    · split <;> rfl
  · unfold Session.remove
    split
    · split <;> rfl
    · split
      · next hc =>
        refine Dict.filter_erase fun v hv => ?_
        rw [Dict.get?_eq_some_iff.mpr hv] at hc
        cases hc
        simp
      · rfl
  · rw [State.pendingAck_remove]

theorem dropPendingOf (c : Conn) (x : Session Conn) : KeepsOthers c x (x.dropPendingOf c) := by
  refine ⟨rfl, rfl, fun stream => ?_, rfl⟩
  show ((x.pendingAck stream).filter _).filter _ = _
  cases x.pendingAck stream with
  | none => rfl
  | some p =>
    by_cases hp : p.involves c
    · simp [Option.filter, hp]
    · simp [Option.filter, hp]

end KeepsOthers

/-- A change of one session. -/
theorem setSession_keepsOthers (s : State Conn) {name : Key} (f : Session Conn → Session Conn)
    (h : KeepsOthers c (s.sessions name) (f (s.sessions name))) (n : Key) :
    KeepsOthers c (s.sessions n) ((s.setSession name f).sessions n) := by
  rw [State.sessions_setSession]
  split
  · next hn =>
    rw [hn]
    exact h
  · exact .refl c _

/-- Closing a connection takes away what is its own. -/
theorem close_keepsOthers (s : State Conn) (c : Conn) (e : Option PyError) (n : Key) :
    KeepsOthers c (s.sessions n) ((s.close c e).sessions n) := by
  rw [State.close, State.sessions_setPhase, State.unregister]
  split
  · exact .refl c _
  · next peer _ =>
    exact setSession_keepsOthers (s.setPeer c none) (fun x => (x.remove peer c).dropPendingOf c)
      ((KeepsOthers.remove c _ peer).trans (.dropPendingOf c _)) n

/-! ## Messages that raise -/

/-- A receiver's registration without usable ports, for the id `rid`. -/
structure Portless (env : Env Conn) (msg : Fields) (name rid : Key) : Prop where
  type : msg.get? "type" = some (.str "register")
  session : msg.itemKey "session" = .ok name
  role : ∃ j, msg.item "role" = .ok j ∧ State.roleOf j = some .receiver
  receiver : msg.itemKey "receiver" = .ok rid
  ports : ∃ e, readInfo env msg = .error e

theorem register_raised {msg : Fields} {e : PyError}
    (h : s.register env c msg = (s', .raised e)) (htype : msg.get? "type" = some (.str "register")) :
    s' = s ∨ ∃ name rid, Portless env msg name rid ∧
      s' = s.dropHolder name (((s.sessions name).receivers.get? rid).map Prod.fst) := by
  unfold State.register at h
  split at h
  · cases h
    exact .inl rfl
  · cases h
    exact .inl rfl
  · next name role hname hrole =>
    split at h
    · unfold State.registerSender at h
      split at h
      · cases h
        exact .inl rfl
      · exact absurd h (startLoop_ne_raised _ _ _ _ _)
    · next hr =>
      unfold State.registerReceiver at h
      split at h
      · cases h
        exact .inl rfl
      · next rid hrid =>
        simp only [] at h
        split at h
        · next e' hinfo =>
          cases h
          exact .inr ⟨name, rid, ⟨htype, hname, ⟨role, hrole, hr⟩, hrid, ⟨_, hinfo⟩⟩, rfl⟩
        · exact absurd h (startLoop_ne_raised _ _ _ _ _)
    · cases h

theorem dispatch_portless {msg : Fields} {name rid : Key} (h : Portless env msg name rid) :
    ∃ e, s.dispatch env c (.obj msg) =
      (s.dropHolder name (((s.sessions name).receivers.get? rid).map Prod.fst), .raised e) := by
  obtain ⟨role, hrole, hr⟩ := h.role
  obtain ⟨e, hinfo⟩ := h.ports
  have hregister : s.dispatch env c (.obj msg) = s.register env c msg := by
    simp only [State.dispatch, h.type, State.dispatchType, ↓reduceIte]
  refine ⟨e, ?_⟩
  rw [hregister, State.register]
  simp only [h.session, hrole, hr, State.registerReceiver, h.receiver, hinfo]

omit [DecidableEq Conn] in
theorem routeStreamStart_raised {msg : Fields} {e : PyError}
    (h : s.routeStreamStart env c msg = (s', .raised e)) : s' = s := by
  unfold State.routeStreamStart at h
  repeat' split at h
  all_goals cases h
  all_goals rfl

theorem routeStreamAck_raised {msg : Fields} {e : PyError}
    (h : s.routeStreamAck c msg = (s', .raised e)) : s' = s := by
  unfold State.routeStreamAck at h
  simp only [] at h
  repeat' split at h
  all_goals cases h
  all_goals rfl

omit [DecidableEq Conn] in
theorem routeProfile_raised {msg : Fields} {e : PyError}
    (h : s.routeProfile c msg = (s', .raised e)) : s' = s := by
  unfold State.routeProfile at h
  repeat' split at h
  all_goals cases h
  all_goals rfl

/-- An exception comes before any change, or from the ports of a receiver. -/
theorem dispatch_raised {msg : Fields} {e : PyError}
    (h : s.dispatch env c (.obj msg) = (s', .raised e)) :
    s' = s ∨ ∃ name rid, Portless env msg name rid ∧
      s' = s.dropHolder name (((s.sessions name).receivers.get? rid).map Prod.fst) := by
  unfold State.dispatch at h
  simp only [] at h
  split at h
  · next t htype =>
    unfold State.dispatchType at h
    split at h
    · next ht => exact register_raised h (ht ▸ htype)
    · left
      split at h
      · exact routeStreamStart_raised h
      · split at h
        · exact routeStreamAck_raised h
        · split at h
          · exact routeProfile_raised h
          · split at h <;> cases h
  · cases h

/-- The handshakes that a registration without usable ports drops, although the
connection that sends it has no part in them. -/
def DropsHandshake (env : Env Conn) (s : State Conn) (c : Conn) (msg : Fields) : Prop :=
  ∃ name rid, Portless env msg name rid ∧ ∃ w info stream p,
    (s.sessions name).receivers.get? rid = some (w, info) ∧
      (s.sessions name).pendingAck stream = some p ∧ p.involves w ∧ ¬ p.involves c

/-- Dropping the handshakes of a connection is unseen where `c` is in all of them. -/
theorem dropPendingOf_keepsOthers {x : Session Conn} {w : Conn}
    (h : ∀ stream p, x.pendingAck stream = some p → p.involves w → p.involves c) :
    KeepsOthers c x (x.dropPendingOf w) := by
  refine ⟨rfl, rfl, fun stream => ?_, rfl⟩
  show ((x.pendingAck stream).filter _).filter _ = _
  cases hp : x.pendingAck stream with
  | none => rfl
  | some p =>
    by_cases hw : p.involves w
    · have hc := h stream p hp hw
      simp [Option.filter, hw, hc]
    · simp [Option.filter, hw]

/-- Such a registration leaves other connections a handshake short. -/
theorem not_keeps_of_drops {msg : Fields} {e : PyError}
    (h : s.dispatch env c (.obj msg) = (s', .raised e)) (hdrops : DropsHandshake env s c msg) :
    ¬∀ n, KeepsOthers c (s.sessions n) ((s'.close c (some e)).sessions n) := by
  obtain ⟨name, rid, hportless, w, info, stream, p, hheld, hp, hw, hc⟩ := hdrops
  intro hkeeps
  obtain ⟨e', hdispatch⟩ := dispatch_portless (s := s) (c := c) hportless
  rw [hdispatch, hheld] at h
  obtain ⟨rfl, -⟩ := Prod.mk.injEq .. ▸ h
  have hpending := (hkeeps name).pendingAck stream
  have hafter := (close_keepsOthers (s.dropHolder name (some w)) c (some e) name).pendingAck stream
  have hdropped : ((s.dropHolder name (some w)).sessions name).pendingAck stream = none := by
    simp [State.dropHolder, Session.dropPendingOf, hp, Option.filter, hw]
  rw [hdropped] at hafter
  have hlost := hafter.symm.trans hpending
  rw [hp] at hlost
  simp [Option.filter, hc] at hlost

/-- A message that raises before its first `await` leaves the entries of the
others as they were if and only if it is not such a registration. -/
theorem raised_keeps_iff {msg : Fields} {e : PyError}
    (h : s.dispatch env c (.obj msg) = (s', .raised e)) :
    (∀ n, KeepsOthers c (s.sessions n) ((s'.close c (some e)).sessions n)) ↔
      ¬ DropsHandshake env s c msg := by
  constructor
  · intro hkeeps hdrops
    exact not_keeps_of_drops h hdrops hkeeps
  · intro hfine n
    rcases dispatch_raised h with rfl | ⟨name, rid, hportless, rfl⟩
    · exact close_keepsOthers s' c (some e) n
    · refine KeepsOthers.trans ?_ (close_keepsOthers _ c (some e) n)
      cases hheld : (s.sessions name).receivers.get? rid with
      | none => exact .refl c _
      | some held =>
        obtain ⟨w, info⟩ := held
        refine setSession_keepsOthers s (·.dropPendingOf w)
          (dropPendingOf_keepsOthers fun stream p hp hw => ?_) n
        by_contra hc
        exact hfine ⟨name, rid, hportless, w, info, stream, p, hheld, hp, hw, hc⟩

/-! ## Messages that raise in a send -/

/-- A well-formed registration under an id that another connection holds. -/
def Replaces (env : Env Conn) (s : State Conn) (c : Conn) (msg : Fields) : Prop :=
  ∃ peer w, registration env (.obj msg) = some peer ∧ s.Holds w peer ∧ w ≠ c

/-- A stream-start that is accepted. -/
def HandsOver (env : Env Conn) (s : State Conn) (c : Conn) (msg : Fields) : Prop :=
  ∃ peer rid recv host, msg.get? "type" = some (.str "stream-start") ∧ s.peers c = some peer ∧
    msg.itemKey "to" = .ok rid ∧ (s.sessions peer.session).receivers.get? rid = some recv ∧
      env.peername c = some host

theorem dispatch_of_handsOver {msg : Fields} (h : HandsOver env s c msg) :
    ∃ (peer : Peer) (recv : Conn) (host : String), s.dispatch env c (.obj msg) =
      (s.handOver c peer.session peer.id recv host msg, .sending) := by
  obtain ⟨peer, rid, ⟨recv, info⟩, host, htype, hpeer, hto, hrecv, hhost⟩ := h
  refine ⟨peer, recv, host, ?_⟩
  simp [State.dispatch, htype, State.dispatchType, State.routeStreamStart, hpeer, hto, hrecv, hhost]

/-- The handshakes of the connection that held an id were those of `c`. -/
theorem dropHolder_keepsOthers {name : Key} {old : Option Conn} (h : ∀ w, old = some w → w = c)
    (n : Key) : KeepsOthers c (s.sessions n) ((s.dropHolder name old).sessions n) := by
  cases old with
  | none => exact .refl c _
  | some w =>
    obtain rfl := h w rfl
    exact setSession_keepsOthers s (·.dropPendingOf w) (.dropPendingOf w _) n

theorem setSender_keepsOthers {name stream : Key}
    (h : ∀ w, (s.sessions name).senders.get? stream = some w → w = c) (n : Key) :
    KeepsOthers c (s.sessions n) ((s.setSender c name stream).sessions n) := by
  refine setSession_keepsOthers s (fun x => { x with senders := x.senders.set stream c })
    ⟨Dict.filter_set (by simp) fun w hw => ?_, rfl, fun _ => rfl, rfl⟩ n
  simp [h w hw]

theorem setReceiver_keepsOthers {name rid : Key} {info : Info}
    (h : ∀ e, (s.sessions name).receivers.get? rid = some e → e.1 = c) (n : Key) :
    KeepsOthers c (s.sessions n) ((s.setReceiver c name rid info).sessions n) := by
  refine setSession_keepsOthers s (fun x => { x with receivers := x.receivers.set rid (c, info) })
    ⟨rfl, Dict.filter_set (by simp) fun e he => ?_, fun _ => rfl, rfl⟩ n
  simp [h e he]

theorem popPending_keepsOthers {name stream : Key} {p : Pending Conn}
    (hp : (s.sessions name).pendingAck stream = some p) (hc : p.involves c) (n : Key) :
    KeepsOthers c (s.sessions n) ((s.popPending name stream).sessions n) := by
  refine setSession_keepsOthers s
    (fun x => { x with pendingAck := Function.update x.pendingAck stream none })
    ⟨rfl, rfl, fun st => ?_, rfl⟩ n
  by_cases hst : st = stream
  · subst hst
    simp [hp, hc, Option.filter]
  · simp [hst]

/-- A message that awaits a send has left the others alone so far, unless it
replaced a connection or handed a stream-start over. -/
theorem suspended_keepsOthers {msg : Fields} {r : State Conn × Next}
    (hd : Dispatched env s c (.obj msg) r) (hr : r.2 = .sending ∨ ∃ l, r.2 = .looping l)
    (hreplaces : ¬ Replaces env s c msg) (hhands : ¬ HandsOver env s c msg) (n : Key) :
    KeepsOthers c (s.sessions n) (r.1.sessions n) := by
  cases hd with
  | raised e => rcases hr with hr | ⟨l, hr⟩ <;> cases hr
  | ignored => rcases hr with hr | ⟨l, hr⟩ <;> cases hr
  | deliver dest out => exact .refl c _
  | sender name stream hreg =>
    have hfree : ∀ w, (s.sessions name).senders.get? stream = some w → w = c := by
      intro w hw
      by_contra hne
      exact hreplaces ⟨_, w, hreg, hw, hne⟩
    rw [State.startLoop, State.sessions_visit]
    refine (dropHolder_keepsOthers hfree n).trans (setSender_keepsOthers (fun w hw => ?_) n)
    rw [State.senders_dropHolder] at hw
    exact hfree w hw
  | badPorts name rid e => rcases hr with hr | ⟨l, hr⟩ <;> cases hr
  | receiver name rid info fields hmsg hreg =>
    have hfree : ∀ e, (s.sessions name).receivers.get? rid = some e → e.1 = c := by
      intro e he
      by_contra hne
      refine hreplaces ⟨_, e.1, hreg, ?_, hne⟩
      show ((s.sessions name).receivers.get? rid).map Prod.fst = some e.1
      rw [he]
      rfl
    rw [State.startLoop, State.sessions_visit]
    refine (dropHolder_keepsOthers (fun w hw => ?_) n).trans
      (setReceiver_keepsOthers (fun e he => ?_) n)
    · obtain ⟨e, he, rfl⟩ := Option.map_eq_some_iff.mp hw
      exact hfree e he
    · rw [State.receivers_dropHolder] at he
      exact hfree e he
  | start peer rid recv info host fields hmsg htype hpeer hto hrecv hhost =>
    cases hmsg
    exact absurd ⟨peer, rid, (recv, info), host, htype, hpeer, hto, hrecv, hhost⟩ hhands
  | forward peer stream p fields hmsg htype hpeer hstream hp hans =>
    exact popPending_keepsOthers hp (.inl hans.2.1) n
  | senderGone peer stream => rcases hr with hr | ⟨l, hr⟩ <;> cases hr

/-- A registration that replaces a connection takes its entry away. -/
theorem not_keeps_of_replaces {msg : Fields} (h : Replaces env s c msg) :
    ¬∀ n, KeepsOthers c (s.sessions n) ((s.dispatch env c (.obj msg)).1.sessions n) := by
  obtain ⟨peer, w, hreg, hheld, hne⟩ := h
  intro hkeeps
  rcases dispatch_of_registration (s := s) (c := c) hreg with ⟨hrole, hd⟩ | ⟨hrole, info, hd⟩
  · rw [State.Holds, hrole] at hheld
    have hsenders := (hkeeps peer.session).senders
    rw [hd, State.startLoop, State.sessions_visit] at hsenders
    have hmem : (peer.id, w) ∈ (s.sessions peer.session).senders.entries.filter
        (fun e => e.2 ≠ c) :=
      List.mem_filter.mpr ⟨Dict.get?_eq_some_iff.mp hheld, by simpa using hne⟩
    rw [← hsenders] at hmem
    have hget := Dict.get?_eq_some_iff.mpr (List.mem_filter.mp hmem).1
    rw [State.senders_setSender, if_pos rfl, Dict.get?_set_self] at hget
    exact hne (Option.some.inj hget).symm
  · rw [State.Holds, hrole] at hheld
    obtain ⟨e, he, rfl⟩ := Option.map_eq_some_iff.mp hheld
    have hreceivers := (hkeeps peer.session).receivers
    rw [hd, State.startLoop, State.sessions_visit] at hreceivers
    have hmem : (peer.id, e) ∈ (s.sessions peer.session).receivers.entries.filter
        (fun e => e.2.1 ≠ c) :=
      List.mem_filter.mpr ⟨Dict.get?_eq_some_iff.mp he, by simpa using hne⟩
    rw [← hreceivers] at hmem
    have hget := Dict.get?_eq_some_iff.mpr (List.mem_filter.mp hmem).1
    rw [State.receivers_setReceiver, if_pos rfl, Dict.get?_set_self] at hget
    exact hne (congrArg Prod.fst (Option.some.inj hget)).symm

/-- A stream-start that is handed over has the next generation. -/
theorem not_keeps_of_handsOver {msg : Fields} (h : HandsOver env s c msg) :
    ¬∀ n, KeepsOthers c (s.sessions n) ((s.dispatch env c (.obj msg)).1.sessions n) := by
  obtain ⟨peer, recv, host, hd⟩ := dispatch_of_handsOver h
  intro hkeeps
  have hgeneration := (hkeeps peer.session).generation
  rw [hd, State.generation_handOver, if_pos rfl] at hgeneration
  omega

/-- The messages that take from other connections what they have, if their
dispatch raises. -/
def Harms (env : Env Conn) (s : State Conn) (c : Conn) (msg : Fields) : Prop :=
  DropsHandshake env s c msg ∨ Replaces env s c msg ∨ HandsOver env s c msg

/-- The step that takes the message, when the dispatch has raised or is suspended
in a send. -/
theorem line_keeps_iff {msg : Fields} (hstep : s.step env (.line c (.obj msg)) = some s')
    (hend : ¬ (s'.phases c).Idle ∨ ∃ e, s'.phases c = .closed (some e)) :
    (∀ n, KeepsOthers c (s.sessions n) (s'.sessions n)) ↔ ¬ Harms env s c msg := by
  have hfinish : State.finish c (s.dispatch env c (.obj msg)) = s' := by
    simp only [State.step] at hstep
    split at hstep <;> cases hstep
    rfl
  have hreplaced (h : Replaces env s c msg) : ∃ t name kind,
      s.dispatch env c (.obj msg) = State.startLoop t c name kind := by
    obtain ⟨peer, w, hreg, -⟩ := h
    rcases dispatch_of_registration (s := s) (c := c) hreg with ⟨-, hd⟩ | ⟨-, info, hd⟩
    · exact ⟨_, _, _, hd⟩
    · exact ⟨_, _, _, hd⟩
  have hdispatched := dispatch_cases env s c (.obj msg)
  have hnotReplaced (h : Replaces env s c msg) := not_keeps_of_replaces h
  have hnotHanded (h : HandsOver env s c msg) := not_keeps_of_handsOver h
  cases hr : s.dispatch env c (.obj msg) with
  | mk t next =>
    rw [hr] at hfinish hdispatched hreplaced hnotReplaced hnotHanded
    -- a dispatch that awaits a send has not met a registration without ports
    have hsuspended (hsessions : s'.sessions = t.sessions)
        (hnext : next = .sending ∨ ∃ l, next = .looping l) :
        (∀ n, KeepsOthers c (s.sessions n) (s'.sessions n)) ↔ ¬ Harms env s c msg := by
      rw [hsessions]
      constructor
      · rintro hkeeps (⟨name, rid, hportless, -⟩ | hrep | hhand)
        · obtain ⟨e, hd⟩ := dispatch_portless (s := s) (c := c) hportless
          rw [hr] at hd
          rcases hnext with rfl | ⟨l, rfl⟩ <;> cases hd
        · exact hnotReplaced hrep hkeeps
        · exact hnotHanded hhand hkeeps
      · intro hharms
        exact suspended_keepsOthers hdispatched hnext (fun h => hharms (.inr (.inl h)))
          (fun h => hharms (.inr (.inr h)))
    cases next with
    | reading =>
      exfalso
      rw [← hfinish, State.finish, State.phases_setPhase, if_pos rfl] at hend
      rcases hend with hidle | ⟨e, he⟩
      · exact hidle trivial
      · cases he
    | sending => exact hsuspended (by rw [← hfinish]; rfl) (.inl rfl)
    | looping l => exact hsuspended (by rw [← hfinish]; rfl) (.inr ⟨l, rfl⟩)
    | raised e =>
      rw [← hfinish]
      refine (raised_keeps_iff hr).trans (not_congr ⟨.inl, ?_⟩)
      rintro (hdrops | hrep | hhand)
      · exact hdrops
      · obtain ⟨u, name, kind, hd⟩ := hreplaced hrep
        exact absurd hd.symm (startLoop_ne_raised _ _ _ _ _)
      · obtain ⟨peer, recv, host, hd⟩ := dispatch_of_handsOver hhand
        rw [hr] at hd
        cases hd

/-! ## Dispatches that raise -/

/-- The steps of a run from `s`, each with the state before it and the one after
it, that end with the one in which the handler of `c` raises.  Up to then it is
suspended in a send while others may move. -/
inductive Raises (env : Env Conn) (c : Conn) :
    State Conn → List (State Conn × Act Conn × State Conn) → State Conn → Prop
  | raise {s s' : State Conn} {a : Act Conn} {e : PyError} (hstep : s.step env a = some s')
      (hend : s'.phases c = .closed (some e)) : Raises env c s [(s, a, s')] s'
  | await {s t s' : State Conn} {a : Act Conn}
      {steps : List (State Conn × Act Conn × State Conn)} (hstep : s.step env a = some t)
      (hbusy : ¬ (t.phases c).Idle) (h : Raises env c t steps s') :
      Raises env c s ((s, a, t) :: steps) s'

/-- No step of the handler of `c` touches what others have. -/
def LeavesOthers (c : Conn) (steps : List (State Conn × Act Conn × State Conn)) : Prop :=
  ∀ x ∈ steps, x.2.1.conn = c → ∀ n, KeepsOthers c (x.1.sessions n) (x.2.2.sessions n)

/-- A suspended handler goes on or raises and leaves what the others have by
then. -/
theorem busy_keepsOthers {a : Act Conn} (hbusy : ¬ (s.phases c).Idle) (hc : a.conn = c)
    (hstep : s.step env a = some s') (n : Key) : KeepsOthers c (s.sessions n) (s'.sessions n) := by
  cases step_cases hstep with
  | sent c' choice => exact .refl c _
  | sendRaised c' =>
    obtain rfl : c' = c := hc
    exact close_keepsOthers s c' _ n
  | turn c' choice l r hl ht =>
    obtain rfl : c' = c := hc
    have hsessions : r.1.sessions = s.sessions := by
      cases ht with
      | next => exact State.sessions_visit
      | raised => rfl
      | stopped => rfl
      | visited => exact State.sessions_visit
    rw [← hsessions]
    obtain ⟨t, next⟩ := r
    cases next with
    | raised e => exact close_keepsOthers t c' _ n
    | _ => exact .refl c' _
  | accept c' hp | line c' _ _ hp | badLine c' hp | eof c' hp =>
    obtain rfl : c' = c := hc
    rw [hp] at hbusy
    exact absurd trivial hbusy

theorem Raises.leavesOthers {steps : List (State Conn × Act Conn × State Conn)}
    (h : Raises env c s steps s') (hbusy : ¬ (s.phases c).Idle) : LeavesOthers c steps := by
  induction h with
  | raise hstep =>
    intro x hx hc
    cases List.mem_singleton.mp hx
    exact busy_keepsOthers hbusy hc hstep
  | await hstep hnext _ ih =>
    intro x hx hc
    rcases List.mem_cons.mp hx with rfl | hx
    · exact busy_keepsOthers hbusy hc hstep
    · exact ih hnext x hx hc

/-- The last state has of the others what the first one had, if no other handler
moved in between. -/
theorem Raises.keepsOthers {steps : List (State Conn × Act Conn × State Conn)}
    (h : Raises env c s steps s') (hleaves : LeavesOthers c steps)
    (halone : ∀ x ∈ steps, x.2.1.conn = c) (n : Key) :
    KeepsOthers c (s.sessions n) (s'.sessions n) := by
  induction h with
  | raise => exact hleaves _ List.mem_cons_self (halone _ List.mem_cons_self) n
  | await _ _ _ ih =>
    refine (hleaves _ List.mem_cons_self (halone _ List.mem_cons_self) n).trans ?_
    exact ih (fun x hx => hleaves x (List.mem_cons_of_mem _ hx))
      (fun x hx => halone x (List.mem_cons_of_mem _ hx))

/-- A dispatch that raises, at once or after it has awaited a send, touches
nothing that others have if and only if its message is none of `Harms`; with no
other handler's step in between, what they have is then what they had. -/
theorem rejected_keeps_others (env : Env Conn) (s t s' : State Conn) (c : Conn) (msg : Fields)
    (steps : List (State Conn × Act Conn × State Conn))
    (h : Raises env c s ((s, .line c (.obj msg), t) :: steps) s') :
    (LeavesOthers c ((s, .line c (.obj msg), t) :: steps) ↔ ¬ Harms env s c msg) ∧
      ((∀ x ∈ steps, x.2.1.conn = c) →
        ((∀ n, KeepsOthers c (s.sessions n) (s'.sessions n)) ↔ ¬ Harms env s c msg)) := by
  have hfirst : (∀ n, KeepsOthers c (s.sessions n) (t.sessions n)) ↔ ¬ Harms env s c msg := by
    cases h with
    | raise hstep hend => exact line_keeps_iff hstep (.inr ⟨_, hend⟩)
    | await hstep hbusy => exact line_keeps_iff hstep (.inl hbusy)
  have hrest : LeavesOthers c steps := by
    cases h with
    | raise => exact fun x hx => by cases hx
    | await _ hbusy h => exact h.leavesOthers hbusy
  refine ⟨⟨fun hleaves => ?_, fun hharms x hx hc => ?_⟩, fun halone => ?_⟩
  · exact hfirst.mp (hleaves _ List.mem_cons_self rfl)
  · rcases List.mem_cons.mp hx with rfl | hx
    · exact hfirst.mpr hharms
    · exact hrest x hx hc
  · rw [← hfirst]
    have hafter (n : Key) : KeepsOthers c (t.sessions n) (s'.sessions n) := by
      cases h with
      | raise => exact .refl c _
      | await _ _ h => exact h.keepsOthers hrest halone n
    exact forall_congr' fun n => ⟨fun hall => hall.trans (hafter n).symm,
      fun hline => hline.trans (hafter n)⟩

def secondRegister : Fields := { defaultReceiver with receiverId := "recv1" }.register

/-- A second receiver announces itself to a sender whose stream-start to the
first one is pending, and the send raises. -/
theorem rejected_keeps_others_announcing : ∃ s s' : State (Fin 3), ∃ p,
    (server defaultEnv).Reachable s ∧
      ((s.sessions (.str "s1")).receivers.get? (.str "recv0")).map Prod.fst = some 0 ∧
      (s.sessions (.str "s1")).senders.get? (.str "cam0") = some 1 ∧
      (s.sessions (.str "s1")).pendingAck (.str "cam0") = some p ∧ ¬ p.involves 2 ∧
      (s'.phases 2).error = some .osError ∧
      ∀ n, KeepsOthers 2 (s.sessions n) (s'.sessions n) := by
  obtain ⟨s, hs, hreceiver, hsender, hnew, ⟨p, hp, hinvolves⟩, hnext⟩ :=
    Machine.exists_of_execBy (m := server defaultEnv) (G := fun _ _ => True)
      (upToStart ++ [.accept 2])
      (P := fun s : State (Fin 3) =>
        ((s.sessions (.str "s1")).receivers.get? (.str "recv0")).map Prod.fst = some 0 ∧
          (s.sessions (.str "s1")).senders.get? (.str "cam0") = some 1 ∧
          ((s.sessions (.str "s1")).receivers.get? (.str "recv1")).isNone = true ∧
          (∃ p ∈ (s.sessions (.str "s1")).pendingAck (.str "cam0"), ¬ p.involves 2) ∧
          (s.step defaultEnv (.line 2 (.obj secondRegister))).any (fun t =>
            ¬ (t.phases 2).Idle ∧ (t.step defaultEnv (.sendRaises 2)).any (fun s' =>
              (s'.phases 2).error = some .osError))) (by decide +kernel)
  obtain ⟨t, hline, ht⟩ := (Option.any_eq_true _ _).mp hnext
  obtain ⟨hbusy, hnext'⟩ := of_decide_eq_true ht
  obtain ⟨s', hraises, hend⟩ := (Option.any_eq_true _ _).mp hnext'
  replace hend := of_decide_eq_true hend
  have hclosed : s'.phases 2 = .closed (some .osError) := by
    cases hphase : s'.phases 2 with
    | closed e =>
      rw [hphase] at hend
      exact congrArg Phase.closed hend
    | _ =>
      rw [hphase] at hend
      cases hend
  have hharms : ¬ Harms defaultEnv s 2 secondRegister := by
    rintro (⟨name, rid, hportless, -⟩ | ⟨peer, w, hreg, hheld, -⟩ | ⟨_, _, _, _, htype, -⟩)
    · obtain ⟨e, he⟩ := hportless.ports
      cases he
    · obtain rfl : Peer.mk (.str "s1") .receiver (.str "recv1") = peer := Option.some.inj hreg
      rw [State.Holds, Option.isNone_iff_eq_none.mp hnew] at hheld
      cases hheld
    · exact absurd (Fields.type_unique (a := "register") rfl htype) (by decide)
  refine ⟨s, s', p, hs, hreceiver, hsender, hp, hinvolves, hend, ?_⟩
  refine ((rejected_keeps_others defaultEnv s t s' 2 secondRegister _
    (.await hline hbusy (.raise hraises hclosed))).2 (fun x hx => ?_)).mpr hharms
  rw [List.mem_singleton.mp hx]
  rfl

/-- A registration for the id of the default receiver that names no ports. -/
def portlessRegister : Fields :=
  [("type", .str "register"), ("role", .str "receiver"), ("session", .str "s1"),
    ("receiver", .str "recv0")]

theorem portless_portlessRegister :
    Portless defaultEnv portlessRegister (.str "s1") (.str "recv0") where
  type := rfl
  session := rfl
  role := ⟨_, rfl, rfl⟩
  receiver := rfl
  ports := ⟨_, rfl⟩

/-- A third connection sends it while the receiver owes the sender its answer. -/
theorem portless_register_drops_handshake : ¬ ∀ s : State (Fin 3),
    (server defaultEnv).Reachable s → ∀ c msg s' e,
      (s.step defaultEnv (.line c (.obj msg))).isSome = true →
        s.dispatch defaultEnv c (.obj msg) = (s', .raised e) →
          ∀ n, KeepsOthers c (s.sessions n) ((s'.close c (some e)).sessions n) := by
  intro h
  obtain ⟨s, hs, hstep, ⟨held, hheld, hreceiver⟩, p, hp, hinvolved⟩ :=
    Machine.exists_of_execBy (m := server defaultEnv) (G := fun _ _ => True)
      (upToStart ++ [.accept 2])
      (P := fun s : State (Fin 3) =>
        (s.step defaultEnv (.line 2 (.obj portlessRegister))).isSome = true ∧
          (∃ e ∈ (s.sessions (.str "s1")).receivers.get? (.str "recv0"), e.1 = 0) ∧
            ∃ p ∈ (s.sessions (.str "s1")).pendingAck (.str "cam0"),
              p.involves 0 ∧ ¬ p.involves 2)
      (by decide +kernel)
  obtain ⟨e, hdispatch⟩ := dispatch_portless (s := s) (c := 2) portless_portlessRegister
  obtain ⟨w, info⟩ := held
  obtain rfl : w = 0 := hreceiver
  refine not_keeps_of_drops hdispatch ⟨_, _, portless_portlessRegister, 0, info, .str "cam0", p,
    hheld, hp, hinvolved.1, hinvolved.2⟩ ?_
  exact h s hs 2 portlessRegister _ e hstep hdispatch

end Control
end P5G
