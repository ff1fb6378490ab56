import P5G.Control.Frame

/-!
# What one message can do

`Dispatched` lists what `dispatch` can do to the state and how it can end, with
the guards of each case.  The invariants of the server are case splits over it.
-/

namespace P5G
namespace Control

variable {Conn : Type*} [DecidableEq Conn] {env : Env Conn} {s s' : State Conn} {c : Conn}

/-- The entry of `peers` that a register message sets, if it is well formed. -/
def registration (env : Env Conn) : Json → Option Peer
  | .obj fields =>
    match Fields.get? fields "type", Fields.itemKey fields "session",
      Fields.item fields "role" with
    | some (.str t), .ok name, .ok role =>
      if t = "register" then
        match State.roleOf role, Fields.itemKey fields "stream", Fields.itemKey fields "receiver",
          readInfo env fields with
        | some .sender, .ok stream, _, _ => some ⟨name, .sender, stream⟩
        | some .receiver, _, .ok rid, .ok _ => some ⟨name, .receiver, rid⟩
        | _, _, _, _ => none
      else none
    | _, _, _ => none
  | _ => none

def Out.Plain : Out → Prop
  | .start _ _ _ _ _ | .ack _ _ _ _ => False
  | .profile msg => msg.get? "type" = some (.str "profile")
  | _ => True

inductive Dispatched (env : Env Conn) (s : State Conn) (c : Conn) (msg : Json) :
    State Conn × Next → Prop
  | raised (e : PyError) (he : e ≠ .dictChanged) : Dispatched env s c msg (s, .raised e)
  | ignored : Dispatched env s c msg (s, .reading)
  | deliver (dest : Conn) (out : Out) (hplain : out.Plain) :
      Dispatched env s c msg (s.send c dest out, .sending)
  | sender (name stream : Key) (h : registration env msg = some ⟨name, .sender, stream⟩) :
      Dispatched env s c msg
        (((s.dropHolder name ((s.sessions name).senders.get? stream)).setSender c name
          stream).startLoop c name .hear)
  | badPorts (name rid : Key) (e : PyError) (he : e ≠ .dictChanged) :
      Dispatched env s c msg
        (s.dropHolder name (((s.sessions name).receivers.get? rid).map Prod.fst), .raised e)
  | receiver (name rid : Key) (info : Info) (fields : Fields) (hmsg : msg = .obj fields)
      (h : registration env msg = some ⟨name, .receiver, rid⟩)
      (hinfo : readInfo env fields = .ok info) :
      Dispatched env s c msg
        (((s.dropHolder name (((s.sessions name).receivers.get? rid).map Prod.fst)).setReceiver c
          name rid info).startLoop c name (.announce rid info))
  | start (peer : Peer) (rid : Key) (recv : Conn) (info : Info) (host : String) (fields : Fields)
      (hmsg : msg = .obj fields) (htype : fields.get? "type" = some (.str "stream-start"))
      (hpeer : s.peers c = some peer) (hto : fields.itemKey "to" = .ok rid)
      (hrecv : (s.sessions peer.session).receivers.get? rid = some (recv, info))
      (hhost : env.peername c = some host) :
      Dispatched env s c msg (s.handOver c peer.session peer.id recv host fields, .sending)
  | forward (peer : Peer) (stream : Key) (p : Pending Conn) (fields : Fields)
      (hmsg : msg = .obj fields) (htype : fields.get? "type" = some (.str "stream-ack"))
      (hpeer : s.peers c = some peer) (hstream : fields.getKey "stream" = .ok stream)
      (hp : (s.sessions peer.session).pendingAck stream = some p)
      (hans : State.answers c peer p fields)
      (hsender : (s.sessions peer.session).senders.get? stream = some p.sender) :
      Dispatched env s c msg
        ((s.popPending peer.session stream).send c p.sender
          (.ack peer.session stream p.generation fields), .sending)
  | senderGone (peer : Peer) (stream : Key) (hpeer : s.peers c = some peer) :
      Dispatched env s c msg (s.popPending peer.session stream, .reading)

theorem key_ne_dictChanged {j : Json} {e : PyError} (h : j.key = .error e) : e ≠ .dictChanged := by
  cases j <;> cases h <;> exact nofun

theorem item_ne_dictChanged {msg : Fields} {name : String} {e : PyError}
    (h : msg.item name = .error e) : e ≠ .dictChanged := by
  rw [Fields.item] at h
  cases hg : msg.get? name with
  | none =>
    rw [hg] at h
    cases h
    exact nofun
  | some j =>
    rw [hg] at h
    cases h

theorem itemKey_ne_dictChanged {msg : Fields} {name : String} {e : PyError}
    (h : msg.itemKey name = .error e) : e ≠ .dictChanged := by
  rw [Fields.itemKey] at h
  cases hi : msg.item name with
  | error e' =>
    rw [hi] at h
    cases h
    exact item_ne_dictChanged hi
  | ok j =>
    rw [hi] at h
    exact key_ne_dictChanged h

theorem int_ne_dictChanged {f : String → Option Int} {j : Json} {e : PyError}
    (h : j.int f = .error e) : e ≠ .dictChanged := by
  cases j with
  | str s =>
    rw [Json.int] at h
    cases hf : f s with
    | none =>
      rw [hf] at h
      cases h
      exact nofun
    | some n =>
      rw [hf] at h
      cases h
  | _ => cases h <;> exact nofun

omit [DecidableEq Conn] in
theorem readInfo_ne_dictChanged {msg : Fields} {e : PyError} (h : readInfo env msg = .error e) :
    e ≠ .dictChanged := by
  unfold readInfo at h
  cases hrtp : msg.item "rtp_port" with
  | error e' =>
    rw [hrtp] at h
    cases h
    exact item_ne_dictChanged hrtp
  | ok j =>
    rw [hrtp] at h
    change (j.int env.intOfStr >>= _) = _ at h
    cases hint : j.int env.intOfStr with
    | error e' =>
      rw [hint] at h
      cases h
      exact int_ne_dictChanged hint
    | ok n =>
      rw [hint] at h
      cases hrtcp : msg.item "rtcp_port" with
      | error e' =>
        rw [hrtcp] at h
        cases h
        exact item_ne_dictChanged hrtcp
      | ok j' =>
        rw [hrtcp] at h
        change (j'.int env.intOfStr >>= _) = _ at h
        cases hint' : j'.int env.intOfStr with
        | error e' =>
          rw [hint'] at h
          cases h
          exact int_ne_dictChanged hint'
        | ok n' =>
          rw [hint'] at h
          cases h

theorem register_cases {msg : Fields} (htype : msg.get? "type" = some (.str "register")) :
    Dispatched env s c (.obj msg) (s.register env c msg) := by
  unfold State.register
  split
  · next e h => exact .raised e (itemKey_ne_dictChanged h)
  · next e _ h => exact .raised e (item_ne_dictChanged h)
  · next name role hname hrole =>
    split
    · next hr =>
      unfold State.registerSender
      split
      · next e h => exact .raised e (itemKey_ne_dictChanged h)
      · next stream hstream =>
        exact .sender name stream (by simp [registration, htype, hname, hrole, hr, hstream])
    · next hr =>
      unfold State.registerReceiver
      split
      · next e h => exact .raised e (itemKey_ne_dictChanged h)
      · next rid hrid =>
        simp only []
        split
        · next e h => exact .badPorts name rid e (readInfo_ne_dictChanged h)
        · next info hinfo =>
          exact .receiver name rid info msg rfl
            (by simp [registration, htype, hname, hrole, hr, hrid, hinfo]) hinfo
    · exact .ignored

theorem routeStreamStart_cases {fields : Fields}
    (htype : fields.get? "type" = some (.str "stream-start")) :
    Dispatched env s c (.obj fields) (s.routeStreamStart env c fields) := by
  unfold State.routeStreamStart
  split
  · exact .raised _ nofun
  · next peer hpeer =>
    split
    · next e h => exact .raised e (itemKey_ne_dictChanged h)
    · next rid hto =>
      split
      · exact .ignored
      · next recv info hrecv =>
        split
        · exact .raised _ nofun
        · next host hhost =>
          exact .start peer rid recv info host fields rfl htype hpeer hto hrecv hhost

theorem routeStreamAck_cases {fields : Fields}
    (htype : fields.get? "type" = some (.str "stream-ack")) :
    Dispatched env s c (.obj fields) (s.routeStreamAck c fields) := by
  unfold State.routeStreamAck
  split
  · exact .ignored
  · next peer hpeer =>
    split
    · next e h => exact .raised e (key_ne_dictChanged h)
    · next stream hstream =>
      split
      · exact .ignored
      · next p hp =>
        split
        · next hans =>
          simp only []
          split
          · next hsender =>
            exact .forward peer stream p fields rfl htype hpeer hstream hp hans hsender
          · exact .senderGone peer stream hpeer
        · exact .ignored

theorem routeProfile_cases {fields : Fields}
    (htype : fields.get? "type" = some (.str "profile")) :
    Dispatched env s c (.obj fields) (s.routeProfile c fields) := by
  unfold State.routeProfile
  split
  · next _ _ e h =>
    refine .raised e ?_
    unfold State.profileSession at h
    split at h
    · exact key_ne_dictChanged h
    · cases h
  · next _ _ _ e _ h => exact .raised e (key_ne_dictChanged h)
  · split
    · exact .ignored
    · exact .deliver _ _ htype

theorem dispatch_cases (env : Env Conn) (s : State Conn) (c : Conn) (msg : Json) :
    Dispatched env s c msg (s.dispatch env c msg) := by
  unfold State.dispatch
  split
  · next fields =>
    split
    · next t htype =>
      unfold State.dispatchType
      split
      · next ht => exact register_cases (ht ▸ htype)
      · split
        · next ht => exact routeStreamStart_cases (ht ▸ htype)
        · split
          · next ht => exact routeStreamAck_cases (ht ▸ htype)
          · split
            · next ht => exact routeProfile_cases (ht ▸ htype)
            · split
              · exact .deliver _ _ trivial
              · exact .ignored
    · exact .ignored
  · exact .raised _ nofun

/-- A dispatch registers no other connection and ends no handler. -/
theorem dispatched_peers {msg : Json} {r : State Conn × Next} (hd : Dispatched env s c msg r) :
    r.1.phases = s.phases ∧ ∀ c', c' ≠ c → r.1.peers c' = s.peers c' := by
  cases hd with
  | raised e => exact ⟨rfl, fun _ _ => rfl⟩
  | ignored => exact ⟨rfl, fun _ _ => rfl⟩
  | deliver dest out hplain => exact ⟨rfl, fun _ _ => rfl⟩
  | sender name stream hreg =>
    refine ⟨?_, fun c' hne => ?_⟩
    · rw [State.startLoop, State.phases_visit, State.phases_setSender, State.phases_dropHolder]
    · rw [State.startLoop, State.peers_visit, State.peers_setSender, if_neg hne,
        State.peers_dropHolder]
  | badPorts name rid e =>
    exact ⟨State.phases_dropHolder, fun _ _ => by rw [State.peers_dropHolder]⟩
  | receiver name rid info fields hmsg hreg =>
    refine ⟨?_, fun c' hne => ?_⟩
    · rw [State.startLoop, State.phases_visit, State.phases_setReceiver, State.phases_dropHolder]
    · rw [State.startLoop, State.peers_visit, State.peers_setReceiver, if_neg hne,
        State.peers_dropHolder]
  | start peer rid recv info host fields => exact ⟨rfl, fun _ _ => rfl⟩
  | forward peer stream p fields => exact ⟨rfl, fun _ _ => rfl⟩
  | senderGone peer stream => exact ⟨rfl, fun _ _ => rfl⟩

omit [DecidableEq Conn] in
/-- A turn of a loop sends one message and suspends, or the loop is over. -/
theorem visit_cases (s : State Conn) (c : Conn) (l : Loop) (i : Nat) :
    ((s.targets c l)[i]? = none ∧ s.visit c l i = (s, .reading)) ∨
      ∃ dest rid info, (s.targets c l)[i]? = some (dest, rid, info) ∧
        s.visit c l i = (s.send c dest (.ready rid info), .looping { l with pos := i + 1 }) := by
  unfold State.visit
  split
  · next h => exact .inl ⟨h, rfl⟩
  · next dest rid info h => exact .inr ⟨dest, rid, info, h, rfl⟩

omit [DecidableEq Conn] in
/-- The loops of `register` begin without an exception. -/
theorem startLoop_ne_raised (s : State Conn) (c : Conn) (name : Key) (kind : LoopKind)
    (e : PyError) : s.startLoop c name kind ≠ (s', .raised e) := by
  intro h
  rw [State.startLoop] at h
  rcases visit_cases s c _ 0 with ⟨-, hv⟩ | ⟨dest, rid, info, -, hv⟩
  · rw [hv] at h
    cases h
  · rw [hv] at h
    cases h

/-- A well-formed registration sets its entries and begins its loop. -/
theorem dispatch_of_registration {msg : Json} {peer : Peer} (h : registration env msg = some peer) :
    (peer.role = .sender ∧ s.dispatch env c msg =
      ((s.dropHolder peer.session ((s.sessions peer.session).senders.get? peer.id)).setSender c
        peer.session peer.id).startLoop c peer.session .hear) ∨
      (peer.role = .receiver ∧ ∃ info, s.dispatch env c msg =
        ((s.dropHolder peer.session
          (((s.sessions peer.session).receivers.get? peer.id).map Prod.fst)).setReceiver c
            peer.session peer.id info).startLoop c peer.session (.announce peer.id info)) := by
  unfold registration at h
  split at h
  · next fields =>
    split at h
    · next t name role htype hname hrole =>
      split at h
      · next ht =>
        subst ht
        have hregister : s.dispatch env c (.obj fields) = s.register env c fields := by
          simp only [State.dispatch, htype, State.dispatchType, ↓reduceIte]
        split at h
        · next stream hr hstream =>
          cases h
          refine .inl ⟨rfl, ?_⟩
          rw [hregister, State.register]
          simp only [hname, hrole, hr, State.registerSender, hstream]
        · next rid info hr hrid hinfo =>
          cases h
          refine .inr ⟨rfl, info, ?_⟩
          rw [hregister, State.register]
          simp only [hname, hrole, hr, State.registerReceiver, hrid, hinfo]
        · cases h
      · cases h
    · cases h
  · cases h

/-- How a suspended loop goes on: at its next position as long as its dict was
not edited, otherwise with the exception, at its end, or anywhere. -/
inductive Turned (s : State Conn) (c : Conn) (l : Loop) : State Conn × Next → Prop
  | next (h : l.edits = s.tableEdits l) : Turned s c l (s.visit c l l.pos)
  | raised (h : l.edits ≠ s.tableEdits l) : Turned s c l (s, .raised .dictChanged)
  | stopped (h : l.edits ≠ s.tableEdits l) : Turned s c l (s, .reading)
  | visited (h : l.edits ≠ s.tableEdits l) (i : Nat) : Turned s c l (s.visit c l i)

omit [DecidableEq Conn] in
theorem resumeLoop_cases (s : State Conn) (c : Conn) (l : Loop) (choice : Choice) :
    Turned s c l (s.resumeLoop c l choice) := by
  unfold State.resumeLoop
  split
  · next h => exact .next h
  · next h =>
    split
    · exact .raised h
    · cases choice with
      | raise => exact .raised h
      | stop => exact .stopped h
      | visit i => exact .visited h i

inductive Stepped (env : Env Conn) (s : State Conn) : Act Conn → State Conn → Prop
  | accept (c : Conn) (h : s.phases c = .absent) : Stepped env s (.accept c) (s.setPhase c .reading)
  | line (c : Conn) (msg : Json) (r : State Conn × Next) (h : s.phases c = .reading)
      (hd : Dispatched env s c msg r) : Stepped env s (.line c msg) (State.finish c r)
  | badLine (c : Conn) (h : s.phases c = .reading) : Stepped env s (.badLine c) s
  | eof (c : Conn) (h : s.phases c = .reading) : Stepped env s (.eof c) (s.close c none)
  | sent (c : Conn) (choice : Choice) (h : s.phases c = .sending) :
      Stepped env s (.resume c choice) (s.setPhase c .reading)
  | turn (c : Conn) (choice : Choice) (l : Loop) (r : State Conn × Next)
      (h : s.phases c = .looping l) (ht : Turned s c l r) :
      Stepped env s (.resume c choice) (State.finish c r)
  | sendRaised (c : Conn) (h : s.phases c = .sending ∨ ∃ l, s.phases c = .looping l) :
      Stepped env s (.sendRaises c) (s.close c (some .osError))

theorem step_cases {a : Act Conn} (h : s.step env a = some s') : Stepped env s a s' := by
  cases a with
  | accept c =>
    simp only [State.step] at h
    split at h <;> cases h
    next hp => exact .accept c hp
  | line c msg =>
    simp only [State.step] at h
    split at h <;> cases h
    next hp => exact .line c msg _ hp (dispatch_cases env s c msg)
  | badLine c =>
    simp only [State.step] at h
    split at h <;> cases h
    next hp => exact .badLine c hp
  | eof c =>
    simp only [State.step] at h
    split at h <;> cases h
    next hp => exact .eof c hp
  | resume c choice =>
    simp only [State.step] at h
    split at h <;> cases h
    · next hp => exact .sent c choice hp
    · next l hp => exact .turn c choice l _ hp (resumeLoop_cases s c l choice)
  | sendRaises c =>
    simp only [State.step] at h
    split at h <;> cases h
    · next hp => exact .sendRaised c (.inl hp)
    · next l hp => exact .sendRaised c (.inr ⟨l, hp⟩)

def Act.conn : Act Conn → Conn
  | .accept c | .line c _ | .badLine c | .eof c | .resume c _ | .sendRaises c => c

theorem close_phases_ne {e : Option PyError} {c' : Conn} (hne : c' ≠ c) :
    (s.close c e).phases c' = s.phases c' := by
  rw [State.close, State.phases_setPhase, State.phases_unregister, if_neg hne]

theorem finish_phases_ne {r : State Conn × Next} {c' : Conn} (hne : c' ≠ c) :
    (State.finish c r).phases c' = r.1.phases c' := by
  obtain ⟨s, n⟩ := r
  cases n with
  | raised e => exact close_phases_ne hne
  | reading => exact (State.phases_setPhase c').trans (if_neg hne)
  | sending => exact (State.phases_setPhase c').trans (if_neg hne)
  | looping l => exact (State.phases_setPhase c').trans (if_neg hne)

omit [DecidableEq Conn] in
theorem turned_phases {l : Loop} {r : State Conn × Next} (ht : Turned s c l r) :
    r.1.phases = s.phases := by
  cases ht with
  | next => exact State.phases_visit
  | raised => rfl
  | stopped => rfl
  | visited => exact State.phases_visit

/-- A step moves one handler. -/
theorem step_phases_ne {a : Act Conn} (h : s.step env a = some s') (hne : c ≠ a.conn) :
    s'.phases c = s.phases c := by
  cases step_cases h with
  | accept c' => exact (State.phases_setPhase c).trans (if_neg hne)
  | line c' msg r _ hd => exact (finish_phases_ne hne).trans (by rw [(dispatched_peers hd).1])
  | badLine c' => rfl
  | eof c' => exact close_phases_ne hne
  | sent c' choice => exact (State.phases_setPhase c).trans (if_neg hne)
  | turn c' choice l r _ ht => exact (finish_phases_ne hne).trans (by rw [turned_phases ht])
  | sendRaised c' => exact close_phases_ne hne

end Control
end P5G
