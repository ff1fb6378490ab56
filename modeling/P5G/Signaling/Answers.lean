import P5G.Signaling.Relay

/-!
# Whom an answer reaches

The relay routes an answer by the stream id alone, to the connection that holds
the id when the answer is read.  That is the connection that registered the id
last, which need not be the one whose offer is answered.
-/

namespace P5G
namespace Signaling

open Control (Role Peer Act)

variable {Conn : Type*} [DecidableEq Conn] {s s' : State Conn} {c : Conn}

def Out.IsOffer (stream : Key) : Out → Prop
  | .offer k _ => k = stream
  | _ => False

def Out.IsAnswer (stream : Key) : Out → Prop
  | .answer k _ _ => k = stream
  | _ => False

instance (stream : Key) : (o : Out) → Decidable (o.IsOffer stream)
  | .offer k _ => inferInstanceAs (Decidable (k = stream))
  | .ready _ | .answer _ _ _ => inferInstanceAs (Decidable False)

instance (stream : Key) : (o : Out) → Decidable (o.IsAnswer stream)
  | .answer k _ _ => inferInstanceAs (Decidable (k = stream))
  | .ready _ | .offer _ _ => inferInstanceAs (Decidable False)

/-- An offer of one connection for a stream was relayed to another. -/
def Offered (sent : List (Sent Conn)) (origin dest : Conn) (stream : Key) : Prop :=
  ∃ x ∈ sent, x.origin = origin ∧ x.dest = dest ∧ x.out.IsOffer stream

instance (sent : List (Sent Conn)) (origin dest : Conn) (stream : Key) :
    Decidable (Offered sent origin dest stream) :=
  inferInstanceAs (Decidable (∃ x ∈ sent, _))

/-- Every answer went to a connection whose offer for the stream had been
relayed to the connection that answers. -/
def Routed (sent : List (Sent Conn)) : Prop :=
  ∀ before x after, sent = before ++ x :: after → ∀ stream, x.out.IsAnswer stream →
    Offered before x.dest x.origin stream

omit [DecidableEq Conn] in
theorem routed_append {sent : List (Sent Conn)} {x : Sent Conn} :
    Routed (sent ++ [x]) ↔ Routed sent ∧
      ∀ stream, x.out.IsAnswer stream → Offered sent x.dest x.origin stream := by
  constructor
  · intro h
    refine ⟨fun before y after heq => ?_, h sent x [] rfl⟩
    exact h before y (after ++ [x]) (by rw [heq, List.append_assoc]; rfl)
  · rintro ⟨hsent, hx⟩ before y after heq
    rcases List.eq_nil_or_concat after with rfl | ⟨init, last, rfl⟩
    · obtain ⟨rfl, hy⟩ := List.append_inj' heq rfl
      obtain rfl : x = y := List.singleton_inj.mp hy
      exact hx
    · rw [List.concat_eq_append, ← List.cons_append, ← List.append_assoc] at heq
      obtain ⟨rfl, -⟩ := List.append_inj' heq rfl
      exact hsent before y init rfl

/-! ## What one message can do -/

def registration : Json → Option Peer
  | .obj msg =>
    match Fields.get? msg "type", Fields.itemKey msg "session", Fields.item msg "role" with
    | some (.str t), .ok name, .ok role =>
      if t = "register" then
        match Control.State.roleOf role, Fields.itemKey msg "stream",
          Fields.itemKey msg "receiver" with
        | some .sender, .ok stream, _ => some ⟨name, .sender, stream⟩
        | some .receiver, _, .ok rid => some ⟨name, .receiver, rid⟩
        | _, _, _ => none
      else none
    | _, _, _ => none
  | _ => none

def answered (s : State Conn) (c : Conn) : Json → Option (Key × Key)
  | .obj msg =>
    match Fields.get? msg "type", s.peers c, Fields.itemKey msg "stream",
      Fields.item msg "sdp" with
    | some (.str t), some peer, .ok stream, .ok _ =>
      if t = "answer" ∧ ((s.sessions peer.session).senders.get? stream).isSome then
        some (peer.session, stream)
      else none
    | _, _, _, _ => none
  | _ => none

inductive Dispatched (s : State Conn) (c : Conn) (msg : Json) : State Conn × Next → Prop
  | raised (e : PyError) (hr : registration msg = none) (ha : answered s c msg = none) :
      Dispatched s c msg (s, .raised e)
  | ignored (hr : registration msg = none) (ha : answered s c msg = none) :
      Dispatched s c msg (s, .reading)
  | sender (name stream : Key) (hr : registration msg = some ⟨name, .sender, stream⟩)
      (ha : answered s c msg = none) :
      Dispatched s c msg ((s.setSender c name stream).startLoop c name .hear)
  | receiver (name rid : Key) (hr : registration msg = some ⟨name, .receiver, rid⟩)
      (ha : answered s c msg = none) :
      Dispatched s c msg ((s.setReceiver c name rid).startLoop c name (.announce rid))
  | offer (w : Conn) (stream : Key) (sdp : Json) (hr : registration msg = none)
      (ha : answered s c msg = none) :
      Dispatched s c msg (s.send c w (.offer stream sdp), .sending)
  | answer (name stream rid : Key) (w : Conn) (sdp : Json) (hr : registration msg = none)
      (ha : answered s c msg = some (name, stream))
      (hw : (s.sessions name).senders.get? stream = some w) :
      Dispatched s c msg (s.send c w (.answer stream rid sdp), .sending)

/-- Only a register message registers. -/
theorem registration_none {msg : Fields} (h : msg.get? "type" ≠ some (.str "register")) :
    registration (.obj msg) = none := by
  dsimp only [registration]
  split
  · next t name role htype _ _ =>
    have ht : t ≠ "register" := fun ht => h (ht ▸ htype)
    rw [if_neg ht]
  · rfl

omit [DecidableEq Conn] in
/-- Only an answer is one. -/
theorem answered_none {msg : Fields} (h : msg.get? "type" ≠ some (.str "answer")) :
    answered s c (.obj msg) = none := by
  dsimp only [answered]
  split
  · next t peer stream sdp htype _ _ _ =>
    have ht : t ≠ "answer" := fun ht => h (ht ▸ htype)
    rw [if_neg (fun hboth => ht hboth.1)]
  · rfl

theorem register_cases {msg : Fields} (htype : msg.get? "type" = some (.str "register")) :
    Dispatched s c (.obj msg) (s.register c msg) := by
  have ha : answered s c (.obj msg) = none := answered_none (by simp [htype])
  unfold State.register
  split
  · next e h => exact .raised e (by simp [registration, htype, h]) ha
  · next e hname h => exact .raised e (by simp [registration, htype, hname, h]) ha
  · next name role hname hrole =>
    split
    · next hr =>
      split
      · next e h => exact .raised e (by simp [registration, htype, hname, hrole, hr, h]) ha
      · next stream h =>
        exact .sender name stream (by simp [registration, htype, hname, hrole, hr, h]) ha
    · next hr =>
      split
      · next e h => exact .raised e (by simp [registration, htype, hname, hrole, hr, h]) ha
      · next rid h =>
        exact .receiver name rid (by simp [registration, htype, hname, hrole, hr, h]) ha
    · next hr => exact .ignored (by simp [registration, htype, hname, hrole, hr]) ha

theorem routeOffer_cases {msg : Fields} (htype : msg.get? "type" = some (.str "offer")) :
    Dispatched s c (.obj msg) (s.routeOffer c msg) := by
  have hr : registration (.obj msg) = none := registration_none (by simp [htype])
  have ha : answered s c (.obj msg) = none := answered_none (by simp [htype])
  unfold State.routeOffer
  split
  · exact .raised _ hr ha
  · next peer hpeer =>
    split
    · next e h => exact .raised e hr ha
    · next rid hto =>
      split
      · exact .ignored hr ha
      · next w hw =>
        split
        · next e h => exact .raised e hr ha
        · next sdp h => exact .offer w peer.id sdp hr ha

theorem routeAnswer_cases {msg : Fields} (htype : msg.get? "type" = some (.str "answer")) :
    Dispatched s c (.obj msg) (s.routeAnswer c msg) := by
  have hr : registration (.obj msg) = none := registration_none (by simp [htype])
  unfold State.routeAnswer
  split
  · next h => exact .raised _ hr (by simp [answered, htype, h])
  · next peer hpeer =>
    split
    · next e h => exact .raised e hr (by simp [answered, htype, hpeer, h])
    · next stream hstream =>
      split
      · next hw =>
        refine .ignored hr ?_
        dsimp only [answered]
        rw [htype, hpeer, hstream]
        split
        · next heq _ _ =>
          cases heq
          simp_all
        · rfl
      · next w hw =>
        split
        · next e h => exact .raised e hr (by simp [answered, htype, hpeer, hstream, h])
        · next sdp h =>
          exact .answer peer.session stream peer.id w sdp hr
            (by simp [answered, htype, hpeer, hstream, h, hw]) hw

theorem dispatch_cases (s : State Conn) (c : Conn) (msg : Json) :
    Dispatched s c msg (s.dispatch c msg) := by
  unfold State.dispatch
  split
  · next fields =>
    split
    · next t htype =>
      split
      · next ht => exact register_cases (ht ▸ htype)
      · next hregister =>
        split
        · next ht => exact routeOffer_cases (ht ▸ htype)
        · split
          · next ht => exact routeAnswer_cases (ht ▸ htype)
          · next hanswer =>
            exact .ignored (registration_none (by simpa [htype] using hregister))
              (answered_none (by simpa [htype] using hanswer))
    · next h => exact .ignored (registration_none (h _)) (answered_none (h _))
  · next h =>
    have hr : registration msg = none := by
      cases msg with
      | obj fields => exact absurd rfl (h fields)
      | _ => rfl
    have ha : answered s c msg = none := by
      cases msg with
      | obj fields => exact absurd rfl (h fields)
      | _ => rfl
    exact .raised _ hr ha

/-! ## What one step can do -/

/-- `t` comes after `s` without a new sender in a table and without an
answer. -/
structure Quiet (s t : State Conn) : Prop where
  senders : ∀ n k w, (t.sessions n).senders.get? k = some w →
    (s.sessions n).senders.get? k = some w
  sent : ∃ added, t.sent = s.sent ++ added ∧ ∀ x ∈ added, ∀ stream, ¬ x.out.IsAnswer stream

namespace Quiet

variable {t u : State Conn}

omit [DecidableEq Conn] in
theorem refl (s : State Conn) : Quiet s s :=
  ⟨fun _ _ _ h => h, [], (List.append_nil _).symm, fun _ hx => absurd hx List.not_mem_nil⟩

omit [DecidableEq Conn] in
theorem trans (h : Quiet s t) (h' : Quiet t u) : Quiet s u := by
  obtain ⟨added, hadded, hno⟩ := h.sent
  obtain ⟨added', hadded', hno'⟩ := h'.sent
  refine ⟨fun n k w hw => h.senders n k w (h'.senders n k w hw), added ++ added', ?_, ?_⟩
  · rw [hadded', hadded, List.append_assoc]
  · intro x hx
    rcases List.mem_append.mp hx with hx | hx
    · exact hno x hx
    · exact hno' x hx

theorem setPhase (c : Conn) (p : Phase) : Quiet s (s.setPhase c p) :=
  ⟨(refl s).senders, (refl s).sent⟩

omit [DecidableEq Conn] in
theorem send (dest : Conn) (out : Out) (h : ∀ stream, ¬ out.IsAnswer stream) :
    Quiet s (s.send c dest out) := by
  refine ⟨(refl s).senders, [⟨c, dest, out⟩], rfl, fun x hx => ?_⟩
  rw [List.mem_singleton.mp hx]
  exact h

theorem close (c : Conn) (e : Option PyError) : Quiet s (s.close c e) := by
  refine trans ?_ (setPhase c _)
  unfold State.unregister
  split
  · exact refl s
  · next peer hpeer =>
    refine ⟨fun n k w hw => ?_, (refl s).sent⟩
    dsimp only [State.setSession, State.setPeer] at hw
    by_cases hn : n = peer.session
    · subst hn
      rw [Function.update_self, Session.remove] at hw
      split at hw
      · split at hw
        · by_cases hk : k = peer.id
          · rw [hk, Dict.get?_erase_self] at hw
            cases hw
          · rwa [Dict.get?_erase_ne hk] at hw
        · exact hw
      · exact hw
    · rwa [Function.update_of_ne hn] at hw

theorem visit (l : Loop) (i : Nat) : Quiet s (State.finish c (s.visit c l i)) := by
  unfold State.visit
  split
  · exact setPhase c _
  · next dest rid _ => exact (send dest (.ready rid) (fun _ h => h)).trans (setPhase c _)

theorem startLoop (name : Key) (kind : LoopKind) :
    Quiet s (State.finish c (s.startLoop c name kind)) :=
  visit _ 0

theorem resumeLoop (l : Loop) (choice : Control.Choice) :
    Quiet s (State.finish c (s.resumeLoop c l choice)) := by
  unfold State.resumeLoop
  split
  · exact visit l l.pos
  · split
    · exact close c _
    · cases choice with
      | raise => exact close c _
      | stop => exact setPhase c _
      | visit i => exact visit l i

theorem setReceiver (name rid : Key) : Quiet s (s.setReceiver c name rid) := by
  refine ⟨fun n k w hw => ?_, (refl s).sent⟩
  dsimp only [State.setReceiver, State.setSession, State.setPeer] at hw
  by_cases hn : n = name
  · subst hn
    rwa [Function.update_self] at hw
  · rwa [Function.update_of_ne hn] at hw

omit [DecidableEq Conn] in
theorem routed_iff (h : Quiet s t) : Routed t.sent ↔ Routed s.sent := by
  obtain ⟨added, hadded, hno⟩ := h.sent
  rw [hadded]
  clear hadded h
  induction added using List.reverseRecOn with
  | nil => rw [List.append_nil]
  | append_singleton added x ih =>
    rw [← List.append_assoc, routed_append,
      ih (fun y hy => hno y (List.mem_append_left _ hy))]
    refine and_iff_left fun stream hx => ?_
    exact absurd hx (hno x (List.mem_append_right _ List.mem_cons_self) stream)

end Quiet

/-- A step makes an entry of a table of senders, relays an answer, or neither. -/
inductive Stepped (s : State Conn) : Act Conn → State Conn → Prop
  | quiet (a : Act Conn) (s' : State Conn)
      (hline : ∀ c msg, a = .line c msg →
        (∀ name stream, registration msg ≠ some ⟨name, .sender, stream⟩) ∧
          answered s c msg = none)
      (h : Quiet s s') : Stepped s a s'
  | registers (c : Conn) (msg : Json) (name stream : Key) (s' : State Conn)
      (hr : registration msg = some ⟨name, .sender, stream⟩) (ha : answered s c msg = none)
      (h : Quiet (s.setSender c name stream) s') : Stepped s (.line c msg) s'
  | answers (c : Conn) (msg : Json) (name stream rid : Key) (w : Conn) (sdp : Json)
      (hr : registration msg = none) (ha : answered s c msg = some (name, stream))
      (hw : (s.sessions name).senders.get? stream = some w) :
      Stepped s (.line c msg) ((s.send c w (.answer stream rid sdp)).setPhase c .sending)

theorem dispatched_cases {msg : Json} {r : State Conn × Next} (h : Dispatched s c msg r) :
    Stepped s (.line c msg) (State.finish c r) := by
  have hline (hr : ∀ name stream, registration msg ≠ some ⟨name, .sender, stream⟩)
      (ha : answered s c msg = none) : ∀ c' msg', Act.line c msg = .line c' msg' →
        (∀ name stream, registration msg' ≠ some ⟨name, .sender, stream⟩) ∧
          answered s c' msg' = none := by
    intro c' msg' heq
    cases heq
    exact ⟨hr, ha⟩
  cases h with
  | raised e hr ha => exact .quiet _ _ (hline (by simp [hr]) ha) (.close c _)
  | ignored hr ha => exact .quiet _ _ (hline (by simp [hr]) ha) (.setPhase c _)
  | sender name stream hr ha => exact .registers c msg name stream _ hr ha (.startLoop _ _)
  | receiver name rid hr ha =>
    exact .quiet _ _ (hline (by simp [hr]) ha) ((Quiet.setReceiver name rid).trans (.startLoop _ _))
  | offer w stream sdp hr ha =>
    have hsend : Quiet s (s.send c w (.offer stream sdp)) := .send w _ (fun _ h => h)
    exact .quiet _ _ (hline (by simp [hr]) ha) (hsend.trans (.setPhase c _))
  | answer name stream rid w sdp hr ha hw => exact .answers c msg name stream rid w sdp hr ha hw

theorem step_cases {a : Act Conn} (h : s.step a = some s') : Stepped s a s' := by
  cases a with
  | accept c =>
    simp only [State.step] at h
    split at h <;> cases h
    exact .quiet _ _ (fun _ _ heq => by cases heq) (.setPhase c _)
  | line c msg =>
    simp only [State.step] at h
    split at h <;> cases h
    exact dispatched_cases (dispatch_cases s c msg)
  | badLine c =>
    simp only [State.step] at h
    split at h <;> cases h
    exact .quiet _ _ (fun _ _ heq => by cases heq) (.refl s)
  | eof c =>
    simp only [State.step] at h
    split at h <;> cases h
    exact .quiet _ _ (fun _ _ heq => by cases heq) (.close c none)
  | resume c choice =>
    simp only [State.step] at h
    split at h <;> cases h
    · exact .quiet _ _ (fun _ _ heq => by cases heq) (.setPhase c _)
    · next l _ => exact .quiet _ _ (fun _ _ heq => by cases heq) (.resumeLoop l choice)
  | sendRaises c =>
    simp only [State.step] at h
    split at h <;> cases h
    · exact .quiet _ _ (fun _ _ heq => by cases heq) (.close c _)
    · exact .quiet _ _ (fun _ _ heq => by cases heq) (.close c _)

/-- The connection that registered a stream of a session last. -/
def lastSender (log : List (Act Conn)) (name stream : Key) : Option Conn :=
  log.foldl (fun last a =>
    match a with
    | .line c msg => if registration msg = some ⟨name, .sender, stream⟩ then some c else last
    | _ => last) none

/-- The table names nobody but who registered last. -/
def LastHolds (x : State Conn × List (Act Conn)) : Prop :=
  ∀ name stream w, (x.1.sessions name).senders.get? stream = some w →
    lastSender x.2 name stream = some w

omit [DecidableEq Conn] in
theorem lastSender_registers {log : List (Act Conn)} {msg : Json} {name stream : Key}
    (hr : registration msg = some ⟨name, .sender, stream⟩) (n k : Key) :
    lastSender (log ++ [.line c msg]) n k =
      if n = name ∧ k = stream then some c else lastSender log n k := by
  rw [lastSender, List.foldl_append]
  show (if registration msg = _ then _ else _) = _
  rw [hr]
  by_cases hnk : n = name ∧ k = stream
  · rw [if_pos hnk, hnk.1, hnk.2, if_pos rfl]
  · rw [if_neg hnk, if_neg]
    · rfl
    · rintro ⟨⟩
      exact hnk ⟨rfl, rfl⟩

omit [DecidableEq Conn] in
theorem lastSender_other {log : List (Act Conn)} {a : Act Conn}
    (h : ∀ c msg, a = .line c msg →
      ∀ name stream, registration msg ≠ some ⟨name, .sender, stream⟩) (n k : Key) :
    lastSender (log ++ [a]) n k = lastSender log n k := by
  rw [lastSender, List.foldl_append]
  cases a with
  | line c msg =>
    show (if registration msg = _ then _ else _) = _
    rw [if_neg (h c msg rfl n k)]
    rfl
  | _ => rfl

theorem senders_setSender (name stream n k : Key) :
    ((s.setSender c name stream).sessions n).senders.get? k =
      if n = name ∧ k = stream then some c else (s.sessions n).senders.get? k := by
  dsimp only [State.setSender, State.setSession, State.setPeer]
  by_cases hn : n = name
  · subst hn
    rw [Function.update_self]
    by_cases hk : k = stream
    · rw [if_pos ⟨rfl, hk⟩, hk, Dict.get?_set_self]
    · rw [if_neg (fun h => hk h.2), Dict.get?_set_ne hk]
  · rw [Function.update_of_ne hn, if_neg (fun h => hn h.1)]

theorem lastHolds_step {x x' : State Conn × List (Act Conn)} {a : Act Conn} (h : LastHolds x)
    (hs : relay.logged.step x a = some x') : LastHolds x' := by
  obtain ⟨t, log⟩ := x'
  obtain ⟨hstep, hlog⟩ := Machine.logged_step.mp hs
  dsimp only at hstep hlog
  subst hlog
  intro name stream w hw
  show lastSender (x.2 ++ [a]) name stream = some w
  cases step_cases hstep with
  | quiet _ _ hline hq =>
    rw [lastSender_other (fun c msg heq => (hline c msg heq).1)]
    exact h name stream w (hq.senders name stream w hw)
  | registers c msg n k _ hr _ hq =>
    have hset := hq.senders name stream w hw
    rw [senders_setSender] at hset
    rw [lastSender_registers hr]
    by_cases hnk : name = n ∧ stream = k
    · rwa [if_pos hnk] at hset ⊢
    · rw [if_neg hnk] at hset ⊢
      exact h name stream w hset
  | answers c msg n k rid u sdp hr =>
    rw [lastSender_other (fun _ _ heq => by cases heq; simp [hr])]
    exact h name stream w hw

theorem lastHolds_reachable {x : State Conn × List (Act Conn)} (h : relay.logged.Reachable x) :
    LastHolds x := by
  refine h.invariant ?_ (fun _ _ _ hx hs => lastHolds_step hx hs)
  intro name stream w hw
  cases hw

/-! ## Answers -/

/-- The connection that registered a stream last has had an offer relayed to
the one that answers. -/
def Standing (x : State Conn × List (Act Conn)) (c : Conn) : Option (Key × Key) → Prop
  | some (name, stream) => ∃ w ∈ lastSender x.2 name stream, Offered x.1.sent w c stream
  | none => True

/-- An answer that finds its stream in the table is to a standing offer. -/
def Invited (x : State Conn × List (Act Conn)) : Act Conn → Prop
  | .line c msg => Standing x c (answered x.1 c msg)
  | _ => True

instance (x : State Conn × List (Act Conn)) (c : Conn) :
    (r : Option (Key × Key)) → Decidable (Standing x c r)
  | some (name, stream) =>
    inferInstanceAs (Decidable (∃ w ∈ lastSender x.2 name stream, Offered x.1.sent w c stream))
  | none => inferInstanceAs (Decidable True)

instance (x : State Conn × List (Act Conn)) : (a : Act Conn) → Decidable (Invited x a)
  | .line c msg => inferInstanceAs (Decidable (Standing x c (answered x.1 c msg)))
  | .accept _ | .badLine _ | .eof _ | .resume _ _ | .sendRaises _ =>
    inferInstanceAs (Decidable True)

/-- A step keeps every answer routed if and only if it is invited. -/
theorem routed_step_iff {x x' : State Conn × List (Act Conn)} {a : Act Conn}
    (hx : relay.logged.Reachable x) (hsent : Routed x.1.sent)
    (hs : relay.logged.step x a = some x') : Routed x'.1.sent ↔ Invited x a := by
  obtain ⟨t, log⟩ := x'
  obtain ⟨hstep, -⟩ := Machine.logged_step.mp hs
  cases step_cases hstep with
  | quiet _ _ hline hq =>
    refine iff_of_true (hq.routed_iff.mpr hsent) ?_
    cases a with
    | line c msg =>
      rw [Invited, (hline c msg rfl).2]
      trivial
    | _ => trivial
  | registers c msg name stream _ hr ha hq =>
    refine iff_of_true (hq.routed_iff.mpr hsent) ?_
    rw [Invited, ha]
    trivial
  | answers c msg name stream rid w sdp hr ha hw =>
    have hlast := lastHolds_reachable hx name stream w hw
    have hrouted : Routed (x.1.sent ++ [⟨c, w, .answer stream rid sdp⟩]) ↔
        Offered x.1.sent w c stream := by
      rw [routed_append, and_iff_right hsent]
      constructor
      · intro h
        exact h stream rfl
      · rintro h k rfl
        exact h
    show Routed (x.1.sent ++ [⟨c, w, .answer stream rid sdp⟩]) ↔ _
    rw [hrouted, Invited, ha]
    constructor
    · intro h
      exact ⟨w, hlast, h⟩
    · rintro ⟨u, hu, h⟩
      rw [Option.mem_def, hlast] at hu
      cases hu
      exact h

/-- Answers are never taken back, so a run that is routed was so all along. -/
theorem routed_of_step {a : Act Conn} (h : s.step a = some s') (hsent : Routed s'.sent) :
    Routed s.sent := by
  cases step_cases h with
  | quiet _ _ _ hq => exact hq.routed_iff.mp hsent
  | registers c msg name stream _ _ _ hq => exact hq.routed_iff.mp hsent
  | answers c msg name stream rid w sdp =>
    exact (routed_append.mp hsent).1

/-- Two senders of one stream, one after the other, and a receiver. -/
inductive Party where
  | sender
  | receiver
  | successor
  deriving DecidableEq

/-- A sender, a receiver, and the offer of the one to the other. -/
def upToOffer : List (Act (Party)) :=
  [.accept .sender, .line .sender (.obj (senderRegister "s1" "cam0")), .accept .receiver,
    .line .receiver (.obj (receiverRegister "s1" "recv0")), .resume .receiver .stop,
    .line .sender (.obj (offer "recv0" "cam0" "v=0")), .resume .sender .stop]

end Signaling
end P5G
