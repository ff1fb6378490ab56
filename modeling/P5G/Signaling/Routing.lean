import P5G.Signaling.Answers

/-!
# What one step of the relay can do

Only a register message of a connection makes an entry that names it, and a
step sends one message at most: an offer or an answer that the relay has just
read, or word that a receiver is there.
-/

namespace P5G
namespace Signaling

open Control (Role Peer Act Choice)

variable {Conn : Type*} [DecidableEq Conn] {s s' t : State Conn} {c : Conn}

/-- What a step may send, and what it has read for it. -/
inductive Sends (s : State Conn) : Act Conn → Sent Conn → Prop
  | ready (a : Act Conn) (c dest : Conn) (rid : Key) : Sends s a ⟨c, dest, .ready rid⟩
  | offer (c w : Conn) (fields : Fields) (peer : Peer) (rid : Key) (sdp : Json)
      (htype : fields.get? "type" = some (.str "offer")) (hpeer : s.peers c = some peer)
      (hto : fields.itemKey "to" = .ok rid)
      (hw : (s.sessions peer.session).receivers.get? rid = some w)
      (hsdp : fields.item "sdp" = .ok sdp) :
      Sends s (.line c (.obj fields)) ⟨c, w, .offer peer.id sdp⟩
  | answer (c w : Conn) (fields : Fields) (peer : Peer) (stream : Key) (sdp : Json)
      (htype : fields.get? "type" = some (.str "answer")) (hpeer : s.peers c = some peer)
      (hstream : fields.itemKey "stream" = .ok stream)
      (hw : (s.sessions peer.session).senders.get? stream = some w)
      (hsdp : fields.item "sdp" = .ok sdp) :
      Sends s (.line c (.obj fields)) ⟨c, w, .answer stream peer.id sdp⟩

/-- The entries of `t` are entries of `s` or made by the register message that the action brings;
what `t` has sent is what `s` has, and one message at most. -/
structure Follows (s : State Conn) (a : Act Conn) (t : State Conn) : Prop where
  peers : ∀ c p, t.peers c = some p →
    s.peers c = some p ∨ ∃ msg, a = .line c msg ∧ registration msg = some p
  senders : ∀ n k w, (t.sessions n).senders.get? k = some w →
    (s.sessions n).senders.get? k = some w ∨
      ∃ msg, a = .line w msg ∧ registration msg = some ⟨n, .sender, k⟩
  receivers : ∀ n k w, (t.sessions n).receivers.get? k = some w →
    (s.sessions n).receivers.get? k = some w ∨
      ∃ msg, a = .line w msg ∧ registration msg = some ⟨n, .receiver, k⟩
  sent : t.sent = s.sent ∨ ∃ x, t.sent = s.sent ++ [x] ∧ Sends s a x

/-- The entries of `t` are entries of `s`, and nothing has been sent. -/
structure Loses (s t : State Conn) : Prop where
  peers : ∀ c p, t.peers c = some p → s.peers c = some p
  senders : ∀ n k w, (t.sessions n).senders.get? k = some w →
    (s.sessions n).senders.get? k = some w
  receivers : ∀ n k w, (t.sessions n).receivers.get? k = some w →
    (s.sessions n).receivers.get? k = some w
  sent : t.sent = s.sent

namespace Loses

omit [DecidableEq Conn] in
theorem refl (s : State Conn) : Loses s s :=
  ⟨fun _ _ h => h, fun _ _ _ h => h, fun _ _ _ h => h, rfl⟩

theorem setPhase (c : Conn) (p : Phase) : Loses s (s.setPhase c p) :=
  ⟨fun _ _ h => h, fun _ _ _ h => h, fun _ _ _ h => h, rfl⟩

theorem close (c : Conn) (e : Option PyError) : Loses s (s.close c e) := by
  unfold State.close State.unregister
  split
  · exact setPhase c _
  · next peer hpeer =>
    refine ⟨fun c' p hp => ?_, fun n k w hw => ?_, fun n k w hw => ?_, rfl⟩
    · have hp : Function.update s.peers c none c' = some p := hp
      by_cases hc : c' = c
      · rw [hc, Function.update_self] at hp
        cases hp
      · rwa [Function.update_of_ne hc] at hp
    · dsimp only [State.setPhase, State.setSession, State.setPeer] at hw
      by_cases hn : n = peer.session
      · subst hn
        rw [Function.update_self, Session.remove] at hw
        split at hw
        · split at hw
          · by_cases hk : k = peer.id
            · rw [hk, Dict.get?_erase_self] at hw
              cases hw
            · rwa [Dict.get?_erase_ne hk] at hw
          · exact hw
        · exact hw
      · rwa [Function.update_of_ne hn] at hw
    · dsimp only [State.setPhase, State.setSession, State.setPeer] at hw
      by_cases hn : n = peer.session
      · subst hn
        rw [Function.update_self, Session.remove] at hw
        split at hw
        · split at hw
          · exact hw
          · by_cases hk : k = peer.id
            · rw [hk, Dict.get?_erase_self] at hw
              cases hw
            · rwa [Dict.get?_erase_ne hk] at hw
        · exact hw
      · rwa [Function.update_of_ne hn] at hw

end Loses

namespace Follows

variable {a : Act Conn}

omit [DecidableEq Conn] in
theorem of_loses (h : Loses s t) : Follows s a t :=
  ⟨fun c p hp => .inl (h.peers c p hp), fun n k w hw => .inl (h.senders n k w hw),
    fun n k w hw => .inl (h.receivers n k w hw), .inl h.sent⟩

omit [DecidableEq Conn] in
theorem trans {u : State Conn} (h : Follows s a t) (h' : Loses t u) : Follows s a u :=
  ⟨fun c p hp => h.peers c p (h'.peers c p hp),
    fun n k w hw => h.senders n k w (h'.senders n k w hw),
    fun n k w hw => h.receivers n k w (h'.receivers n k w hw), h'.sent ▸ h.sent⟩

omit [DecidableEq Conn] in
/-- Nothing has been sent yet, and now word of a receiver is. -/
theorem ready (h : Follows s a t) (hsent : t.sent = s.sent) (dest : Conn) (rid : Key) :
    Follows s a (t.send c dest (.ready rid)) := by
  refine ⟨h.peers, h.senders, h.receivers, .inr ⟨⟨c, dest, .ready rid⟩, ?_, .ready a c dest rid⟩⟩
  show t.sent ++ [_] = s.sent ++ [_]
  rw [hsent]

omit [DecidableEq Conn] in
theorem send {dest : Conn} {out : Out} (h : Sends s a ⟨c, dest, out⟩) :
    Follows s a (s.send c dest out) :=
  ⟨fun _ _ hp => .inl hp, fun _ _ _ hw => .inl hw, fun _ _ _ hw => .inl hw, .inr ⟨_, rfl, h⟩⟩

theorem finish {r : State Conn × Next} (h : Follows s a r.1) :
    Follows s a (State.finish c r) := by
  obtain ⟨t, n⟩ := r
  cases n with
  | raised e => exact h.trans (.close c _)
  | reading => exact h.trans (.setPhase c _)
  | sending => exact h.trans (.setPhase c _)
  | looping l => exact h.trans (.setPhase c _)

omit [DecidableEq Conn] in
theorem visit (h : Follows s a t) (hsent : t.sent = s.sent) (l : Loop) (i : Nat) :
    Follows s a (t.visit c l i).1 := by
  unfold State.visit
  split
  · exact h
  · next dest rid _ => exact h.ready hsent dest rid

theorem setSender {msg : Json} {name stream : Key}
    (h : registration msg = some ⟨name, .sender, stream⟩) :
    Follows s (.line c msg) (s.setSender c name stream) := by
  refine ⟨fun c' p hp => ?_, fun n k w hw => ?_, fun n k w hw => ?_, .inl rfl⟩
  · have hp : Function.update s.peers c (some ⟨name, .sender, stream⟩) c' = some p := hp
    by_cases hc : c' = c
    · rw [hc, Function.update_self] at hp
      exact .inr ⟨msg, by rw [hc], h.trans hp⟩
    · rw [Function.update_of_ne hc] at hp
      exact .inl hp
  · rw [senders_setSender] at hw
    split at hw
    · next hnk =>
      cases hw
      exact .inr ⟨msg, rfl, by rw [h, hnk.1, hnk.2]⟩
    · exact .inl hw
  · dsimp only [State.setSender, State.setSession, State.setPeer] at hw
    by_cases hn : n = name
    · subst hn
      rw [Function.update_self] at hw
      exact .inl hw
    · rw [Function.update_of_ne hn] at hw
      exact .inl hw

theorem setReceiver {msg : Json} {name rid : Key}
    (h : registration msg = some ⟨name, .receiver, rid⟩) :
    Follows s (.line c msg) (s.setReceiver c name rid) := by
  refine ⟨fun c' p hp => ?_, fun n k w hw => ?_, fun n k w hw => ?_, .inl rfl⟩
  · have hp : Function.update s.peers c (some ⟨name, .receiver, rid⟩) c' = some p := hp
    by_cases hc : c' = c
    · rw [hc, Function.update_self] at hp
      exact .inr ⟨msg, by rw [hc], h.trans hp⟩
    · rw [Function.update_of_ne hc] at hp
      exact .inl hp
  · dsimp only [State.setReceiver, State.setSession, State.setPeer] at hw
    by_cases hn : n = name
    · subst hn
      rw [Function.update_self] at hw
      exact .inl hw
    · rw [Function.update_of_ne hn] at hw
      exact .inl hw
  · dsimp only [State.setReceiver, State.setSession, State.setPeer] at hw
    by_cases hn : n = name
    · subst hn
      rw [Function.update_self] at hw
      by_cases hk : k = rid
      · rw [hk, Dict.get?_set_self] at hw
        cases hw
        exact .inr ⟨msg, rfl, by rw [h, hk]⟩
      · rw [Dict.get?_set_ne hk] at hw
        exact .inl hw
    · rw [Function.update_of_ne hn] at hw
      exact .inl hw

theorem register {fields : Fields} (htype : fields.get? "type" = some (.str "register")) :
    Follows s (.line c (.obj fields)) (s.register c fields).1 := by
  unfold State.register
  split
  · exact of_loses (.refl s)
  · exact of_loses (.refl s)
  · next name role hname hrole =>
    split
    · next hr =>
      split
      · exact of_loses (.refl s)
      · next stream hstream =>
        have hreg : registration (.obj fields) = some ⟨name, .sender, stream⟩ := by
          simp [registration, htype, hname, hrole, hr, hstream]
        exact (setSender hreg).visit rfl _ _
    · next hr =>
      split
      · exact of_loses (.refl s)
      · next rid hrid =>
        have hreg : registration (.obj fields) = some ⟨name, .receiver, rid⟩ := by
          simp [registration, htype, hname, hrole, hr, hrid]
        exact (setReceiver hreg).visit rfl _ _
    · exact of_loses (.refl s)

omit [DecidableEq Conn] in
theorem routeOffer {fields : Fields} (htype : fields.get? "type" = some (.str "offer")) :
    Follows s (.line c (.obj fields)) (s.routeOffer c fields).1 := by
  unfold State.routeOffer
  split
  · exact of_loses (.refl s)
  · next peer hpeer =>
    split
    · exact of_loses (.refl s)
    · next rid hto =>
      split
      · exact of_loses (.refl s)
      · next w hw =>
        split
        · exact of_loses (.refl s)
        · next sdp hsdp => exact send (.offer c w fields peer rid sdp htype hpeer hto hw hsdp)

omit [DecidableEq Conn] in
theorem routeAnswer {fields : Fields} (htype : fields.get? "type" = some (.str "answer")) :
    Follows s (.line c (.obj fields)) (s.routeAnswer c fields).1 := by
  unfold State.routeAnswer
  split
  · exact of_loses (.refl s)
  · next peer hpeer =>
    split
    · exact of_loses (.refl s)
    · next stream hstream =>
      split
      · exact of_loses (.refl s)
      · next w hw =>
        split
        · exact of_loses (.refl s)
        · next sdp hsdp =>
          exact send (.answer c w fields peer stream sdp htype hpeer hstream hw hsdp)

theorem dispatch (msg : Json) : Follows s (.line c msg) (s.dispatch c msg).1 := by
  unfold State.dispatch
  split
  · next fields =>
    split
    · next type htype =>
      split
      · next ht => exact register (ht ▸ htype)
      · split
        · next ht => exact routeOffer (ht ▸ htype)
        · split
          · next ht => exact routeAnswer (ht ▸ htype)
          · exact of_loses (.refl s)
    · exact of_loses (.refl s)
  · exact of_loses (.refl s)

omit [DecidableEq Conn] in
theorem resumeLoop (l : Loop) (choice : Choice) :
    Follows s a (s.resumeLoop c l choice).1 := by
  have hvisit := (of_loses (a := a) (Loses.refl s)).visit (c := c) rfl l
  unfold State.resumeLoop
  split
  · exact hvisit l.pos
  · split
    · exact of_loses (.refl s)
    · cases choice with
      | raise => exact of_loses (.refl s)
      | stop => exact of_loses (.refl s)
      | visit i => exact hvisit i

end Follows

theorem step_follows {a : Act Conn} (h : s.step a = some s') : Follows s a s' := by
  cases a with
  | accept c =>
    simp only [State.step] at h
    split at h <;> cases h
    exact .of_loses (.setPhase c _)
  | line c msg =>
    simp only [State.step] at h
    split at h <;> cases h
    exact (Follows.dispatch msg).finish
  | badLine c =>
    simp only [State.step] at h
    split at h <;> cases h
    exact .of_loses (.refl s)
  | eof c =>
    simp only [State.step] at h
    split at h <;> cases h
    exact .of_loses (.close c _)
  | resume c choice =>
    simp only [State.step] at h
    split at h <;> cases h
    · exact .of_loses (.setPhase c _)
    · next l _ => exact (Follows.resumeLoop l choice).finish
  | sendRaises c =>
    simp only [State.step] at h
    split at h <;> cases h
    · exact .of_loses (.close c _)
    · exact .of_loses (.close c _)

end Signaling
end P5G
