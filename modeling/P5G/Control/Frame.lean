import P5G.Control.Server

/-!
# What each update of the server leaves alone

For every update of the state, the fields it keeps and what it makes of the
others.
-/

namespace P5G
namespace Control

variable {Conn : Type*} [DecidableEq Conn]

@[simp] theorem Session.pendingAck_dropPendingOf {x : Session Conn} {c : Conn} {stream : Key}
    {p : Pending Conn} : (x.dropPendingOf c).pendingAck stream = some p ↔
      x.pendingAck stream = some p ∧ ¬ p.involves c := by
  simp [dropPendingOf, Option.filter_eq_some_iff]

namespace State

variable {s : State Conn} {c : Conn}

omit [DecidableEq Conn] in
@[simp] theorem sessions_setSession {name : Key} {f : Session Conn → Session Conn} (n : Key) :
    (s.setSession name f).sessions n =
      if n = name then f (s.sessions name) else s.sessions n := by
  simp [setSession, Function.update_apply]

omit [DecidableEq Conn] in
@[simp] theorem peers_setSession {name : Key} {f : Session Conn → Session Conn} :
    (s.setSession name f).peers = s.peers := rfl

omit [DecidableEq Conn] in
@[simp] theorem phases_setSession {name : Key} {f : Session Conn → Session Conn} :
    (s.setSession name f).phases = s.phases := rfl

@[simp] theorem sessions_setPhase {p : Phase} : (s.setPhase c p).sessions = s.sessions := rfl

@[simp] theorem peers_setPhase {p : Phase} : (s.setPhase c p).peers = s.peers := rfl

@[simp] theorem phases_setPhase {p : Phase} (c' : Conn) :
    (s.setPhase c p).phases c' = if c' = c then p else s.phases c' := by
  simp [setPhase, Function.update_apply]

@[simp] theorem sessions_setPeer {p : Option Peer} : (s.setPeer c p).sessions = s.sessions := rfl

@[simp] theorem peers_setPeer {p : Option Peer} (c' : Conn) :
    (s.setPeer c p).peers c' = if c' = c then p else s.peers c' := by
  simp [setPeer, Function.update_apply]

@[simp] theorem phases_setPeer {p : Option Peer} : (s.setPeer c p).phases = s.phases := rfl

omit [DecidableEq Conn] in
@[simp] theorem sessions_send {dest : Conn} {out : Out} :
    (s.send c dest out).sessions = s.sessions := rfl

omit [DecidableEq Conn] in
@[simp] theorem peers_send {dest : Conn} {out : Out} : (s.send c dest out).peers = s.peers := rfl

omit [DecidableEq Conn] in
@[simp] theorem phases_send {dest : Conn} {out : Out} : (s.send c dest out).phases = s.phases := rfl

omit [DecidableEq Conn] in
@[simp] theorem sessions_visit {l : Loop} {i : Nat} : (s.visit c l i).1.sessions = s.sessions := by
  unfold visit
  split <;> rfl

omit [DecidableEq Conn] in
@[simp] theorem peers_visit {l : Loop} {i : Nat} : (s.visit c l i).1.peers = s.peers := by
  unfold visit
  split <;> rfl

omit [DecidableEq Conn] in
@[simp] theorem phases_visit {l : Loop} {i : Nat} : (s.visit c l i).1.phases = s.phases := by
  unfold visit
  split <;> rfl

section

variable {name : Key} {old : Option Conn}

@[simp] theorem senders_dropHolder (n : Key) :
    ((s.dropHolder name old).sessions n).senders = (s.sessions n).senders := by
  cases old with
  | none => rfl
  | some w =>
    simp only [dropHolder, sessions_setSession]
    split
    · next hn => rw [hn]; rfl
    · rfl

@[simp] theorem receivers_dropHolder (n : Key) :
    ((s.dropHolder name old).sessions n).receivers = (s.sessions n).receivers := by
  cases old with
  | none => rfl
  | some w =>
    simp only [dropHolder, sessions_setSession]
    split
    · next hn => rw [hn]; rfl
    · rfl

theorem pendingAck_of_dropHolder {n stream : Key} {p : Pending Conn}
    (h : ((s.dropHolder name old).sessions n).pendingAck stream = some p) :
    (s.sessions n).pendingAck stream = some p := by
  cases old with
  | none => exact h
  | some w =>
    simp only [dropHolder, sessions_setSession] at h
    split at h
    · next hn => exact hn ▸ (Session.pendingAck_dropPendingOf.mp h).1
    · exact h

@[simp] theorem sent_dropHolder : (s.dropHolder name old).sent = s.sent := by
  cases old <;> rfl

@[simp] theorem peers_dropHolder : (s.dropHolder name old).peers = s.peers := by
  cases old <;> rfl

@[simp] theorem phases_dropHolder : (s.dropHolder name old).phases = s.phases := by
  cases old <;> rfl

end

section

variable {name : Key}

@[simp] theorem senders_setSender {stream : Key} (n : Key) :
    ((s.setSender c name stream).sessions n).senders =
      if n = name then (s.sessions n).senders.set stream c else (s.sessions n).senders := by
  simp only [setSender, sessions_setPeer, sessions_setSession]
  split
  · next hn => rw [hn]
  · rfl

@[simp] theorem receivers_setSender {stream : Key} (n : Key) :
    ((s.setSender c name stream).sessions n).receivers = (s.sessions n).receivers := by
  simp only [setSender, sessions_setPeer, sessions_setSession]
  split
  · next hn => rw [hn]
  · rfl

@[simp] theorem pendingAck_setSender {stream : Key} (n : Key) :
    ((s.setSender c name stream).sessions n).pendingAck = (s.sessions n).pendingAck := by
  simp only [setSender, sessions_setPeer, sessions_setSession]
  split
  · next hn => rw [hn]
  · rfl

@[simp] theorem peers_setSender {stream : Key} (c' : Conn) :
    (s.setSender c name stream).peers c' =
      if c' = c then some ⟨name, .sender, stream⟩ else s.peers c' := by
  simp only [setSender, peers_setPeer, peers_setSession]

@[simp] theorem sent_setSender {stream : Key} : (s.setSender c name stream).sent = s.sent := rfl

@[simp] theorem phases_setSender {stream : Key} :
    (s.setSender c name stream).phases = s.phases := rfl

@[simp] theorem senders_setReceiver {rid : Key} {info : Info} (n : Key) :
    ((s.setReceiver c name rid info).sessions n).senders = (s.sessions n).senders := by
  simp only [setReceiver, sessions_setPeer, sessions_setSession]
  split
  · next hn => rw [hn]
  · rfl

@[simp] theorem receivers_setReceiver {rid : Key} {info : Info} (n : Key) :
    ((s.setReceiver c name rid info).sessions n).receivers =
      if n = name then (s.sessions n).receivers.set rid (c, info)
      else (s.sessions n).receivers := by
  simp only [setReceiver, sessions_setPeer, sessions_setSession]
  split
  · next hn => rw [hn]
  · rfl

@[simp] theorem pendingAck_setReceiver {rid : Key} {info : Info} (n : Key) :
    ((s.setReceiver c name rid info).sessions n).pendingAck = (s.sessions n).pendingAck := by
  simp only [setReceiver, sessions_setPeer, sessions_setSession]
  split
  · next hn => rw [hn]
  · rfl

@[simp] theorem peers_setReceiver {rid : Key} {info : Info} (c' : Conn) :
    (s.setReceiver c name rid info).peers c' =
      if c' = c then some ⟨name, .receiver, rid⟩ else s.peers c' := by
  simp only [setReceiver, peers_setPeer, peers_setSession]

@[simp] theorem sent_setReceiver {rid : Key} {info : Info} :
    (s.setReceiver c name rid info).sent = s.sent := rfl

@[simp] theorem phases_setReceiver {rid : Key} {info : Info} :
    (s.setReceiver c name rid info).phases = s.phases := rfl

end

section

variable {name stream : Key} {recv : Conn} {host : String} {msg : Fields}

omit [DecidableEq Conn] in
@[simp] theorem senders_handOver (n : Key) :
    ((s.handOver c name stream recv host msg).sessions n).senders = (s.sessions n).senders := by
  simp only [handOver, sessions_send, sessions_setSession]
  split
  · next hn => rw [hn]
  · rfl

omit [DecidableEq Conn] in
@[simp] theorem receivers_handOver (n : Key) :
    ((s.handOver c name stream recv host msg).sessions n).receivers =
      (s.sessions n).receivers := by
  simp only [handOver, sessions_send, sessions_setSession]
  split
  · next hn => rw [hn]
  · rfl

omit [DecidableEq Conn] in
@[simp] theorem pendingAck_handOver (n : Key) :
    ((s.handOver c name stream recv host msg).sessions n).pendingAck =
      if n = name then Function.update (s.sessions n).pendingAck stream
        (some ⟨recv, c, (s.sessions n).generation + 1⟩)
      else (s.sessions n).pendingAck := by
  simp only [handOver, sessions_send, sessions_setSession]
  split
  · next hn => rw [hn]
  · rfl

omit [DecidableEq Conn] in
@[simp] theorem generation_handOver (n : Key) :
    ((s.handOver c name stream recv host msg).sessions n).generation =
      if n = name then (s.sessions n).generation + 1 else (s.sessions n).generation := by
  simp only [handOver, sessions_send, sessions_setSession]
  split
  · next hn => rw [hn]
  · rfl

omit [DecidableEq Conn] in
@[simp] theorem peers_handOver : (s.handOver c name stream recv host msg).peers = s.peers := rfl

omit [DecidableEq Conn] in
@[simp] theorem phases_handOver : (s.handOver c name stream recv host msg).phases = s.phases := rfl

end

section

variable {name stream : Key}

omit [DecidableEq Conn] in
@[simp] theorem senders_popPending (n : Key) :
    ((s.popPending name stream).sessions n).senders = (s.sessions n).senders := by
  simp only [popPending, sessions_setSession]
  split
  · next hn => rw [hn]
  · rfl

omit [DecidableEq Conn] in
@[simp] theorem receivers_popPending (n : Key) :
    ((s.popPending name stream).sessions n).receivers = (s.sessions n).receivers := by
  simp only [popPending, sessions_setSession]
  split
  · next hn => rw [hn]
  · rfl

omit [DecidableEq Conn] in
@[simp] theorem pendingAck_popPending (n : Key) :
    ((s.popPending name stream).sessions n).pendingAck =
      if n = name then Function.update (s.sessions n).pendingAck stream none
      else (s.sessions n).pendingAck := by
  simp only [popPending, sessions_setSession]
  split
  · next hn => rw [hn]
  · rfl

omit [DecidableEq Conn] in
@[simp] theorem peers_popPending : (s.popPending name stream).peers = s.peers := rfl

omit [DecidableEq Conn] in
@[simp] theorem phases_popPending : (s.popPending name stream).phases = s.phases := rfl

end

theorem senders_remove {x : Session Conn} {peer : Peer} {k : Key} {c' : Conn}
    (h : (x.remove peer c).senders.get? k = some c') :
    x.senders.get? k = some c' ∧ (peer.role = .sender → peer.id = k → c' ≠ c) := by
  unfold Session.remove at h
  split at h
  · split at h
    · by_cases hk : k = peer.id
      · rw [hk, Dict.get?_erase_self] at h
        cases h
      · rw [Dict.get?_erase_ne hk] at h
        exact ⟨h, fun _ hid => absurd hid.symm hk⟩
    · next hc => exact ⟨h, fun _ hid heq => hc (by rw [hid, h, heq])⟩
  · next hrole =>
    refine ⟨?_, fun hs => by rw [hs] at hrole; cases hrole⟩
    split at h <;> exact h

theorem receivers_remove {x : Session Conn} {peer : Peer} {k : Key} {c' : Conn} {info : Info}
    (h : (x.remove peer c).receivers.get? k = some (c', info)) :
    x.receivers.get? k = some (c', info) ∧ (peer.role = .receiver → peer.id = k → c' ≠ c) := by
  unfold Session.remove at h
  split at h
  · next hrole =>
    refine ⟨?_, fun hs => by rw [hs] at hrole; cases hrole⟩
    split at h <;> exact h
  · split at h
    · by_cases hk : k = peer.id
      · rw [hk, Dict.get?_erase_self] at h
        cases h
      · rw [Dict.get?_erase_ne hk] at h
        exact ⟨h, fun _ hid => absurd hid.symm hk⟩
    · next hc => exact ⟨h, fun _ hid heq => hc (by rw [hid, h, ← heq]; rfl)⟩

@[simp] theorem pendingAck_remove {x : Session Conn} {p : Peer} :
    (x.remove p c).pendingAck = x.pendingAck := by
  unfold Session.remove
  split <;> split <;> rfl

@[simp] theorem generation_remove {x : Session Conn} {peer : Peer} :
    (x.remove peer c).generation = x.generation := by
  unfold Session.remove
  split <;> split <;> rfl

@[simp] theorem peers_unregister (c' : Conn) :
    (s.unregister c).peers c' = if c' = c then none else s.peers c' := by
  unfold unregister
  split
  · next h =>
    split
    · next heq => rw [heq, h]
    · rfl
  · simp only [peers_setSession, peers_setPeer]

@[simp] theorem phases_unregister : (s.unregister c).phases = s.phases := by
  unfold unregister
  split <;> rfl

@[simp] theorem sent_unregister : (s.unregister c).sent = s.sent := by
  unfold unregister
  split <;> rfl

theorem senders_unregister_stable (n : Key) :
    (s.sessions n).senders.Stable ((s.unregister c).sessions n).senders := by
  unfold unregister
  split
  · exact .refl _
  · next peer _ =>
    simp only [sessions_setSession, sessions_setPeer]
    split
    · next hn =>
      rw [hn]
      show ((s.sessions peer.session).senders).Stable ((s.sessions peer.session).remove peer c).senders
      unfold Session.remove
      split <;> split
      · exact .erase
      · exact .refl _
      · exact .refl _
      · exact .refl _
    · exact .refl _

theorem receivers_unregister_stable (n : Key) :
    (s.sessions n).receivers.Stable ((s.unregister c).sessions n).receivers := by
  unfold unregister
  split
  · exact .refl _
  · next peer _ =>
    simp only [sessions_setSession, sessions_setPeer]
    split
    · next hn =>
      rw [hn]
      show ((s.sessions peer.session).receivers).Stable
        ((s.sessions peer.session).remove peer c).receivers
      unfold Session.remove
      split <;> split
      · exact .refl _
      · exact .refl _
      · exact .erase
      · exact .refl _
    · exact .refl _

/-- An entry that `unregister` leaves is not the one its connection registered. -/
theorem senders_of_unregister {n k : Key} {c' : Conn}
    (h : ((s.unregister c).sessions n).senders.get? k = some c') :
    (s.sessions n).senders.get? k = some c' ∧ (s.peers c = some ⟨n, .sender, k⟩ → c' ≠ c) := by
  unfold unregister at h
  split at h
  · next hnone => exact ⟨h, fun hp => by rw [hnone] at hp; cases hp⟩
  · next peer hpeer =>
    simp only [sessions_setSession, sessions_setPeer] at h
    split at h
    · next hn =>
      obtain ⟨h, hne⟩ := senders_remove h
      refine ⟨hn ▸ h, fun hp => ?_⟩
      rw [hpeer] at hp
      cases hp
      exact hne rfl rfl
    · next hn =>
      refine ⟨h, fun hp => ?_⟩
      rw [hpeer] at hp
      cases hp
      exact absurd rfl hn

theorem receivers_of_unregister {n k : Key} {e : Conn × Info}
    (h : ((s.unregister c).sessions n).receivers.get? k = some e) :
    (s.sessions n).receivers.get? k = some e ∧
      (s.peers c = some ⟨n, .receiver, k⟩ → e.1 ≠ c) := by
  unfold unregister at h
  split at h
  · next hnone => exact ⟨h, fun hp => by rw [hnone] at hp; cases hp⟩
  · next peer hpeer =>
    simp only [sessions_setSession, sessions_setPeer] at h
    split at h
    · next hn =>
      obtain ⟨h, hne⟩ := receivers_remove h
      refine ⟨hn ▸ h, fun hp => ?_⟩
      rw [hpeer] at hp
      cases hp
      exact hne rfl rfl
    · next hn =>
      refine ⟨h, fun hp => ?_⟩
      rw [hpeer] at hp
      cases hp
      exact absurd rfl hn

theorem pendingAck_of_unregister {n stream : Key} {p : Pending Conn}
    (h : ((s.unregister c).sessions n).pendingAck stream = some p) :
    (s.sessions n).pendingAck stream = some p ∧
      ∀ peer, s.peers c = some peer → peer.session = n → ¬ p.involves c := by
  unfold unregister at h
  split at h
  · next hnone => exact ⟨h, fun q hq => by rw [hnone] at hq; cases hq⟩
  · next peer hpeer =>
    simp only [sessions_setSession, sessions_setPeer] at h
    split at h
    · next hn =>
      obtain ⟨hp, hc⟩ := Session.pendingAck_dropPendingOf.mp h
      rw [pendingAck_remove] at hp
      exact ⟨hn ▸ hp, fun _ _ _ => hc⟩
    · next hn =>
      refine ⟨h, fun q hq hqn => ?_⟩
      rw [hpeer] at hq
      cases hq
      exact absurd hqn.symm hn

end State
end Control
end P5G
