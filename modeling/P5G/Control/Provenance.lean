import P5G.Control.Dispatch

/-!
# Where the entries of the tables come from

Only a register message of a connection makes an entry of `peers` or of a table
that names it.
-/

namespace P5G
namespace Control

variable {Conn : Type*} [DecidableEq Conn] {env : Env Conn} {s s' t : State Conn} {c : Conn}

/-- The entries of `t` are entries of `s`. -/
structure Loses (s t : State Conn) : Prop where
  peers : ∀ c p, t.peers c = some p → s.peers c = some p
  senders : ∀ n k c, (t.sessions n).senders.get? k = some c →
    (s.sessions n).senders.get? k = some c
  receivers : ∀ n k e, (t.sessions n).receivers.get? k = some e →
    (s.sessions n).receivers.get? k = some e

namespace Loses

omit [DecidableEq Conn] in
/-- Only the tables and `peers` count. -/
theorem of_tables (hp : t.peers = s.peers) (hs : ∀ n, (t.sessions n).senders = (s.sessions n).senders)
    (hr : ∀ n, (t.sessions n).receivers = (s.sessions n).receivers) : Loses s t :=
  ⟨fun _ _ h => hp ▸ h, fun n _ _ h => hs n ▸ h, fun n _ _ h => hr n ▸ h⟩

omit [DecidableEq Conn] in
theorem refl (s : State Conn) : Loses s s := ⟨fun _ _ h => h, fun _ _ _ h => h, fun _ _ _ h => h⟩

omit [DecidableEq Conn] in
theorem trans {u : State Conn} (h : Loses s t) (h' : Loses t u) : Loses s u :=
  ⟨fun c p hp => h.peers c p (h'.peers c p hp),
    fun n k c hk => h.senders n k c (h'.senders n k c hk),
    fun n k e hk => h.receivers n k e (h'.receivers n k e hk)⟩

theorem close (e : Option PyError) : Loses s (s.close c e) := by
  refine ⟨fun c' p hp => ?_, fun n k c' hk => (State.senders_of_unregister hk).1,
    fun n k e' hk => (State.receivers_of_unregister hk).1⟩
  rw [State.close, State.peers_setPhase, State.peers_unregister] at hp
  split at hp
  · cases hp
  · exact hp

theorem finish (r : State Conn × Next) : Loses r.1 (State.finish c r) := by
  obtain ⟨s, n⟩ := r
  cases n with
  | raised e => exact close _
  | _ => exact of_tables rfl (fun _ => rfl) (fun _ => rfl)

theorem dropHolder (name : Key) (old : Option Conn) : Loses s (s.dropHolder name old) :=
  of_tables State.peers_dropHolder State.senders_dropHolder State.receivers_dropHolder

omit [DecidableEq Conn] in
theorem visit (l : Loop) (i : Nat) : Loses s (s.visit c l i).1 :=
  of_tables State.peers_visit (fun _ => by rw [State.sessions_visit])
    (fun _ => by rw [State.sessions_visit])

end Loses

/-- Every entry of `t` is one of `s` or made by the register message that the
action brings. -/
structure Registers (env : Env Conn) (s : State Conn) (a : Act Conn) (t : State Conn) : Prop where
  peers : ∀ c p, t.peers c = some p → s.peers c = some p ∨
    ∃ msg, a = .line c msg ∧ registration env msg = some p
  senders : ∀ n k c, (t.sessions n).senders.get? k = some c →
    (s.sessions n).senders.get? k = some c ∨
      ∃ msg, a = .line c msg ∧ registration env msg = some ⟨n, .sender, k⟩
  receivers : ∀ n k e, (t.sessions n).receivers.get? k = some e →
    (s.sessions n).receivers.get? k = some e ∨
      ∃ fields, a = .line e.1 (.obj fields) ∧
        registration env (.obj fields) = some ⟨n, .receiver, k⟩ ∧ readInfo env fields = .ok e.2

namespace Registers

omit [DecidableEq Conn] in
theorem of_loses {a : Act Conn} (h : Loses s t) : Registers env s a t :=
  ⟨fun c p hp => .inl (h.peers c p hp), fun n k c hk => .inl (h.senders n k c hk),
    fun n k e hk => .inl (h.receivers n k e hk)⟩

omit [DecidableEq Conn] in
theorem trans {a : Act Conn} {u : State Conn} (h : Registers env s a t) (h' : Loses t u) :
    Registers env s a u :=
  ⟨fun c p hp => h.peers c p (h'.peers c p hp),
    fun n k c hk => h.senders n k c (h'.senders n k c hk),
    fun n k e hk => h.receivers n k e (h'.receivers n k e hk)⟩

theorem setSender {msg : Json} {name stream : Key}
    (h : registration env msg = some ⟨name, .sender, stream⟩) (ht : Loses s t) :
    Registers env s (.line c msg) (t.setSender c name stream) := by
  refine ⟨fun c' p hp => ?_, fun n k c' hk => ?_, fun n k e hk => ?_⟩
  · rw [State.peers_setSender] at hp
    split at hp
    · next hc =>
      cases hp
      exact .inr ⟨msg, by rw [hc], h⟩
    · exact .inl (ht.peers c' p hp)
  · rw [State.senders_setSender] at hk
    split at hk
    · next hn =>
      by_cases hks : k = stream
      · rw [hks, Dict.get?_set_self] at hk
        cases hk
        exact .inr ⟨msg, rfl, by rw [h, hn, hks]⟩
      · rw [Dict.get?_set_ne hks] at hk
        exact .inl (ht.senders n k c' hk)
    · exact .inl (ht.senders n k c' hk)
  · rw [State.receivers_setSender] at hk
    exact .inl (ht.receivers n k e hk)

theorem setReceiver {fields : Fields} {name rid : Key} {info : Info}
    (h : registration env (.obj fields) = some ⟨name, .receiver, rid⟩)
    (hinfo : readInfo env fields = .ok info) (ht : Loses s t) :
    Registers env s (.line c (.obj fields)) (t.setReceiver c name rid info) := by
  refine ⟨fun c' p hp => ?_, fun n k c' hk => ?_, fun n k e hk => ?_⟩
  · rw [State.peers_setReceiver] at hp
    split at hp
    · next hc =>
      cases hp
      exact .inr ⟨_, by rw [hc], h⟩
    · exact .inl (ht.peers c' p hp)
  · rw [State.senders_setReceiver] at hk
    exact .inl (ht.senders n k c' hk)
  · rw [State.receivers_setReceiver] at hk
    split at hk
    · next hn =>
      by_cases hks : k = rid
      · rw [hks, Dict.get?_set_self] at hk
        cases hk
        exact .inr ⟨fields, rfl, by rw [h, hn, hks], hinfo⟩
      · rw [Dict.get?_set_ne hks] at hk
        exact .inl (ht.receivers n k e hk)
    · exact .inl (ht.receivers n k e hk)

theorem dispatched {msg : Json} {r : State Conn × Next} (hd : Dispatched env s c msg r) :
    Registers env s (.line c msg) r.1 := by
  cases hd with
  | raised e => exact .of_loses (.refl s)
  | ignored => exact .of_loses (.refl s)
  | deliver dest out => exact .of_loses (.of_tables rfl (fun _ => rfl) (fun _ => rfl))
  | sender name stream hreg => exact (setSender hreg (.dropHolder _ _)).trans (.visit _ _)
  | badPorts name rid e => exact .of_loses (.dropHolder _ _)
  | receiver name rid info fields hmsg hreg hinfo =>
    subst hmsg
    exact (setReceiver hreg hinfo (.dropHolder _ _)).trans (.visit _ _)
  | start peer rid recv info host fields =>
    exact .of_loses (.of_tables rfl State.senders_handOver State.receivers_handOver)
  | forward peer stream p fields =>
    exact .of_loses (.of_tables rfl State.senders_popPending State.receivers_popPending)
  | senderGone peer stream =>
    exact .of_loses (.of_tables rfl State.senders_popPending State.receivers_popPending)

end Registers

theorem step_registers {a : Act Conn} (h : s.step env a = some s') : Registers env s a s' := by
  cases step_cases h with
  | accept c => exact .of_loses (.of_tables rfl (fun _ => rfl) (fun _ => rfl))
  | line c msg r _ hd => exact (Registers.dispatched hd).trans (.finish r)
  | badLine c => exact .of_loses (.refl s)
  | eof c => exact .of_loses (.close none)
  | sent c choice => exact .of_loses (.of_tables rfl (fun _ => rfl) (fun _ => rfl))
  | turn c choice l r _ ht =>
    have hr : Loses s r.1 := by
      cases ht with
      | next => exact .visit _ _
      | raised => exact .refl s
      | stopped => exact .refl s
      | visited _ i => exact .visit _ _
    exact .of_loses (hr.trans (.finish r))
  | sendRaised c => exact .of_loses (.close _)

end Control
end P5G
