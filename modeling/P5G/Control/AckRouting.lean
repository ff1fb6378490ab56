import P5G.Control.Dispatch
import P5G.Control.Frame
import P5G.Control.Messages
import Mathlib.Data.List.Basic

/-!
# Where acks go

An ack is forwarded only along the handshake it answers.  `AckInv` ties every
pending handshake to the last stream-start that was handed over for its stream,
and keeps the generations that have been acknowledged apart from the pending
ones.
-/

namespace P5G
namespace Control

variable {Conn : Type*}

def Out.startsStream (name stream : Key) : Out → Bool
  | .start n st _ _ _ => n = name ∧ st = stream
  | _ => false

def Out.ackGeneration (name : Key) : Out → Option Nat
  | .ack n _ g _ => if n = name then some g else none
  | _ => none

theorem Out.ackGeneration_eq_some_iff {name : Key} {out : Out} {g : Nat} :
    out.ackGeneration name = some g ↔ ∃ st msg, out = .ack name st g msg := by
  constructor
  · intro h
    cases out with
    | ack n st g' msg =>
      rw [ackGeneration] at h
      split at h
      · next hn =>
        cases h
        exact ⟨st, msg, hn ▸ rfl⟩
      · cases h
    | _ => cases h
  · rintro ⟨st, msg, rfl⟩
    exact if_pos rfl

def Out.isStart : Out → Bool
  | .start _ _ _ _ _ => true
  | _ => false

def handshakes (sent : List (Sent Conn)) : Nat := sent.countP fun x => x.out.isStart

theorem handshakes_append (sent : List (Sent Conn)) (x : Sent Conn) :
    handshakes (sent ++ [x]) = handshakes sent + if x.out.isStart then 1 else 0 := by
  rw [handshakes, List.countP_append, List.countP_singleton]
  rfl

def Out.ackOf : Out → Option (Key × Key × Nat)
  | .ack name stream g _ => some (name, stream, g)
  | _ => none

/-- The last stream-start handed over for a stream. -/
def lastStart (sent : List (Sent Conn)) (name stream : Key) : Option (Sent Conn) :=
  (sent.filter (fun x => x.out.startsStream name stream)).getLast?

theorem lastStart_append (sent : List (Sent Conn)) (x : Sent Conn) (name stream : Key) :
    lastStart (sent ++ [x]) name stream =
      if x.out.startsStream name stream then some x else lastStart sent name stream := by
  rw [lastStart, List.filter_append]
  split
  · next h => rw [List.filter_cons_of_pos (by simpa using h), List.filter_nil,
      List.getLast?_concat]
  · next h =>
    rw [List.filter_cons_of_neg (by simpa using h), List.filter_nil, List.append_nil]
    rfl

theorem lastStart_mem {sent : List (Sent Conn)} {name stream : Key} {x : Sent Conn}
    (h : lastStart sent name stream = some x) : x ∈ sent :=
  (List.mem_filter.mp (List.mem_of_getLast? h)).1

structure AckInv (s : State Conn) : Prop where
  latest : ∀ name stream p, (s.sessions name).pendingAck stream = some p → ∃ host msg,
    lastStart s.sent name stream =
      some ⟨p.sender, p.receiver, .start name stream p.generation host msg⟩
  started : ∀ x ∈ s.sent, ∀ name stream g host msg, x.out = .start name stream g host msg →
    g ≤ (s.sessions name).generation
  distinct : ∀ x ∈ s.sent, ∀ y ∈ s.sent, ∀ name st st' g host msg host' msg',
    x.out = .start name st g host msg → y.out = .start name st' g host' msg' → x = y
  spent : ∀ x ∈ s.sent, ∀ name st g msg, x.out = .ack name st g msg →
    g ≤ (s.sessions name).generation ∧
      ∀ stream p, (s.sessions name).pendingAck stream = some p → p.generation ≠ g
  once : ∀ name, (s.sent.filterMap (fun x => x.out.ackGeneration name)).Nodup
  counted : ∀ name, (s.sessions name).generation ≤ handshakes s.sent

variable {env : Env Conn} {s s' : State Conn} {c : Conn}

/-- A move that sends nothing, starts nothing, and makes no handshake. -/
structure Shrinks (s s' : State Conn) : Prop where
  sent : s'.sent = s.sent
  generation : ∀ name, (s'.sessions name).generation = (s.sessions name).generation
  pending : ∀ name stream p, (s'.sessions name).pendingAck stream = some p →
    (s.sessions name).pendingAck stream = some p

namespace Shrinks

theorem refl (s : State Conn) : Shrinks s s := ⟨rfl, fun _ => rfl, fun _ _ _ h => h⟩

theorem trans {s'' : State Conn} (h : Shrinks s s') (h' : Shrinks s' s'') : Shrinks s s'' :=
  ⟨h'.sent.trans h.sent, fun name => (h'.generation name).trans (h.generation name),
    fun name stream p hp => h.pending name stream p (h'.pending name stream p hp)⟩

theorem setSession {name : Key} {f : Session Conn → Session Conn}
    (hg : (f (s.sessions name)).generation = (s.sessions name).generation)
    (hp : ∀ stream p, (f (s.sessions name)).pendingAck stream = some p →
      (s.sessions name).pendingAck stream = some p) : Shrinks s (s.setSession name f) := by
  refine ⟨rfl, fun n => ?_, fun n stream p h => ?_⟩
  · by_cases hn : n = name
    · subst hn
      simpa [State.setSession] using hg
    · simp [State.setSession, Function.update_of_ne hn]
  · by_cases hn : n = name
    · subst hn
      exact hp stream p (by simpa [State.setSession] using h)
    · simpa [State.setSession, Function.update_of_ne hn] using h

variable [DecidableEq Conn]

theorem setPeer (p : Option Peer) : Shrinks s (s.setPeer c p) :=
  ⟨rfl, fun _ => rfl, fun _ _ _ h => h⟩

theorem setPhase (p : Phase) : Shrinks s (s.setPhase c p) := ⟨rfl, fun _ => rfl, fun _ _ _ h => h⟩

theorem dropHolder (name : Key) (old : Option Conn) : Shrinks s (s.dropHolder name old) := by
  cases old with
  | none => exact refl s
  | some w =>
    exact setSession (f := (·.dropPendingOf w)) rfl
      (fun _ _ h => (Session.pendingAck_dropPendingOf.mp h).1)

theorem setSender (name stream : Key) : Shrinks s (s.setSender c name stream) :=
  (setSession (f := fun x => { x with senders := x.senders.set stream c }) rfl
    (fun _ _ h => h)).trans (setPeer _)

theorem setReceiver (name rid : Key) (info : Info) : Shrinks s (s.setReceiver c name rid info) :=
  (setSession (f := fun x => { x with receivers := x.receivers.set rid (c, info) }) rfl
    (fun _ _ h => h)).trans (setPeer _)

omit [DecidableEq Conn] in
theorem popPending (name stream : Key) : Shrinks s (s.popPending name stream) := by
  refine setSession rfl (fun st p h => ?_)
  by_cases hst : st = stream
  · subst hst
    simp at h
  · simpa [Function.update_of_ne hst] using h

theorem unregister : Shrinks s (s.unregister c) := by
  unfold State.unregister
  split
  · exact refl s
  · next peer _ =>
    refine (setPeer none).trans (setSession ?_ (fun stream p h => ?_))
    · show (((s.setPeer c none).sessions peer.session).remove peer c).generation = _
      rw [State.generation_remove]
    · rw [← State.pendingAck_remove (p := peer) (c := c)]
      exact (Session.pendingAck_dropPendingOf.mp h).1

theorem close (e : Option PyError) : Shrinks s (s.close c e) := unregister.trans (setPhase _)

end Shrinks

namespace AckInv

theorem init : AckInv (State.init : State Conn) := by
  refine ⟨fun name stream p h => ?_, fun x hx => ?_, fun x hx => ?_, fun x hx => ?_,
    fun name => List.nodup_nil, fun name => Nat.le_refl 0⟩
  · cases h
  · cases hx
  · cases hx
  · cases hx

theorem shrink (h : AckInv s) (hs : Shrinks s s') : AckInv s' := by
  refine ⟨fun name stream p hp => ?_, fun x hx name stream g host msg ho => ?_, ?_,
    fun x hx name st g msg ho => ?_, fun name => ?_, fun name => ?_⟩
  · rw [hs.sent]
    exact h.latest name stream p (hs.pending name stream p hp)
  · rw [hs.generation]
    exact h.started x (hs.sent ▸ hx) name stream g host msg ho
  · rw [hs.sent]
    exact h.distinct
  · obtain ⟨hg, hpend⟩ := h.spent x (hs.sent ▸ hx) name st g msg ho
    rw [hs.generation]
    exact ⟨hg, fun stream p hp => hpend stream p (hs.pending name stream p hp)⟩
  · rw [hs.sent]
    exact h.once name
  · rw [hs.sent, hs.generation]
    exact h.counted name

theorem mem_sent_send {dest : Conn} {out : Out} {x : Sent Conn} (h : x ∈ (s.send c dest out).sent) :
    x ∈ s.sent ∨ x = ⟨c, dest, out⟩ :=
  (List.mem_append.mp h).imp_right List.mem_singleton.mp

/-- The generation of a pending handshake has not been acknowledged. -/
theorem unspent (h : AckInv s) {name stream : Key} {p : Pending Conn}
    (hp : (s.sessions name).pendingAck stream = some p) :
    p.generation ∉ s.sent.filterMap (fun x => x.out.ackGeneration name) := by
  intro hg
  obtain ⟨x, hx, hxg⟩ := List.mem_filterMap.mp hg
  obtain ⟨st, msg, ho⟩ := Out.ackGeneration_eq_some_iff.mp hxg
  exact (h.spent x hx name st p.generation msg ho).2 stream p hp rfl

theorem send_plain (h : AckInv s) {dest : Conn} {out : Out} (hplain : out.Plain) :
    AckInv (s.send c dest out) := by
  have hmem {x : Sent Conn} (hx : x ∈ (s.send c dest out).sent) : x ∈ s.sent ∨ x.out = out :=
    (mem_sent_send hx).imp_right fun heq => by rw [heq]
  have notStart {name stream : Key} {g : Nat} {host : String} {msg : Fields} :
      out ≠ .start name stream g host msg := by
    rintro rfl
    exact hplain
  have notAck {name stream : Key} {g : Nat} {msg : Fields} : out ≠ .ack name stream g msg := by
    rintro rfl
    exact hplain
  refine ⟨fun name stream p hp => ?_, fun x hx name stream g host msg ho => ?_,
    fun x hx y hy name st st' g host msg host' msg' ho ho' => ?_,
    fun x hx name st g msg ho => ?_, fun name => ?_, fun name => ?_⟩
  · obtain ⟨host, msg, hl⟩ := h.latest name stream p hp
    refine ⟨host, msg, ?_⟩
    show lastStart (s.sent ++ [⟨c, dest, out⟩]) name stream = _
    rw [lastStart_append, if_neg ?_, hl]
    cases out <;> first | exact hplain.elim | simp [Out.startsStream]
  · rcases hmem hx with hx | hx
    · exact h.started x hx name stream g host msg ho
    · exact absurd (hx.symm.trans ho) notStart
  · rcases hmem hx with hx | hx
    · rcases hmem hy with hy | hy
      · exact h.distinct x hx y hy name st st' g host msg host' msg' ho ho'
      · exact absurd (hy.symm.trans ho') notStart
    · exact absurd (hx.symm.trans ho) notStart
  · rcases hmem hx with hx | hx
    · exact h.spent x hx name st g msg ho
    · exact absurd (hx.symm.trans ho) notAck
  · show ((s.sent ++ [(⟨c, dest, out⟩ : Sent Conn)]).filterMap _).Nodup
    rw [List.filterMap_append]
    have hnone : out.ackGeneration name = none := by
      cases out <;> first | exact hplain.elim | rfl
    simpa [hnone] using h.once name
  · show (s.sessions name).generation ≤ handshakes (s.sent ++ [⟨c, dest, out⟩])
    rw [handshakes_append]
    exact (h.counted name).trans (Nat.le_add_right _ _)

variable [DecidableEq Conn]

omit [DecidableEq Conn] in
theorem handOver (h : AckInv s) (name stream : Key) (recv : Conn) (host : String) (msg : Fields) :
    AckInv (s.handOver c name stream recv host msg) := by
  set g := (s.sessions name).generation + 1 with hg
  have hmem {x : Sent Conn} (hx : x ∈ (s.handOver c name stream recv host msg).sent) :
      x ∈ s.sent ∨ x = ⟨c, recv, .start name stream g host msg⟩ := mem_sent_send hx
  have hgen : ((s.handOver c name stream recv host msg).sessions name).generation = g :=
    (State.generation_handOver name).trans (if_pos rfl)
  have hgrow (n : Key) :
      (s.sessions n).generation ≤
        ((s.handOver c name stream recv host msg).sessions n).generation := by
    rw [State.generation_handOver]
    split
    · exact Nat.le_succ _
    · exact Nat.le_refl _
  -- what is pending is the handshake handed over, or was pending before
  have hpend {n st : Key} {p : Pending Conn}
      (hp : ((s.handOver c name stream recv host msg).sessions n).pendingAck st = some p) :
      (n = name ∧ st = stream) ∧ p = ⟨recv, c, g⟩ ∨
        ¬ (n = name ∧ st = stream) ∧ (s.sessions n).pendingAck st = some p := by
    rw [State.pendingAck_handOver] at hp
    by_cases hn : n = name
    · subst hn
      rw [if_pos rfl] at hp
      by_cases hst : st = stream
      · subst hst
        rw [Function.update_self] at hp
        exact .inl ⟨⟨rfl, rfl⟩, (Option.some_inj.mp hp).symm⟩
      · rw [Function.update_of_ne hst] at hp
        exact .inr ⟨fun h => hst h.2, hp⟩
    · rw [if_neg hn] at hp
      exact .inr ⟨fun h => hn h.1, hp⟩
  have hout {n st : Key} {g' : Nat} {host' : String} {msg' : Fields}
      (ho : (Out.start name stream g host msg) = .start n st g' host' msg') :
      n = name ∧ st = stream ∧ g' = g := by
    cases ho
    exact ⟨rfl, rfl, rfl⟩
  refine ⟨fun n st p hp => ?_, fun x hx n st g' host' msg' ho => ?_,
    fun x hx y hy n st st' g' h₁ m₁ h₂ m₂ ho ho' => ?_, fun x hx n st g' msg' ho => ?_,
    fun n => ?_, fun n => ?_⟩
  · show ∃ _ _, lastStart (s.sent ++ [⟨c, recv, .start name stream g host msg⟩]) n st = _
    rw [lastStart_append]
    rcases hpend hp with ⟨⟨rfl, rfl⟩, rfl⟩ | ⟨hne, hp⟩
    · exact ⟨host, msg, if_pos (by simp [Out.startsStream])⟩
    · obtain ⟨host', msg', hl⟩ := h.latest n st p hp
      refine ⟨host', msg', ?_⟩
      rw [if_neg fun hs => ?_, hl]
      have hboth := of_decide_eq_true hs
      exact hne ⟨hboth.1.symm, hboth.2.symm⟩
  · rcases hmem hx with hx | rfl
    · exact (h.started x hx n st g' host' msg' ho).trans (hgrow n)
    · obtain ⟨rfl, -, rfl⟩ := hout ho
      exact hgen.ge
  · rcases hmem hx with hx' | rfl <;> rcases hmem hy with hy' | rfl
    · exact h.distinct x hx' y hy' n st st' g' h₁ m₁ h₂ m₂ ho ho'
    · obtain ⟨rfl, -, rfl⟩ := hout ho'
      have := h.started x hx' n st g h₁ m₁ ho
      omega
    · obtain ⟨rfl, -, rfl⟩ := hout ho
      have := h.started y hy' n st' g h₂ m₂ ho'
      omega
    · rfl
  · rcases hmem hx with hx | rfl
    · obtain ⟨hle, hspent⟩ := h.spent x hx n st g' msg' ho
      refine ⟨hle.trans (hgrow n), fun st' p hp => ?_⟩
      rcases hpend hp with ⟨⟨rfl, -⟩, rfl⟩ | ⟨-, hp⟩
      · show g ≠ g'
        omega
      · exact hspent st' p hp
    · cases ho
  · show ((s.sent ++ [(⟨c, recv, .start name stream g host msg⟩ : Sent Conn)]).filterMap _).Nodup
    rw [List.filterMap_append]
    simpa [Out.ackGeneration] using h.once n
  · show _ ≤ handshakes (s.sent ++ [⟨c, recv, .start name stream g host msg⟩])
    rw [handshakes_append]
    have hle := h.counted n
    rw [State.generation_handOver]
    split
    · exact Nat.succ_le_succ hle
    · exact hle.trans (Nat.le_add_right _ _)

omit [DecidableEq Conn] in
/-- The pending handshake that an ack answers is spent by forwarding it. -/
theorem forward (h : AckInv s) {name stream : Key} {p : Pending Conn} (fields : Fields)
    (hp : (s.sessions name).pendingAck stream = some p) :
    AckInv ((s.popPending name stream).send c p.sender
      (.ack name stream p.generation fields)) := by
  have hpop := h.shrink (Shrinks.popPending name stream)
  have hgone : ((s.popPending name stream).sessions name).pendingAck stream = none := by
    simp [State.popPending, State.setSession]
  have hmem {x : Sent Conn}
      (hx : x ∈ ((s.popPending name stream).send c p.sender
        (.ack name stream p.generation fields)).sent) :
      x ∈ s.sent ∨ x = ⟨c, p.sender, .ack name stream p.generation fields⟩ := mem_sent_send hx
  obtain ⟨host, msg, hl⟩ := h.latest name stream p hp
  have hstart := lastStart_mem hl
  refine ⟨fun n st q hq => ?_, fun x hx n st g host' msg' ho => ?_,
    fun x hx y hy n st st' g h₁ m₁ h₂ m₂ ho ho' => ?_, fun x hx n st g msg' ho => ?_, fun n => ?_,
    fun n => ?_⟩
  · obtain ⟨host', msg', hl'⟩ := hpop.latest n st q hq
    refine ⟨host', msg', ?_⟩
    show lastStart (s.sent ++ [⟨c, p.sender, .ack name stream p.generation fields⟩]) n st = _
    rw [lastStart_append, if_neg (by simp [Out.startsStream])]
    exact hl'
  · rcases hmem hx with hx | rfl
    · exact hpop.started x hx n st g host' msg' ho
    · cases ho
  · rcases hmem hx with hx | rfl
    · rcases hmem hy with hy | rfl
      · exact hpop.distinct x hx y hy n st st' g h₁ m₁ h₂ m₂ ho ho'
      · cases ho'
    · cases ho
  · rcases hmem hx with hx | rfl
    · exact hpop.spent x hx n st g msg' ho
    · cases ho
      refine ⟨?_, fun st' q hq => ?_⟩
      · show p.generation ≤ ((s.popPending name stream).sessions name).generation
        rw [(Shrinks.popPending name stream).generation]
        exact h.started _ hstart name stream p.generation host msg rfl
      · -- two streams never have handshakes of one generation
        rintro hgen
        change ((s.popPending name stream).sessions name).pendingAck st' = some q at hq
        have hq' := (Shrinks.popPending name stream).pending name st' q hq
        obtain ⟨host', msg', hl'⟩ := h.latest name st' q hq'
        rw [hgen] at hl'
        have hsame := h.distinct _ (lastStart_mem hl') _ hstart name st' stream p.generation host'
          msg' host msg rfl rfl
        obtain rfl : st' = stream := (Out.start.inj (Sent.mk.inj hsame).2.2).2.1
        rw [hgone] at hq
        cases hq
  · show ((s.sent ++ [(⟨c, p.sender, .ack name stream p.generation fields⟩ : Sent Conn)]).filterMap
      _).Nodup
    rw [List.filterMap_append, List.nodup_append]
    refine ⟨h.once n, ?_, ?_⟩
    · by_cases hn : name = n <;> simp [Out.ackGeneration, hn]
    · rintro g hg _ hg' rfl
      obtain ⟨_, hx, hack⟩ := List.mem_filterMap.mp hg'
      rw [List.mem_singleton.mp hx] at hack
      obtain ⟨_, _, ho⟩ := Out.ackGeneration_eq_some_iff.mp hack
      cases ho
      exact h.unspent hp hg
  · show ((s.popPending name stream).sessions n).generation ≤
      handshakes (s.sent ++ [⟨c, p.sender, .ack name stream p.generation fields⟩])
    rw [handshakes_append, (Shrinks.popPending name stream).generation]
    exact (h.counted n).trans (Nat.le_add_right _ _)

omit [DecidableEq Conn] in
theorem visit (h : AckInv s) (l : Loop) (i : Nat) : AckInv (s.visit c l i).1 := by
  rcases visit_cases s c l i with ⟨-, he⟩ | ⟨dest, rid, info, -, he⟩
  · rw [he]
    exact h
  · rw [he]
    exact h.send_plain trivial

theorem dispatched (h : AckInv s) {msg : Json} {r : State Conn × Next}
    (hd : Dispatched env s c msg r) : AckInv r.1 := by
  cases hd with
  | raised e => exact h
  | ignored => exact h
  | deliver dest out hplain => exact h.send_plain hplain
  | sender name stream =>
    exact (h.shrink ((Shrinks.dropHolder _ _).trans (Shrinks.setSender _ _))).visit _ _
  | badPorts name rid e => exact h.shrink (Shrinks.dropHolder _ _)
  | receiver name rid info =>
    exact (h.shrink ((Shrinks.dropHolder _ _).trans (Shrinks.setReceiver _ _ _))).visit _ _
  | start peer rid recv info host fields => exact h.handOver _ _ _ _ _
  | forward peer stream p fields hmsg htype hpeer hstream hp => exact h.forward fields hp
  | senderGone peer stream => exact h.shrink (Shrinks.popPending _ _)

theorem finish {r : State Conn × Next} (h : AckInv r.1) : AckInv (State.finish c r) := by
  obtain ⟨s, n⟩ := r
  cases n with
  | raised e => exact h.shrink (Shrinks.close _)
  | _ => exact h.shrink (Shrinks.setPhase _)

omit [DecidableEq Conn] in
theorem turned (h : AckInv s) {l : Loop} {r : State Conn × Next} (ht : Turned s c l r) :
    AckInv r.1 := by
  cases ht with
  | next => exact h.visit _ _
  | raised => exact h
  | stopped => exact h
  | visited _ i => exact h.visit _ _

theorem step (h : AckInv s) {a : Act Conn} (hstep : s.step env a = some s') : AckInv s' := by
  cases step_cases hstep with
  | accept c => exact h.shrink (Shrinks.setPhase _)
  | line c msg r _ hd => exact finish (h.dispatched hd)
  | badLine c => exact h
  | eof c => exact h.shrink (Shrinks.close _)
  | sent c choice => exact h.shrink (Shrinks.setPhase _)
  | turn c choice l r _ ht => exact finish (h.turned ht)
  | sendRaised c => exact h.shrink (Shrinks.close _)

end AckInv

variable [DecidableEq Conn]

theorem ackInv_of_reachable (h : (server env).Reachable s) : AckInv s :=
  h.invariant .init (fun _ _ _ hi hs => hi.step hs)

/-! ## Forwarding -/

omit [DecidableEq Conn] in
theorem visit_sent (l : Loop) (i : Nat) : (s.visit c l i).1.sent = s.sent ∨
    ∃ dest rid info, (s.visit c l i).1.sent = s.sent ++ [⟨c, dest, .ready rid info⟩] := by
  rcases visit_cases s c l i with ⟨-, he⟩ | ⟨dest, rid, info, -, he⟩
  · exact .inl (by rw [he])
  · exact .inr ⟨dest, rid, info, by rw [he]; rfl⟩

theorem finish_sent (r : State Conn × Next) : (State.finish c r).sent = r.1.sent := by
  obtain ⟨s, n⟩ := r
  cases n with
  | raised e => exact (Shrinks.close _).sent
  | _ => rfl

omit [DecidableEq Conn] in
theorem turned_sent {l : Loop} {r : State Conn × Next} (ht : Turned s c l r) :
    r.1.sent = s.sent ∨ ∃ dest rid info, r.1.sent = s.sent ++ [⟨c, dest, .ready rid info⟩] := by
  cases ht with
  | next => exact visit_sent _ _
  | raised => exact .inl rfl
  | stopped => exact .inl rfl
  | visited _ i => exact visit_sent _ _

/-- What a message tells of the step that sends it. -/
inductive Sends (s : State Conn) : Act Conn → Sent Conn → Prop
  | plain (a : Act Conn) (c dest : Conn) (out : Out) (hplain : out.Plain) : Sends s a ⟨c, dest, out⟩
  | start (c recv : Conn) (peer : Peer) (rid : Key) (info : Info) (host : String) (fields : Fields)
      (htype : fields.get? "type" = some (.str "stream-start")) (hpeer : s.peers c = some peer)
      (hto : fields.itemKey "to" = .ok rid)
      (hrecv : (s.sessions peer.session).receivers.get? rid = some (recv, info)) :
      Sends s (.line c (.obj fields)) ⟨c, recv, .start peer.session peer.id
        ((s.sessions peer.session).generation + 1) host fields⟩
  | ack (peer : Peer) (stream : Key) (p : Pending Conn) (fields : Fields)
      (htype : fields.get? "type" = some (.str "stream-ack"))
      (hpeer : s.peers p.receiver = some peer) (hstream : fields.getKey "stream" = .ok stream)
      (hp : (s.sessions peer.session).pendingAck stream = some p)
      (hgen : ((fields.get? "generation").getD .null).eqNat p.generation = true)
      (hsender : (s.sessions peer.session).senders.get? stream = some p.sender) :
      Sends s (.line p.receiver (.obj fields))
        ⟨p.receiver, p.sender, .ack peer.session stream p.generation fields⟩

omit [DecidableEq Conn] in
theorem sends_of_ready {t : State Conn} {a : Act Conn} (h : t.sent = s.sent ∨ ∃ dest rid info,
    t.sent = s.sent ++ [⟨c, dest, .ready rid info⟩]) :
    t.sent = s.sent ∨ ∃ x, t.sent = s.sent ++ [x] ∧ Sends s a x := by
  rcases h with h | ⟨dest, rid, info, h⟩
  · exact .inl h
  · exact .inr ⟨_, h, .plain _ _ _ _ trivial⟩

theorem dispatched_sent {msg : Json} {r : State Conn × Next} (hd : Dispatched env s c msg r) :
    r.1.sent = s.sent ∨ ∃ x, r.1.sent = s.sent ++ [x] ∧ Sends s (.line c msg) x := by
  cases hd with
  | raised e => exact .inl rfl
  | ignored => exact .inl rfl
  | deliver dest out hplain => exact .inr ⟨_, rfl, .plain _ _ _ _ hplain⟩
  | sender name stream =>
    have hs := (Shrinks.dropHolder (s := s) name ((s.sessions name).senders.get? stream)).trans
      (Shrinks.setSender (c := c) name stream)
    refine sends_of_ready (c := c) ?_
    rw [← hs.sent]
    exact visit_sent _ _
  | badPorts name rid e => exact .inl (Shrinks.dropHolder _ _).sent
  | receiver name rid info =>
    have hs := (Shrinks.dropHolder (s := s) name
      (((s.sessions name).receivers.get? rid).map Prod.fst)).trans
        (Shrinks.setReceiver (c := c) name rid info)
    refine sends_of_ready (c := c) ?_
    rw [← hs.sent]
    exact visit_sent _ _
  | start peer rid recv info host fields hmsg htype hpeer hto hrecv =>
    subst hmsg
    exact .inr ⟨_, rfl, .start c recv peer rid info host fields htype hpeer hto hrecv⟩
  | forward peer stream p fields hmsg htype hpeer hstream hp hans hsender =>
    obtain ⟨-, rfl, hgen⟩ := hans
    subst hmsg
    exact .inr ⟨_, rfl, .ack peer stream p fields htype hpeer hstream hp hgen hsender⟩
  | senderGone peer stream => exact .inl (Shrinks.popPending _ _).sent

/-- A step sends at most one message. -/
theorem step_sent {a : Act Conn} (hstep : s.step env a = some s') :
    s'.sent = s.sent ∨ ∃ x, s'.sent = s.sent ++ [x] ∧ Sends s a x := by
  cases step_cases hstep with
  | accept c => exact .inl rfl
  | line c msg r _ hd =>
    rw [finish_sent]
    exact dispatched_sent hd
  | badLine c => exact .inl rfl
  | eof c => exact .inl (Shrinks.close _).sent
  | sent c choice => exact .inl rfl
  | turn c choice l r _ ht =>
    rw [finish_sent]
    exact sends_of_ready (turned_sent ht)
  | sendRaised c => exact .inl (Shrinks.close _).sent

/-- An ack leaves the server only in the branch of `route_stream_ack` that found
its handshake. -/
theorem forward_of_sent {a : Act Conn} {x : Sent Conn} {name stream : Key} {g : Nat}
    {fields : Fields} (hstep : s.step env a = some s') (hsent : s'.sent = s.sent ++ [x])
    (hx : x.out = .ack name stream g fields) :
    a = .line x.origin (.obj fields) ∧ fields.getKey "stream" = .ok stream ∧
      ((fields.get? "generation").getD .null).eqNat g = true ∧
      (s.sessions name).pendingAck stream = some ⟨x.origin, x.dest, g⟩ ∧
      (s.sessions name).senders.get? stream = some x.dest := by
  rcases step_sent hstep with hsame | ⟨y, hy, hsends⟩
  · have := congrArg List.length (hsame.symm.trans hsent)
    simp at this
  · obtain rfl : y = x := by simpa using hy.symm.trans hsent
    cases hsends with
    | plain a c dest out hplain =>
      rw [show out = .ack name stream g fields from hx] at hplain
      exact hplain.elim
    | start c recv peer rid info host fields' => cases hx
    | ack peer stream' p fields' htype hpeer hstream hp hgen hsender =>
      cases hx
      exact ⟨rfl, hstream, hgen, hp, hsender⟩

/-- An ack is forwarded only to the connection whose stream-start it answers:
the last one of its stream and the only one of its generation, handed over to
the connection that acknowledges, by a sender that still holds the stream.  No
generation is forwarded twice. -/
theorem ack_routing (h : (server env).Reachable s) :
    (∀ a s' x name stream g (fields : Fields), (server env).step s a = some s' →
      s'.sent = s.sent ++ [x] → x.out = .ack name stream g fields →
        a = .line x.origin (.obj fields) ∧ fields.getKey "stream" = .ok stream ∧
        ((fields.get? "generation").getD .null).eqNat g = true ∧
        (∃ host msg, lastStart s.sent name stream =
          some ⟨x.dest, x.origin, .start name stream g host msg⟩) ∧
        (s.sessions name).senders.get? stream = some x.dest) ∧
    (∀ x ∈ s.sent, ∀ y ∈ s.sent, ∀ name st st' g host msg host' msg',
      x.out = .start name st g host msg → y.out = .start name st' g host' msg' → x = y) ∧
    ∀ name, (s.sent.filterMap (fun x => x.out.ackGeneration name)).Nodup := by
  have hinv := ackInv_of_reachable h
  refine ⟨fun a s' x name stream g fields hstep hsent hx => ?_, hinv.distinct, hinv.once⟩
  obtain ⟨ha, hstream, hgen, hp, hsender⟩ := forward_of_sent hstep hsent hx
  exact ⟨ha, hstream, hgen, hinv.latest name stream _ hp, hsender⟩

def State.summary (s : State (Fin 3)) : List (Fin 3 × Option (Key × Key × Nat)) :=
  s.sent.map fun x => (x.dest, x.out.ackOf)

theorem ack_routing_upToStart : ∃ s s' : State (Fin 3), ∃ x host msg,
    (server defaultEnv).step s (.line 0 (.obj (acceptAck "cam0" 1))) = some s' ∧
      s'.sent = s.sent ++ [x] ∧ x.dest = 1 ∧
      lastStart s.sent (.str "s1") (.str "cam0") =
        some ⟨1, 0, .start (.str "s1") (.str "cam0") 1 host msg⟩ := by
  let ack : Act (Fin 3) := .line 0 (.obj (acceptAck "cam0" 1))
  obtain ⟨s, ⟨past, hrun⟩, hsum, hnext⟩ := Machine.exists_of_execBy (m := server defaultEnv)
    (G := fun _ _ => True) upToStart
    (P := fun s : State (Fin 3) => s.summary = [(1, none), (0, none)] ∧
      (s.step defaultEnv ack).any (fun s' =>
        s'.summary = [(1, none), (0, none), (1, some (.str "s1", .str "cam0", 1))]) = true)
    (by decide +kernel)
  obtain ⟨s', hstep, hsum'⟩ := (Option.any_eq_true _ _).mp hnext
  replace hsum' := of_decide_eq_true hsum'
  have hroute := (ack_routing ⟨past, hrun⟩).1 ack s'
  rcases step_sent hstep with hsame | ⟨x, hx, -⟩
  · rw [State.summary, hsame, ← State.summary, hsum] at hsum'
    exact absurd hsum' (by decide)
  · rw [State.summary, hx, List.map_append, ← State.summary, hsum] at hsum'
    have hlast : (x.dest, x.out.ackOf) = (1, some (.str "s1", .str "cam0", 1)) := by
      simpa using hsum'
    obtain ⟨hdest, hack⟩ := Prod.mk.inj hlast
    cases ho : x.out with
    | ack name stream g fields =>
      rw [ho] at hack
      cases hack
      obtain ⟨ha, -, -, ⟨host, msg, hl⟩, -⟩ := hroute x _ _ _ fields hstep hx ho
      obtain ⟨horigin, -⟩ := Act.line.inj ha
      rw [hdest, ← horigin] at hl
      exact ⟨s, s', x, host, msg, hstep, hx, hdest, hl⟩
    | _ => rw [ho] at hack; cases hack

end Control
end P5G
