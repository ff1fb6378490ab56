import P5G.Control.Protocol
import P5G.Control.AckRouting

/-!
# Who starts on whose ack

`Good` follows every message of the server back to the process that wrote it,
and an ack to the stream-start it answers.  A receiver's `Latch` is the one
stream-start it took over; the generation in its ack singles that stream-start
out among all of its session.
-/

namespace P5G
namespace Control

variable {Conn : Type*} [DecidableEq Conn] {d : Deployment Conn} {z z' : Net Conn}
  {s s' : State Conn} {said said' : Conn → List Fields}

/-! ## Messages and their origins -/

def Good (d : Deployment Conn) (said : Conn → List Fields) (sent : List (Sent Conn))
    (x : Sent Conn) : Prop :=
  match x.out with
  | .start name stream _ _ msg => msg ∈ said x.origin ∧
      (∃ cfg, d.app x.origin = .sender cfg ∧ msg = cfg.streamStart ∧
        name = .str cfg.session ∧ stream = .str cfg.streamId) ∧
      ∃ cfg, d.app x.dest = .receiver cfg ∧ name = .str cfg.session
  | .ack name stream g msg => msg ∈ said x.origin ∧
      msg.get? "type" = some (.str "stream-ack") ∧
      ((msg.get? "generation").getD .null).eqNat g = true ∧
      (∃ cfg, d.app x.origin = .receiver cfg ∧ name = .str cfg.session) ∧
      ∃ host msg', ⟨x.dest, x.origin, .start name stream g host msg'⟩ ∈ sent
  | .profile msg => msg.get? "type" = some (.str "profile")
  | _ => True

omit [DecidableEq Conn] in
theorem Good.mono {sent sent' : List (Sent Conn)} {x : Sent Conn}
    (hsaid : ∀ c, ∀ m ∈ said c, m ∈ said' c) (hsent : ∀ y ∈ sent, y ∈ sent')
    (h : Good d said sent x) : Good d said' sent' x := by
  unfold Good at h ⊢
  split at h
  · obtain ⟨hmem, hrest⟩ := h
    exact ⟨hsaid _ _ hmem, hrest⟩
  · obtain ⟨hmem, htype, hgen, hcfg, host, msg', hstart⟩ := h
    exact ⟨hsaid _ _ hmem, htype, hgen, hcfg, host, msg', hsent _ hstart⟩
  · exact h
  · trivial

omit [DecidableEq Conn] in
theorem Good.typed {sent : List (Sent Conn)} {x : Sent Conn} (h : Good d said sent x) :
    x.out.Typed := by
  obtain ⟨origin, dest, out⟩ := x
  cases out with
  | start name stream g host msg =>
    obtain ⟨-, ⟨cfg, -, rfl, -⟩, -⟩ := h
    rfl
  | ack name stream g msg => exact h.2.1
  | profile msg => exact h
  | _ => trivial

theorem App.peer_receiver {app : App} {name k : Key} (h : app.peer = some ⟨name, .receiver, k⟩) :
    ∃ cfg, app = .receiver cfg ∧ name = .str cfg.session := by
  cases app with
  | sender cfg => cases h
  | receiver cfg =>
    cases h
    exact ⟨cfg, rfl, rfl⟩
  | operator => cases h

/-- The server knows each process as what it is, and every message it has sent
is accounted for by what the processes have said. -/
structure Served (d : Deployment Conn) (said : Conn → List Fields) (s : State Conn) : Prop where
  peers : ∀ c p, s.peers c = some p → (d.app c).peer = some p
  receivers : ∀ name k e, (s.sessions name).receivers.get? k = some e →
    (d.app e.1).peer = some ⟨name, .receiver, k⟩ ∧
      ∀ cfg, d.app e.1 = .receiver cfg → cfg.Offers e.2
  sent : ∀ x ∈ s.sent, Good d said s.sent x

namespace Served

omit [DecidableEq Conn] in
theorem mono (h : Served d said s) (hsaid : ∀ c, ∀ m ∈ said c, m ∈ said' c) : Served d said' s :=
  ⟨h.peers, h.receivers, fun x hx => (h.sent x hx).mono hsaid (fun _ hy => hy)⟩

omit [DecidableEq Conn] in
/-- A message of the server is accounted for when it is sent. -/
theorem good_of_sends (h : Served d said s) (hack : AckInv s)
    (hsay : ∀ c, ∀ m ∈ said c, (d.app c).Says m) {a : Act Conn}
    (ha : ∀ c msg, a = .line c msg → ∃ m ∈ said c, msg = .obj m) {x : Sent Conn}
    (hx : Sends s a x) : Good d said (s.sent ++ [x]) x := by
  cases hx with
  | plain a c dest out hplain =>
    unfold Good
    cases out with
    | start => exact hplain.elim
    | ack => exact hplain.elim
    | profile msg => exact hplain
    | _ => trivial
  | start c recv peer rid info host fields htype hpeer hto hrecv =>
    obtain ⟨m, hm, heq⟩ := ha c _ rfl
    cases heq
    obtain ⟨cfg, happ, rfl⟩ := (hsay c _ hm).start htype
    have hp := h.peers c peer hpeer
    rw [happ] at hp
    cases hp
    obtain ⟨cfg', happ', hname⟩ := App.peer_receiver (h.receivers _ _ _ hrecv).1
    exact ⟨hm, ⟨cfg, happ, rfl, rfl, rfl⟩, cfg', happ', hname⟩
  | ack peer stream p fields htype hpeer hstream hp hgen hsender =>
    obtain ⟨m, hm, heq⟩ := ha _ _ rfl
    cases heq
    obtain ⟨cfg, happ, -⟩ := (hsay _ _ hm).ack htype
    have hpeer' := h.peers _ peer hpeer
    rw [happ] at hpeer'
    cases hpeer'
    obtain ⟨host, msg', hlast⟩ := hack.latest _ stream p hp
    exact ⟨hm, htype, hgen, ⟨cfg, happ, rfl⟩, host, msg',
      List.mem_append_left _ (lastStart_mem hlast)⟩

theorem step (h : Served d said s) (hack : AckInv s)
    (hsay : ∀ c, ∀ m ∈ said c, (d.app c).Says m) {a : Act Conn}
    (ha : ∀ c msg, a = .line c msg → ∃ m ∈ said c, msg = .obj m)
    (hstep : s.step d.env a = some s') : Served d said s' := by
  have hreg := step_registers hstep
  refine ⟨fun c p hp => ?_, fun name k e he => ?_, fun x hx => ?_⟩
  · rcases hreg.peers c p hp with hold | ⟨msg, heq, hnew⟩
    · exact h.peers c p hold
    · obtain ⟨m, hm, rfl⟩ := ha c msg heq
      exact ((hsay c m hm).registered hnew).1
  · rcases hreg.receivers name k e he with hold | ⟨fields, heq, hnew, hinfo⟩
    · exact h.receivers name k e hold
    · obtain ⟨m, hm, hmsg⟩ := ha _ _ heq
      cases hmsg
      obtain ⟨hpeer, hoffers⟩ := (hsay _ _ hm).registered hnew
      exact ⟨hpeer, fun cfg hcfg => hoffers cfg hcfg _ hinfo⟩
  · rcases step_sent hstep with hsame | ⟨y, hy, hsends⟩
    · rw [hsame] at hx ⊢
      exact h.sent x hx
    · rw [hy] at hx ⊢
      rcases List.mem_append.mp hx with hx | hx
      · exact (h.sent x hx).mono (fun _ _ hm => hm) (fun _ hz => List.mem_append_left _ hz)
      · rw [List.mem_singleton.mp hx]
        exact h.good_of_sends hack hsay ha hsends

end Served
/-! ## The network -/

namespace Net

variable {c : Conn}

theorem mem_say {msgs : List Fields} {c' : Conn} {m : Fields} :
    m ∈ (z.say c msgs).said c' ↔ m ∈ z.said c' ∨ c' = c ∧ m ∈ msgs := by
  show m ∈ Function.update z.said c (z.said c ++ msgs) c' ↔ _
  rw [Function.update_apply]
  split
  · next h => simp [h]
  · next h => simp [h]

theorem of_serve {a : Act Conn} (h : z.serve d a = some z') :
    ∃ s, z.server.step d.env a = some s ∧ z' = { z with server := s } := by
  obtain ⟨s, hs, heq⟩ := Option.map_eq_some_iff.mp h
  exact ⟨s, hs, heq.symm⟩

omit [DecidableEq Conn] in
theorem mem_inbox [DecidableEq Conn] {i : Nat} {x : Sent Conn} (h : (z.inbox c)[i]? = some x) :
    x ∈ z.server.sent ∧ x.dest = c := by
  obtain ⟨hx, hdest⟩ := List.mem_filter.mp (List.mem_of_getElem? h)
  exact ⟨hx, of_decide_eq_true hdest⟩

end Net

structure NetInv (d : Deployment Conn) (z : Net Conn) : Prop where
  ack : AckInv z.server
  served : Served d z.said z.server
  spoken : ∀ c, ∀ m ∈ z.said c, (d.app c).Says m
  started : ∀ c, (z.senders c).started = true ↔ ∃ r, (c, r) ∈ z.starts
  starts : ∀ c r, (c, r) ∈ z.starts → (∃ cfg, d.app c = .sender cfg) ∧
    ∃ name stream g msg, ⟨r, c, .ack name stream g msg⟩ ∈ z.server.sent ∧
      msg.valueBool "ok" true = some true

namespace NetInv

variable {c : Conn}

omit [DecidableEq Conn] in
theorem init : NetInv d (Net.init : Net Conn) := by
  refine ⟨.init, ⟨nofun, nofun, nofun⟩, nofun, fun c => ⟨nofun, nofun⟩, nofun⟩

theorem say (h : NetInv d z) {msgs : List Fields} (hmsgs : ∀ m ∈ msgs, (d.app c).Says m) :
    NetInv d (z.say c msgs) := by
  refine ⟨h.ack, h.served.mono (fun c' m hm => Net.mem_say.mpr (.inl hm)), fun c' m hm => ?_,
    h.started, h.starts⟩
  rcases Net.mem_say.mp hm with hold | ⟨rfl, hnew⟩
  · exact h.spoken c' m hold
  · exact hmsgs m hnew

theorem exitIf (h : NetInv d z) (exits : Bool) : NetInv d (z.exitIf c exits) :=
  ⟨h.ack, h.served, h.spoken, h.started, h.starts⟩

theorem serve (h : NetInv d z) {a : Act Conn}
    (ha : ∀ c msg, a = .line c msg → ∃ m ∈ z.said c, msg = .obj m) (hz : z.serve d a = some z') :
    NetInv d z' := by
  obtain ⟨s, hs, rfl⟩ := Net.of_serve hz
  refine ⟨h.ack.step hs, h.served.step h.ack h.spoken ha hs, h.spoken, h.started,
    fun c r hcr => ?_⟩
  obtain ⟨hc, name, stream, g, msg, hmem, hok⟩ := h.starts c r hcr
  refine ⟨hc, name, stream, g, msg, ?_, hok⟩
  show _ ∈ s.sent
  rcases step_sent hs with hsame | ⟨y, hy, -⟩
  · rw [hsame]
    exact hmem
  · rw [hy]
    exact List.mem_append_left _ hmem

theorem senderHears (h : NetInv d z) {cfg : SenderConfig} (happ : d.app c = .sender cfg)
    {x : Sent Conn} (hx : x ∈ z.server.sent) (hdest : x.dest = c) {m : Fields}
    (hm : x.out.toJson = .obj m) : NetInv d (z.senderHears d c cfg x m) := by
  unfold Net.senderHears
  have hr := Sender.onMessage_cases cfg d.inetPton (z.senders c) m
  generalize (z.senders c).onMessage cfg d.inetPton m = r at hr
  refine exitIf (say ?_ (fun m' hm' => ?_)) r.exits
  · rcases hr.state_started with hsame | ⟨hnot, hnow, htype, hok⟩
    · have hif : (if !(z.senders c).started && r.state.started then z.starts ++ [(c, x.origin)]
          else z.starts) = z.starts := by
        rw [hsame, Bool.not_and_self]
        exact if_neg Bool.false_ne_true
      rw [hif]
      refine ⟨h.ack, h.served, h.spoken, fun c' => ?_, h.starts⟩
      show (Function.update z.senders c r.state c').started = true ↔ _
      rw [Function.update_apply]
      split
      · next heq =>
        rw [heq, hsame]
        exact h.started c
      · exact h.started c'
    · -- the sender starts on this ack
      have hif : (if !(z.senders c).started && r.state.started then z.starts ++ [(c, x.origin)]
          else z.starts) = z.starts ++ [(c, x.origin)] := by
        rw [hnot, hnow]
        exact if_pos rfl
      rw [hif]
      refine ⟨h.ack, h.served, h.spoken, fun c' => ?_, fun c' r' hcr => ?_⟩
      · show (Function.update z.senders c r.state c').started = true ↔ _
        rw [Function.update_apply]
        split
        · next heq =>
          rw [heq, hnow]
          exact ⟨fun _ => ⟨_, List.mem_append_right _ (List.mem_singleton.mpr rfl)⟩, fun _ => rfl⟩
        · next hne =>
          rw [h.started c']
          refine exists_congr (fun r' => ?_)
          simp [hne]
      · rcases List.mem_append.mp hcr with hold | hnew
        · exact h.starts c' r' hold
        · cases List.mem_singleton.mp hnew
          refine ⟨⟨cfg, happ⟩, ?_⟩
          have ho := (h.served.sent x hx).typed.toJson hm
          obtain ⟨name, stream, g, msg, hout⟩ :=
            Out.ack_of_type (Option.some.inj (ho.symm.trans htype))
          obtain ⟨origin, dest, out⟩ := x
          subst hout hdest
          cases hm
          exact ⟨name, stream, g, _, hx, hok⟩
  · rw [happ, hr.sends m' hm']
    exact .inr rfl

theorem receiverHears (h : NetInv d z) {cfg : ReceiverConfig} (happ : d.app c = .receiver cfg)
    (m : Fields) : NetInv d (z.receiverHears c m) := by
  unfold Net.receiverHears
  have hr := Receiver.onMessage_cases (z.receivers c) m
  generalize (z.receivers c).onMessage m = r at hr
  refine exitIf (say ?_ (fun m' hm' => ?_)) r.exits
  · exact ⟨h.ack, h.served, h.spoken, h.started, h.starts⟩
  · rw [happ]
    cases hr with
    | ignored => cases hm'
    | refused stream g hx => exact .inr (.inr ⟨stream, g, _, List.mem_singleton.mp hm'⟩)
    | announced stream htype hstream hx =>
      obtain ⟨g, rfl⟩ := Receiver.announced_sends hm'
      exact .inr (.inl ⟨stream, g, rfl⟩)

theorem hears (h : NetInv d z) {x : Sent Conn} (hx : x ∈ z.server.sent) (hdest : x.dest = c) :
    NetInv d (z.hears d c x) := by
  have h' : NetInv d { z with heard := Function.update z.heard c (z.heard c + 1) } :=
    ⟨h.ack, h.served, h.spoken, h.started, h.starts⟩
  unfold Net.hears
  simp only []
  split
  · next happ hm => exact h'.senderHears happ hx hdest hm
  · next happ hm => exact h'.receiverHears happ _
  · exact h'

theorem step (h : NetInv d z) {a : NetAct Conn} (hstep : z.step d a = some z') :
    NetInv d z' := by
  cases a with
  | launch c =>
    simp only [Net.step] at hstep
    split at hstep <;> cases hstep
    have h' : NetInv d { z with status := Function.update z.status c .running } :=
      ⟨h.ack, h.served, h.spoken, h.started, h.starts⟩
    refine h'.say (fun m hm => ?_)
    cases happ : d.app c with
    | sender cfg =>
      rw [happ] at hm
      exact .inl (List.mem_singleton.mp hm)
    | receiver cfg =>
      rw [happ] at hm
      exact .inl (List.mem_singleton.mp hm)
    | operator =>
      rw [happ] at hm
      cases hm
  | accept c =>
    simp only [Net.step] at hstep
    split at hstep
    · cases hstep
    · exact h.serve (a := .accept c) (fun _ _ => nofun) hstep
  | read c =>
    simp only [Net.step] at hstep
    split at hstep
    · cases hstep
    · next m hm =>
      have h' : NetInv d { z with read := Function.update z.read c (z.read c + 1) } :=
        ⟨h.ack, h.served, h.spoken, h.started, h.starts⟩
      refine h'.serve (fun c' msg heq => ?_) hstep
      cases heq
      exact ⟨m, List.mem_of_getElem? hm, rfl⟩
  | eof c => exact h.serve (a := .eof c) (fun _ _ => nofun) hstep
  | resume c choice => exact h.serve (a := .resume c choice) (fun _ _ => nofun) hstep
  | sendRaises c => exact h.serve (a := .sendRaises c) (fun _ _ => nofun) hstep
  | hear c =>
    simp only [Net.step] at hstep
    split at hstep
    · next x _ hx =>
      cases hstep
      obtain ⟨hmem, hdest⟩ := Net.mem_inbox hx
      exact h.hears hmem hdest
    · cases hstep
  | command c msg =>
    simp only [Net.step] at hstep
    split at hstep
    · next t happ _ htype =>
      split at hstep
      · next ht =>
        cases hstep
        refine h.say (fun m hm => ?_)
        rw [List.mem_singleton.mp hm, happ, App.Says, htype, ht]
      · cases hstep
    · cases hstep
  | exit c =>
    simp only [Net.step] at hstep
    split at hstep <;> cases hstep
    exact h.exitIf true

end NetInv
/-! ## What a receiver has latched -/

/-- A receiver serves no stream yet, or the one of a stream-start that it was
handed, and only that one has it accepted. -/
def Latched (d : Deployment Conn) (z : Net Conn) (r : Conn) (cfg : ReceiverConfig) : Prop :=
  ((z.receivers r).stream = "" ∧ ∀ m ∈ z.said r, m = cfg.register) ∨
    ∃ c cfg' name, ∃ g : Nat, ∃ host, d.app c = .sender cfg' ∧
      ⟨c, r, .start name (.str cfg'.streamId) g host cfg'.streamStart⟩ ∈ z.server.sent ∧
      z.receivers r = cfg'.latched ∧
      ∀ m ∈ z.said r, m = cfg.register ∨ m = acceptAck cfg'.streamId (Int32.ofInt g) ∨
        ∃ stream g', m = refuseAck stream g' cfg'.streamId

def LatchInv (d : Deployment Conn) (z : Net Conn) : Prop :=
  ∀ r cfg, d.app r = .receiver cfg → Latched d z r cfg

namespace Latched

variable {r : Conn} {cfg : ReceiverConfig}

omit [DecidableEq Conn] in
theorem mono (h : Latched d z r cfg) (hsent : ∀ x ∈ z.server.sent, x ∈ z'.server.sent)
    (hr : z'.receivers r = z.receivers r)
    (hsaid : ∀ m ∈ z'.said r, m ∈ z.said r ∨ m = cfg.register) : Latched d z' r cfg := by
  rcases h with ⟨hstream, hold⟩ | ⟨c, cfg', name, g, host, happ, hstart, hlatched, hold⟩
  · refine .inl ⟨by rw [hr, hstream], fun m hm => ?_⟩
    exact (hsaid m hm).elim (hold m) id
  · refine .inr ⟨c, cfg', name, g, host, happ, hsent _ hstart, by rw [hr, hlatched],
      fun m hm => ?_⟩
    exact (hsaid m hm).elim (hold m) .inl

theorem hears (h : Latched d z r cfg) (hids : ∀ c cfg, d.app c = .sender cfg → cfg.streamId ≠ "")
    {x : Sent Conn} (hx : x ∈ z.server.sent) (hdest : x.dest = r)
    (hgood : Good d z.said z.server.sent x) {m : Fields} (hm : x.out.toJson = .obj m) :
    Latched d (z.receiverHears r m) r cfg := by
  unfold Net.receiverHears
  have hr := Receiver.onMessage_cases (z.receivers r) m
  generalize (z.receivers r).onMessage m = react at hr
  set z' := ({ z with receivers := Function.update z.receivers r react.state }.say r
    react.sends).exitIf r react.exits with hz'
  have hstate : z'.receivers r = react.state := Function.update_self ..
  have hsaid {m' : Fields} (hm' : m' ∈ z'.said r) : m' ∈ z.said r ∨ m' ∈ react.sends :=
    (Net.mem_say.mp hm').imp id And.right
  cases hr with
  | ignored => exact h.mono (fun _ hy => hy) hstate (fun m' hm' => (hsaid hm').imp id nofun)
  | refused stream g hne =>
    rcases h with ⟨hstream, -⟩ | ⟨c, cfg', name, g', host, happ, hstart, hlatched, hold⟩
    · exact absurd hstream hne
    · refine .inr ⟨c, cfg', name, g', host, happ, hstart, hstate.trans hlatched, fun m' hm' => ?_⟩
      rcases hsaid hm' with hm' | hm'
      · exact hold m' hm'
      · rw [List.mem_singleton.mp hm', hlatched]
        exact .inr (.inr ⟨stream, g, rfl⟩)
  | announced stream htype hstream hempty =>
    have hold : ∀ m' ∈ z.said r, m' = cfg.register := by
      rcases h with ⟨-, hold⟩ | ⟨c, cfg', name, g', host, happ, hstart, hlatched, -⟩
      · exact hold
      · rw [hlatched] at hempty
        exact absurd hempty (hids c cfg' happ)
    have ho := hgood.typed.toJson hm
    obtain ⟨name, key, g, host, msg, hout⟩ :=
      Out.start_of_type (Option.some.inj (ho.symm.trans htype))
    obtain ⟨origin, dest, out⟩ := x
    subst hout hdest
    obtain ⟨-, ⟨cfg', happ, rfl, -, rfl⟩, -⟩ := hgood
    have hm' : m = cfg'.handedOver g host := (Json.obj.inj hm).symm
    subst hm'
    obtain rfl : cfg'.streamId = stream :=
      Option.some.inj ((cfg'.stream_handedOver g host).symm.trans hstream)
    rw [Receiver.announced_handedOver] at hstate hsaid
    refine .inr ⟨origin, cfg', name, g, host, happ, hx, hstate, fun m' hm' => ?_⟩
    rcases hsaid hm' with hm' | hm'
    · exact .inl (hold m' hm')
    · exact .inr (.inl (List.mem_singleton.mp hm'))

end Latched

theorem LatchInv.step (hids : ∀ c cfg, d.app c = .sender cfg → cfg.streamId ≠ "")
    (hl : LatchInv d z) (h : NetInv d z) {a : NetAct Conn} (hstep : z.step d a = some z') :
    LatchInv d z' := by
  intro r cfg happ
  have hr := hl r cfg happ
  have serve {y : Net Conn} {b : Act Conn} (hy : y.serve d b = some z')
      (hsame : y.server = z.server ∧ y.receivers = z.receivers ∧ y.said = z.said) :
      Latched d z' r cfg := by
    obtain ⟨s, hs, rfl⟩ := Net.of_serve hy
    refine hr.mono (fun x hx => ?_) (by rw [← hsame.2.1]) (fun m hm => .inl (hsame.2.2 ▸ hm))
    rw [← hsame.1] at hx
    show x ∈ s.sent
    rcases step_sent hs with hsent | ⟨w, hw, -⟩
    · rw [hsent]
      exact hx
    · rw [hw]
      exact List.mem_append_left _ hx
  cases a with
  | launch c =>
    simp only [Net.step] at hstep
    split at hstep <;> cases hstep
    refine hr.mono (fun _ hx => hx) rfl (fun m hm => ?_)
    refine (Net.mem_say.mp hm).imp id (fun ⟨hc, hm⟩ => ?_)
    rw [← hc, happ] at hm
    exact List.mem_singleton.mp hm
  | accept c =>
    simp only [Net.step] at hstep
    split at hstep
    · cases hstep
    · exact serve hstep ⟨rfl, rfl, rfl⟩
  | read c =>
    simp only [Net.step] at hstep
    split at hstep
    · cases hstep
    · exact serve hstep ⟨rfl, rfl, rfl⟩
  | eof c => exact serve hstep ⟨rfl, rfl, rfl⟩
  | resume c choice => exact serve hstep ⟨rfl, rfl, rfl⟩
  | sendRaises c => exact serve hstep ⟨rfl, rfl, rfl⟩
  | hear c =>
    simp only [Net.step] at hstep
    split at hstep
    · next x _ hx =>
      cases hstep
      obtain ⟨hmem, hdest⟩ := Net.mem_inbox hx
      unfold Net.hears
      simp only []
      split
      · next cfg' m happ' hm =>
        have hne : r ≠ c := by
          rintro rfl
          rw [happ] at happ'
          cases happ'
        exact hr.mono (fun _ hx => hx) rfl
          (fun m hm => (Net.mem_say.mp hm).imp id (fun ⟨hc, _⟩ => absurd hc hne))
      · next cfg' m happ' hm =>
        by_cases hrc : r = c
        · subst hrc
          have hr' : Latched d { z with heard := Function.update z.heard r (z.heard r + 1) } r cfg :=
            hr
          exact hr'.hears hids hmem hdest (h.served.sent x hmem) hm
        · refine hr.mono (fun _ hx => hx) ?_
            (fun m hm => (Net.mem_say.mp hm).imp id (fun ⟨hc, _⟩ => absurd hc hrc))
          exact Function.update_of_ne hrc ..
      · exact hr
    · cases hstep
  | command c msg =>
    simp only [Net.step] at hstep
    split at hstep
    · next t happ' _ _ =>
      split at hstep
      · cases hstep
        refine hr.mono (fun _ hx => hx) rfl (fun m hm => ?_)
        refine (Net.mem_say.mp hm).imp id (fun ⟨hc, _⟩ => ?_)
        rw [← hc, happ] at happ'
        cases happ'
      · cases hstep
    · cases hstep
  | exit c =>
    simp only [Net.step] at hstep
    split at hstep <;> cases hstep
    exact hr

omit [DecidableEq Conn] in
/-- The ack a sender starts on answers the stream-start that the receiver has
latched: its generation is that of no other stream-start of the session. -/
theorem NetInv.matched (h : NetInv d z)
    (hfew : handshakes z.server.sent < 2 ^ 31) {c r c₀ : Conn}
    {cfg : ReceiverConfig} {cfg₀ : SenderConfig} {name₀ : Key} {g₀ : Nat} {host₀ : String}
    (happ : d.app r = .receiver cfg)
    (hstart₀ : ⟨c₀, r, .start name₀ (.str cfg₀.streamId) g₀ host₀ cfg₀.streamStart⟩ ∈ z.server.sent)
    (hsaid : ∀ m ∈ z.said r, m = cfg.register ∨ m = acceptAck cfg₀.streamId (Int32.ofInt g₀) ∨
      ∃ stream g', m = refuseAck stream g' cfg₀.streamId)
    (hcr : (c, r) ∈ z.starts) : c = c₀ := by
  obtain ⟨-, name, stream, g, msg, hack, hok⟩ := h.starts c r hcr
  obtain ⟨hmem, htype, heq, ⟨cfg', happ', hname⟩, host, msg', hstart⟩ := h.served.sent _ hack
  obtain ⟨-, -, cfg₀', happ₀, hname₀⟩ := h.served.sent _ hstart₀
  have hnames : name = name₀ := by
    rw [happ] at happ' happ₀
    cases happ'
    cases happ₀
    rw [hname, hname₀]
  have hg : g₀ = g := by
    rcases hsaid msg hmem with rfl | rfl | ⟨st, g', rfl⟩
    · exact absurd (Fields.type_unique (a := "register") rfl htype) (by decide)
    · have hlt : g₀ < 2 ^ 31 := Nat.lt_of_le_of_lt
        ((h.ack.started _ hstart₀ name₀ _ g₀ host₀ _ rfl).trans (h.ack.counted name₀)) hfew
      have hint : (Int32.ofInt g₀).toInt = g₀ :=
        Int32.toInt_ofInt_of_le (by omega) (by omega)
      have heq' : (((Int32.ofInt g₀).toInt : Rat) = (g : Rat)) := of_decide_eq_true heq
      rw [hint] at heq'
      exact_mod_cast heq'
    · cases hok
  subst hnames hg
  have hsame := h.ack.distinct _ hstart _ hstart₀ name stream _ g₀ host msg' host₀ _ rfl rfl
  exact (Sent.mk.inj hsame).1

omit [DecidableEq Conn] in
theorem latchInv_init : LatchInv d (Net.init : Net Conn) :=
  fun _ _ _ => .inl ⟨rfl, nofun⟩

/-- A sender that has started did so on an ack of a receiver that was handed its
stream-start, serves its stream, and has taken over its ssrc and the low eight
bits of its pt.  At most one sender starts on the acks of a receiver. -/
theorem control_agreement (hids : ∀ c cfg, d.app c = .sender cfg → cfg.streamId ≠ "")
    (h : (control d).Reachable z) (hfew : handshakes z.server.sent < 2 ^ 31) :
    (∀ c, (z.senders c).started = true ↔ ∃ r, (c, r) ∈ z.starts) ∧
      (∀ c r, (c, r) ∈ z.starts → ∃ cfg cfg', d.app c = .sender cfg ∧ d.app r = .receiver cfg' ∧
        (∃ name stream g host ack, ⟨r, c, .ack name stream g ack⟩ ∈ z.server.sent ∧
          ⟨c, r, .start name stream g host cfg.streamStart⟩ ∈ z.server.sent) ∧
        (z.receivers r).stream = cfg.streamId ∧ (z.receivers r).ssrc = cfg.ssrc ∧
          (z.receivers r).pt = UInt8.ofInt cfg.pt.toInt) ∧
      ∀ c c' r, (c, r) ∈ z.starts → (c', r) ∈ z.starts → c = c' := by
  obtain ⟨hinv, hlatch⟩ := @Machine.Reachable.invariant _ _ (control d)
    (fun z => NetInv d z ∧ LatchInv d z) ⟨.init, latchInv_init⟩
    (fun _ _ _ hi hs => ⟨hi.1.step hs, hi.2.step hids hi.1 hs⟩) z h
  have latched {c r : Conn} (hcr : (c, r) ∈ z.starts) : ∃ cfg, d.app r = .receiver cfg ∧
      ∃ c cfg' name, ∃ g : Nat, ∃ host, d.app c = .sender cfg' ∧
        ⟨c, r, .start name (.str cfg'.streamId) g host cfg'.streamStart⟩ ∈ z.server.sent ∧
        z.receivers r = cfg'.latched ∧
        ∀ m ∈ z.said r, m = cfg.register ∨ m = acceptAck cfg'.streamId (Int32.ofInt g) ∨
          ∃ stream g', m = refuseAck stream g' cfg'.streamId := by
    obtain ⟨-, name, stream, g, msg, hack, -⟩ := hinv.starts c r hcr
    obtain ⟨hmem, htype, -, ⟨cfg, happ, -⟩, -⟩ := hinv.served.sent _ hack
    rcases hlatch r cfg happ with ⟨-, hold⟩ | hlatched
    · rw [hold msg hmem] at htype
      exact absurd (Fields.type_unique (a := "register") rfl htype) (by decide)
    · exact ⟨cfg, happ, hlatched⟩
  refine ⟨hinv.started, fun c r hcr => ?_, fun c c' r hcr hcr' => ?_⟩
  · obtain ⟨cfg', happ', c₀, cfg, name₀, g₀, host₀, happ, hstart₀, hr, hsaid⟩ := latched hcr
    obtain rfl := hinv.matched hfew happ' hstart₀ hsaid hcr
    obtain ⟨-, name, stream, g, ack, hack, -⟩ := hinv.starts c r hcr
    obtain ⟨-, -, -, -, host, msg', hstart⟩ := hinv.served.sent _ hack
    obtain ⟨-, ⟨cfg₁, happ₁, hmsg, -⟩, -⟩ := hinv.served.sent _ hstart
    rw [happ] at happ₁
    cases happ₁
    subst hmsg
    refine ⟨cfg, cfg', happ, happ', ⟨name, stream, g, host, ack, hack, hstart⟩, ?_⟩
    rw [hr]
    exact ⟨rfl, rfl, rfl⟩
  · obtain ⟨cfg, happ, c₀, cfg', name₀, g₀, host₀, -, hstart₀, -, hsaid⟩ := latched hcr
    rw [hinv.matched hfew happ hstart₀ hsaid hcr, hinv.matched hfew happ hstart₀ hsaid hcr']

def deployment (cfg : SenderConfig) : Deployment (Fin 3) where
  app c := if c = 0 then .receiver defaultReceiver else if c = 1 then .sender cfg else .operator
  env := defaultEnv
  inetPton _ := true

theorem streamId_of_deployment {cfg cfg' : SenderConfig} {c : Fin 3}
    (h : (deployment cfg).app c = .sender cfg') : cfg' = cfg := by
  simp only [deployment] at h
  split at h
  · cases h
  · split at h
    · exact (App.sender.inj h).symm
    · cases h

def upToStarted : List (NetAct (Fin 3)) :=
  [.launch 0, .accept 0, .read 0, .launch 1, .accept 1, .read 1, .resume 1 .stop, .hear 1, .read 1,
    .resume 1 .stop, .hear 0, .read 0, .resume 0 .stop, .hear 1]

theorem control_agreement_upToStarted : ∃ z : Net (Fin 3),
    (control (deployment defaultSender)).Reachable z ∧ (1, 0) ∈ z.starts ∧
      (z.receivers 0).stream = "cam0" ∧ (z.receivers 0).ssrc = 1 ∧ (z.receivers 0).pt = 96 := by
  obtain ⟨z, hz, hstart, hfew⟩ := Machine.exists_of_execBy (m := control (deployment defaultSender))
    (G := fun _ _ => True) upToStarted
    (P := fun z : Net (Fin 3) => (1, 0) ∈ z.starts ∧ handshakes z.server.sent < 2 ^ 31)
    (by decide +kernel)
  obtain ⟨-, hagree, -⟩ := control_agreement
    (fun c cfg h => by rw [streamId_of_deployment h]; decide) hz hfew
  obtain ⟨cfg, cfg', happ, -, -, hstream, hssrc, hpt⟩ := hagree 1 0 hstart
  rw [streamId_of_deployment happ] at hstream hssrc hpt
  exact ⟨z, hz, hstart, hstream, hssrc, hpt⟩

/-- A pt that does not fit eight bits is announced whole and taken over cut. -/
theorem wide_pt_cut : ¬ ∀ (d : Deployment (Fin 3)) (z : Net (Fin 3)),
    (∀ c cfg, d.app c = .sender cfg → cfg.streamId ≠ "") → (control d).Reachable z →
      handshakes z.server.sent < 2 ^ 31 → ∀ c r, (c, r) ∈ z.starts →
        ∃ cfg cfg', d.app c = .sender cfg ∧ d.app r = .receiver cfg' ∧
          (z.receivers r).stream = cfg.streamId ∧ (z.receivers r).ssrc = cfg.ssrc ∧
            ((z.receivers r).pt.toNat : Int) = cfg.pt.toInt := by
  intro h
  obtain ⟨z, hz, hstart, hfew, hpt⟩ := Machine.exists_of_execBy
    (m := control (deployment { defaultSender with pt := 300 })) (G := fun _ _ => True) upToStarted
    (P := fun z : Net (Fin 3) => (1, 0) ∈ z.starts ∧ handshakes z.server.sent < 2 ^ 31 ∧
      (z.receivers 0).pt = 44) (by decide +kernel)
  obtain ⟨cfg, cfg', happ, -, -, -, heq⟩ := h _ z
    (fun c cfg h => by rw [streamId_of_deployment h]; decide) hz hfew 1 0 hstart
  rw [streamId_of_deployment happ, hpt] at heq
  exact absurd heq (by decide)

end Control
end P5G
