import P5G.Signaling.Peers

/-!
# Who is paired with whom

Every description that a process is given goes back, message by message, to the
process that wrote it.  With stream ids that differ within a session, a sender
and a receiver that hold each other's descriptions hold them exclusively.
-/

namespace P5G
namespace Signaling

open Control (Act Choice Reaction)

variable {Conn : Type*} [DecidableEq Conn] {app : Conn → App} {z z' : Net Conn} {c : Conn}

/-- What the process behind a connection holds goes with what it has heard and said. -/
structure Own (app : Conn → App) (z : Net Conn) (c : Conn) : Prop where
  sender : ∀ cfg, app c = .sender cfg →
    SenderInv cfg (z.senders c) (z.said c) ((z.inbox c).take (z.heard c))
  receiver : ∀ cfg, app c = .receiver cfg → ReceiverInv (z.receivers c) (z.said c) (z.inbox c)

structure NetInv (app : Conn → App) (z : Net Conn) : Prop where
  served : Served app z.said z.relay
  spoken : ∀ c, ∀ m ∈ z.said c, (app c).Says m
  relayed : ∀ c type, type ≠ "receiver-ready" →
    z.relay.sent.countP (relays c type) ≤ ((z.said c).take (z.read c)).countP (isType type)
  own : ∀ c, Own app z c

namespace NetInv

theorem init : NetInv app (Net.init : Net Conn) := by
  refine ⟨⟨nofun, nofun, nofun, nofun⟩, nofun, fun c type _ => Nat.zero_le _, fun c => ⟨?_, ?_⟩⟩
  · intro cfg _
    exact ⟨.inl rfl, Nat.le_refl _, fun k p hp => (nomatch hp)⟩
  · intro cfg _
    exact ⟨.inl rfl, Nat.le_refl _, fun _ _ hm => (nomatch hm), fun k p hp => (nomatch hp)⟩

/-- Whether a process runs does not matter. -/
theorem setStatus {status : Conn → Status} (h : NetInv app z) :
    NetInv app { z with status := status } :=
  ⟨h.served, h.spoken, h.relayed, fun c => ⟨(h.own c).sender, (h.own c).receiver⟩⟩

/-- A process changes, and says what it may. -/
theorem update (h : NetInv app z) {msgs : List Fields}
    (hrelay : z'.relay = z.relay) (hread : z'.read = z.read)
    (hsaid : z'.said = Function.update z.said c (z.said c ++ msgs))
    (hspoken : ∀ m ∈ msgs, (app c).Says m)
    (hothers : ∀ c', c' ≠ c → z'.heard c' = z.heard c' ∧ z'.senders c' = z.senders c' ∧
      z'.receivers c' = z.receivers c')
    (hown : Own app z' c) : NetInv app z' := by
  have hinbox : ∀ c', z'.inbox c' = z.inbox c' := fun c' => by rw [Net.inbox, hrelay]; rfl
  have hcase : ∀ c', z'.said c' = if c' = c then z.said c ++ msgs else z.said c' := by
    intro c'
    rw [hsaid, Function.update_apply]
  have hgrows : ∀ c', ∃ more, z'.said c' = z.said c' ++ more ∧ ∀ m ∈ more, (app c').Says m := by
    intro c'
    rw [hcase]
    split
    · next heq =>
      rw [heq]
      exact ⟨msgs, rfl, hspoken⟩
    · exact ⟨[], (List.append_nil _).symm, fun m hm => (nomatch hm)⟩
  refine ⟨?_, fun c' m hm => ?_, fun c' type hne => ?_, fun c' => ?_⟩
  · rw [hrelay]
    refine h.served.mono fun c' m hm => ?_
    obtain ⟨more, hmore, -⟩ := hgrows c'
    rw [hmore]
    exact List.mem_append_left _ hm
  · obtain ⟨more, hmore, hmorespoken⟩ := hgrows c'
    rw [hmore] at hm
    rcases List.mem_append.mp hm with hold | hnew
    · exact h.spoken c' m hold
    · exact hmorespoken m hnew
  · obtain ⟨more, hmore, -⟩ := hgrows c'
    rw [hrelay, hread, hmore]
    refine (h.relayed c' type hne).trans (List.Sublist.countP_le ?_)
    rw [List.take_append]
    exact List.sublist_append_left _ _
  · by_cases hc : c' = c
    · exact hc ▸ hown
    · obtain ⟨hheard, hsenders, hreceivers⟩ := hothers c' hc
      have hold := h.own c'
      have hsame : z'.said c' = z.said c' := by rw [hcase, if_neg hc]
      refine ⟨fun cfg happ => ?_, fun cfg happ => ?_⟩
      · rw [hsenders, hsame, hinbox, hheard]
        exact hold.sender cfg happ
      · rw [hreceivers, hsame, hinbox]
        exact hold.receiver cfg happ

/-- The relay takes a step, and has read what it acts on. -/
theorem relay_step (h : NetInv app z) {a : Act Conn} {s : State Conn} {read : Conn → Nat}
    (hstep : z.relay.step a = some s) (hread : ∀ c, z.read c ≤ read c)
    (hline : ∀ c msg, a = .line c msg →
      ∃ m, msg = .obj m ∧ (z.said c)[z.read c]? = some m ∧ read c = z.read c + 1) :
    NetInv app { z with relay := s, read := read } := by
  have hgrown : z.relay.sent <+: s.sent := by
    rcases (step_follows hstep).sent with hsame | ⟨x, hx, -⟩
    · rw [hsame]
    · rw [hx]
      exact List.prefix_append _ _
  have hinbox : ∀ c, z.inbox c <+: s.sent.filter fun x => x.dest = c := fun c =>
    hgrown.filter _
  refine ⟨?_, h.spoken, fun c type hne => ?_, fun c => ⟨fun cfg happ => ?_, fun cfg happ => ?_⟩⟩
  · refine h.served.step h.spoken (fun c msg heq => ?_) hstep
    obtain ⟨m, rfl, hm, -⟩ := hline c msg heq
    exact ⟨m, List.mem_of_getElem? hm, rfl⟩
  · have hle := h.relayed c type hne
    show s.sent.countP (relays c type) ≤ ((z.said c).take (read c)).countP (isType type)
    rcases countP_relays_step hstep hne c with hsame | ⟨hmore, fields, heq, htype⟩
    · rw [hsame]
      exact hle.trans (List.Sublist.countP_le (List.take_sublist_take_left (hread c)))
    · obtain ⟨m, hobj, hm, hnext⟩ := hline c _ heq
      cases hobj
      rw [hmore, hnext, List.take_add_one, hm, List.countP_append]
      have hone : [fields].countP (isType type) = 1 := by
        rw [List.countP_singleton, if_pos htype]
      show _ ≤ _ + [fields].countP (isType type)
      omega
  · exact ((h.own c).sender cfg happ).mono ((hinbox c).take _)
  · exact ((h.own c).receiver cfg happ).mono fun y hy => (hinbox c).subset hy

/-- The process of `c` reacts to what it has heard up to now. -/
theorem reacts_sender (h : NetInv app z) {cfg : SenderConfig} (happ : app c = .sender cfg)
    {r : Reaction Sender} {heard : Conn → Nat} (hheard : ∀ c', c' ≠ c → heard c' = z.heard c')
    (hspoken : ∀ m ∈ r.sends, (app c).Says m)
    (hinv : SenderInv cfg r.state (z.said c ++ r.sends) ((z.inbox c).take (heard c))) :
    NetInv app ({ z with heard := heard }.senderReacts c r) := by
  have hsaid : ({ z with heard := heard }.senderReacts c r).said =
      Function.update z.said c (z.said c ++ r.sends) := rfl
  have hsenders : ({ z with heard := heard }.senderReacts c r).senders =
      Function.update z.senders c r.state := rfl
  refine h.update rfl rfl hsaid hspoken (fun c' hc => ⟨hheard c' hc, ?_, rfl⟩) ⟨?_, ?_⟩
  · rw [hsenders, Function.update_of_ne hc]
  · intro cfg' happ'
    rw [happ] at happ'
    cases happ'
    rw [hsaid, hsenders, Function.update_self, Function.update_self]
    exact hinv
  · intro cfg' happ'
    rw [happ] at happ'
    cases happ'

theorem reacts_receiver (h : NetInv app z) {cfg : ReceiverConfig} (happ : app c = .receiver cfg)
    {r : Reaction Receiver} {heard : Conn → Nat} (hheard : ∀ c', c' ≠ c → heard c' = z.heard c')
    (hspoken : ∀ m ∈ r.sends, (app c).Says m)
    (hinv : ReceiverInv r.state (z.said c ++ r.sends) (z.inbox c)) :
    NetInv app ({ z with heard := heard }.receiverReacts c r) := by
  have hsaid : ({ z with heard := heard }.receiverReacts c r).said =
      Function.update z.said c (z.said c ++ r.sends) := rfl
  have hreceivers : ({ z with heard := heard }.receiverReacts c r).receivers =
      Function.update z.receivers c r.state := rfl
  refine h.update rfl rfl hsaid hspoken (fun c' hc => ⟨hheard c' hc, rfl, ?_⟩) ⟨?_, ?_⟩
  · rw [hreceivers, Function.update_of_ne hc]
  · intro cfg' happ'
    rw [happ] at happ'
    cases happ'
  · intro cfg' happ'
    rw [happ] at happ'
    cases happ'
    rw [hsaid, hreceivers, Function.update_self, Function.update_self]
    exact hinv

theorem hears (h : NetInv app z) (rtc : Bool) {x : Sent Conn}
    (hx : (z.inbox c)[z.heard c]? = some x) : NetInv app (z.hears app c rtc x) := by
  have hnext : (z.inbox c).take (Function.update z.heard c (z.heard c + 1) c) =
      (z.inbox c).take (z.heard c) ++ [x] := by
    rw [Function.update_self, List.take_add_one, hx]
    rfl
  have hheard : ∀ c', c' ≠ c →
      Function.update z.heard c (z.heard c + 1) c' = z.heard c' := fun c' hc =>
    Function.update_of_ne hc _ _
  unfold Net.hears
  simp only []
  split
  · next cfg m happ hm =>
    have hinv := (h.own c).sender cfg happ
    obtain ⟨hsends, hstate⟩ := hinv.acts hm ((z.senders c).onMessage_cases cfg rtc m)
    refine h.reacts_sender happ hheard ?_ ?_
    · rw [hsends]
      exact nofun
    · rw [hsends, List.append_nil, hnext]
      exact hstate
  · next cfg m happ hm =>
    have hinv := (h.own c).receiver cfg happ
    have hmem : x ∈ z.inbox c := List.mem_of_getElem? hx
    obtain ⟨hsends, hstate⟩ := hinv.acts hmem hm ((z.receivers c).onMessage_cases rtc m)
    refine h.reacts_receiver happ hheard ?_ ?_
    · rw [hsends]
      exact nofun
    · rw [hsends, List.append_nil]
      exact hstate
  · next hsender hreceiver =>
    -- every message of the relay is an object
    exfalso
    obtain ⟨m, hm⟩ : ∃ m, x.out.toJson = .obj m := by
      cases x.out with
      | ready rid => exact ⟨_, rfl⟩
      | offer stream sdp => exact ⟨_, rfl⟩
      | answer stream rid sdp => exact ⟨_, rfl⟩
    cases happ : app c with
    | sender cfg => exact (hsender cfg m happ hm).elim
    | receiver cfg => exact (hreceiver cfg m happ hm).elim

theorem gathers (h : NetInv app z) (key : String) (sdp : Option String) :
    NetInv app (z.gathers app c key sdp) := by
  unfold Net.gathers
  split
  · next cfg happ =>
    have hinv := (h.own c).sender cfg happ
    obtain ⟨hsends, hstate⟩ := hinv.gathers ((z.senders c).onGathered_cases cfg key sdp)
    refine h.reacts_sender happ (fun _ _ => rfl) (fun m hm => ?_) hstate
    rw [happ]
    exact .inr (hsends m hm)
  · next cfg happ =>
    have hinv := (h.own c).receiver cfg happ
    obtain ⟨hsends, hstate⟩ := hinv.gathers ((z.receivers c).onGathered_cases key sdp)
    refine h.reacts_receiver happ (fun _ _ => rfl) (fun m hm => ?_) hstate
    rw [happ]
    exact .inr (hsends m hm)

theorem launch (h : NetInv app z) : NetInv app (z.say c [(app c).register]) := by
  have hsaid : (z.say c [(app c).register]).said =
      Function.update z.said c (z.said c ++ [(app c).register]) := rfl
  refine h.update rfl rfl hsaid (fun m hm => ?_) (fun _ _ => ⟨rfl, rfl, rfl⟩) ⟨?_, ?_⟩
  · rw [List.mem_singleton.mp hm]
    cases app c with
    | sender cfg => exact .inl rfl
    | receiver cfg => exact .inl rfl
  · intro cfg happ
    rw [hsaid, Function.update_self, happ]
    exact ((h.own c).sender cfg happ).say rfl
  · intro cfg happ
    rw [hsaid, Function.update_self, happ]
    exact ((h.own c).receiver cfg happ).say rfl

theorem step (h : NetInv app z) {a : NetAct Conn} (hstep : z.step app a = some z') :
    NetInv app z' := by
  have hserve : ∀ a : Act Conn, (∀ c msg, a ≠ .line c msg) → z.serve a = some z' →
      NetInv app z' := by
    intro a ha hz
    obtain ⟨s, hs, rfl⟩ := Option.map_eq_some_iff.mp hz
    exact h.relay_step hs (fun _ => Nat.le_refl _) fun c msg heq => absurd heq (ha c msg)
  cases a with
  | launch c =>
    simp only [Net.step] at hstep
    split at hstep <;> cases hstep
    exact h.launch.setStatus
  | accept c =>
    simp only [Net.step] at hstep
    split at hstep
    · cases hstep
    · exact hserve (.accept c) (fun _ _ => nofun) hstep
  | read c =>
    simp only [Net.step] at hstep
    split at hstep
    · cases hstep
    · next m hm =>
      obtain ⟨s, hs, rfl⟩ := Option.map_eq_some_iff.mp hstep
      refine h.relay_step hs (fun c' => ?_) fun c' msg heq => ?_
      · show z.read c' ≤ Function.update z.read c (z.read c + 1) c'
        rw [Function.update_apply]
        split
        · next hc =>
          rw [hc]
          exact Nat.le_succ _
        · exact Nat.le_refl _
      · cases heq
        exact ⟨m, rfl, hm, Function.update_self _ _ _⟩
  | eof c => exact hserve (.eof c) (fun _ _ => nofun) hstep
  | resume c choice => exact hserve (.resume c choice) (fun _ _ => nofun) hstep
  | sendRaises c => exact hserve (.sendRaises c) (fun _ _ => nofun) hstep
  | hear c rtc =>
    simp only [Net.step] at hstep
    split at hstep
    · next x _ hx =>
      cases hstep
      exact h.hears rtc hx
    · cases hstep
  | gathered c key sdp =>
    simp only [Net.step] at hstep
    split at hstep <;> cases hstep
    exact h.gathers key sdp
  | exit c =>
    simp only [Net.step] at hstep
    split at hstep <;> cases hstep
    exact h.setStatus

end NetInv

theorem netInv_reachable (h : (signaling app).Reachable z) : NetInv app z :=
  h.invariant NetInv.init fun _ _ _ hz hstep => hz.step hstep

/-! ## Pairs -/

/-- Every sender of a session has its own stream id. -/
def UniqueStreams (app : Conn → App) : Prop :=
  ∀ c c' cfg cfg', app c = .sender cfg → app c' = .sender cfg' → cfg.session = cfg'.session →
    cfg.streamId = cfg'.streamId → c = c'

/-- The receiver at `r` serves the sender at `c`, on the offer that it wrote, and nobody else. -/
structure Paired (app : Conn → App) (z : Net Conn) (c r : Conn) (cfg : SenderConfig)
    (p : ReceiverPeer) : Prop where
  sender : app c = .sender cfg
  receiver : app r = .receiver ⟨cfg.session, cfg.receiverId⟩
  offer : offer cfg.receiverId cfg.streamId p.offer ∈ z.said c
  holds : (z.receivers r).peers.entries = [(cfg.streamId, p)]

namespace NetInv

variable {r r' : Conn} {cfg : SenderConfig} {p p' : ReceiverPeer}

theorem offers_le_one (h : NetInv app z) (c : Conn) :
    (z.said c).countP (isType "offer") ≤ 1 := by
  cases happ : app c with
  | sender cfg =>
    have hinv := (h.own c).sender cfg happ
    refine hinv.offers.trans ?_
    rcases hinv.peers with hnil | ⟨p, hp⟩
    · rw [hnil]
      exact Nat.zero_le _
    · rw [hp]
      exact List.countP_le_length
  | receiver cfg =>
    refine (List.countP_eq_zero.mpr fun m hm htype => ?_).le.trans (Nat.zero_le _)
    obtain ⟨cfg', sdp, heq, -⟩ := (h.spoken c m hm).offered htype
    rw [happ] at heq
    cases heq

theorem answers_le_one (h : NetInv app z) (c : Conn) :
    (z.said c).countP (isType "answer") ≤ 1 := by
  cases happ : app c with
  | sender cfg =>
    refine (List.countP_eq_zero.mpr fun m hm htype => ?_).le.trans (Nat.zero_le _)
    obtain ⟨cfg', stream, sdp, heq, -⟩ := (h.spoken c m hm).answers htype
    rw [happ] at heq
    cases heq
  | receiver cfg =>
    have hinv := (h.own c).receiver cfg happ
    refine hinv.answers.trans ?_
    rcases hinv.peers with hnil | ⟨p, hp⟩
    · rw [hnil]
      exact Nat.zero_le _
    · rw [hp]
      exact List.countP_le_length

theorem relayed_le_one (h : NetInv app z) (c : Conn) :
    z.relay.sent.countP (relays c "offer") ≤ 1 ∧ z.relay.sent.countP (relays c "answer") ≤ 1 := by
  have hread : ∀ type, ((z.said c).take (z.read c)).countP (isType type) ≤
      (z.said c).countP (isType type) := fun type => (List.take_sublist _ _).countP_le
  constructor
  · exact (h.relayed c _ (by decide)).trans ((hread _).trans (h.offers_le_one c))
  · exact (h.relayed c _ (by decide)).trans ((hread _).trans (h.answers_le_one c))

/-- Whoever a receiver serves has sent it the offer that it holds. -/
theorem served_by (h : NetInv app z) {cfg' : ReceiverConfig} (happ : app r = .receiver cfg')
    {stream : String} (hp : (z.receivers r).peers.get? stream = some p) :
    ∃ c cfg, cfg.streamId = stream ∧ Paired app z c r cfg p ∧
      ∃ y ∈ z.relay.sent, y.dest = r ∧ relays c "offer" y = true := by
  have hinv := (h.own r).receiver cfg' happ
  obtain ⟨y, hy, hout⟩ := hinv.offers stream p hp
  obtain ⟨hsent, hdest⟩ := List.mem_filter.mp hy
  have hdest : y.dest = r := of_decide_eq_true hdest
  have hgood := h.served.sent y hsent
  unfold Good at hgood
  rw [hout, hdest] at hgood
  obtain ⟨cfg, cfg'', text, horigin, happ', hsession, hrid, hstream, hsdp, hsaid⟩ := hgood
  rw [happ] at happ'
  cases happ'
  obtain rfl := Key.str.inj hstream
  obtain rfl := Json.str.inj hsdp
  refine ⟨y.origin, cfg, rfl, ⟨horigin, ?_, hsaid, hinv.single hp⟩, y, hsent, hdest, ?_⟩
  · rw [happ, ← hsession, ← hrid]
  · rw [relays, hout, decide_eq_true rfl]
    rfl

/-- The offer that a receiver holds was relayed to it. -/
theorem relayed_to (h : NetInv app z) (hunique : UniqueStreams app)
    (hp : Paired app z c r cfg p) :
    ∃ y ∈ z.relay.sent, y.dest = r ∧ relays c "offer" y = true := by
  have hget : (z.receivers r).peers.get? cfg.streamId = some p := by
    rw [Dict.get?_eq_some_iff, hp.holds]
    exact List.mem_singleton.mpr rfl
  obtain ⟨c', cfg', hstream, hp', hy⟩ := h.served_by hp.receiver hget
  have hreceiver := hp'.receiver
  rw [hp.receiver] at hreceiver
  have hsession : cfg.session = cfg'.session :=
    congrArg ReceiverConfig.session (App.receiver.inj hreceiver)
  rw [hunique c c' cfg cfg' hp.sender hp'.sender hsession hstream.symm]
  exact hy

/-- A sender has one receiver at most. -/
theorem one_receiver (h : NetInv app z) (hunique : UniqueStreams app)
    (hp : Paired app z c r cfg p) (hp' : Paired app z c r' cfg p') : r = r' := by
  obtain ⟨y, hy, hdest, hrelays⟩ := h.relayed_to hunique hp
  obtain ⟨y', hy', hdest', hrelays'⟩ := h.relayed_to hunique hp'
  have heq := eq_of_countP_le_one (h.relayed_le_one c).1 hy hy' hrelays hrelays'
  rw [← hdest, ← hdest', heq]

/-- Who has sent a sender an answer serves it. -/
theorem answered_by (h : NetInv app z) (hunique : UniqueStreams app)
    (happ : app c = .sender cfg) {y : Sent Conn} (hy : y ∈ z.relay.sent) (hdest : y.dest = c)
    {stream rid : Key} {j : Json} (hout : y.out = .answer stream rid j) :
    ∃ p sdp, Paired app z c y.origin cfg p ∧ j = .str sdp ∧
      answer cfg.streamId sdp ∈ z.said y.origin := by
  have hgood := h.served.sent y hy
  unfold Good at hgood
  rw [hout, hdest] at hgood
  obtain ⟨cfg', cfg'', text, horigin, happ', hsession, -, -, hsdp, hsaid⟩ := hgood
  rw [happ] at happ'
  cases happ'
  have hinv := (h.own y.origin).receiver cfg' horigin
  obtain ⟨p, hp⟩ := hinv.answered cfg.streamId text hsaid
  obtain ⟨c', cfg'', hstream, hpaired, -⟩ := h.served_by horigin hp
  have hreceiver := hpaired.receiver
  rw [horigin] at hreceiver
  have hsession' : cfg'.session = cfg''.session :=
    congrArg ReceiverConfig.session (App.receiver.inj hreceiver)
  have hsame := hunique c c' cfg cfg'' happ hpaired.sender (hsession.symm.trans hsession')
    hstream.symm
  subst hsame
  have hcfg := hpaired.sender
  rw [happ] at hcfg
  cases hcfg
  exact ⟨p, text, hpaired, hsdp, hsaid⟩

end NetInv

/-- A process writes one offer or answer at most.  What a receiver serves is a sender of its
session that meant it, on the offer that sender wrote; no two receivers serve one sender and no
receiver serves two.  A sender is given one answer at most, and that is what the receiver that
serves it wrote. -/
theorem signaling_agreement (hunique : UniqueStreams app) (h : (signaling app).Reachable z) :
    (∀ c, (z.said c).countP (isType "offer") ≤ 1 ∧ (z.said c).countP (isType "answer") ≤ 1) ∧
    (∀ r cfg, app r = .receiver cfg → ∀ stream p, (z.receivers r).peers.get? stream = some p →
      ∃ c cfg, cfg.streamId = stream ∧ Paired app z c r cfg p) ∧
    (∀ c c' r cfg cfg' p p', Paired app z c r cfg p → Paired app z c' r cfg' p' → c = c') ∧
    (∀ c r r' cfg p p', Paired app z c r cfg p → Paired app z c r' cfg p' → r = r') ∧
    ∀ c cfg, app c = .sender cfg → ∀ k q, (z.senders c).peers.get? k = some q →
      ∀ sdp ∈ q.answers, q.answers = [sdp] ∧ ∃ r p, Paired app z c r cfg p ∧
        p.answerSent = true ∧ answer cfg.streamId sdp ∈ z.said r := by
  have hi := netInv_reachable h
  refine ⟨fun c => ⟨hi.offers_le_one c, hi.answers_le_one c⟩, ?_, ?_,
    fun c r r' cfg p p' hp hp' => hi.one_receiver hunique hp hp', ?_⟩
  · intro r cfg happ stream p hp
    obtain ⟨c, cfg', hstream, hpaired, -⟩ := hi.served_by happ hp
    exact ⟨c, cfg', hstream, hpaired⟩
  · intro c c' r cfg cfg' p p' hp hp'
    have hholds := hp.holds
    rw [hp'.holds] at hholds
    have hreceiver := hp.receiver
    rw [hp'.receiver] at hreceiver
    have hsession : cfg'.session = cfg.session :=
      congrArg ReceiverConfig.session (App.receiver.inj hreceiver)
    have hstream : cfg'.streamId = cfg.streamId :=
      congrArg Prod.fst (List.singleton_inj.mp hholds)
    exact hunique c c' cfg cfg' hp.sender hp'.sender hsession.symm hstream.symm
  · intro c cfg happ k q hq sdp hsdp
    have hinv := (hi.own c).sender cfg happ
    obtain ⟨hfrom, hlength⟩ := hinv.answers k q hq
    obtain ⟨y, hy, stream, hout⟩ := hfrom sdp hsdp
    obtain ⟨hsent, hdest⟩ := List.mem_filter.mp ((List.take_sublist _ _).subset hy)
    obtain ⟨p, text, hpaired, hj, hsaid⟩ :=
      hi.answered_by hunique happ hsent (of_decide_eq_true hdest) hout
    obtain rfl := Json.str.inj hj
    have hone : q.answers.length ≤ 1 := by
      refine hlength.trans (((List.take_sublist _ _).countP_le).trans ?_)
      rw [Net.inbox, List.countP_filter]
      -- all answers to this sender are from the receiver that serves it
      refine le_trans (List.countP_mono_left fun x hx hboth => ?_) (hi.relayed_le_one y.origin).2
      obtain ⟨htype, hto⟩ := Bool.and_eq_true_iff.mp hboth
      have htype : x.out.type = "answer" := of_decide_eq_true htype
      cases hxout : x.out with
      | ready rid =>
        rw [hxout] at htype
        exact absurd htype (by simp [Out.type])
      | offer s j =>
        rw [hxout] at htype
        exact absurd htype (by simp [Out.type])
      | answer s rid j =>
        obtain ⟨p', -, hpaired', -⟩ :=
          hi.answered_by hunique happ hx (of_decide_eq_true hto) hxout
        rw [relays, hi.one_receiver hunique hpaired' hpaired, decide_eq_true rfl, hxout]
        rfl
    refine ⟨?_, y.origin, p, hpaired, ?_, hsaid⟩
    · obtain ⟨s, hs⟩ := List.length_eq_one_iff.mp
        (Nat.le_antisymm hone (List.length_pos_of_mem hsdp))
      rw [hs] at hsdp
      rw [hs, List.mem_singleton.mp hsdp]
    · have hreceiver := (hi.own y.origin).receiver _ hpaired.receiver
      have hle := hreceiver.answers
      have hpos : 0 < (z.said y.origin).countP (isType "answer") :=
        List.countP_pos_iff.mpr ⟨_, hsaid, rfl⟩
      rw [hpaired.holds, List.countP_singleton] at hle
      by_contra hnot
      rw [if_neg hnot] at hle
      omega

inductive Site where
  | camera
  | viewer
  deriving DecidableEq

def call : Site → App
  | .camera => .sender ⟨"s1", "cam0", "recv0"⟩
  | .viewer => .receiver ⟨"s1", "recv0"⟩

theorem uniqueStreams_call : UniqueStreams call := by
  intro c c' cfg cfg' h h' _ _
  cases c with
  | camera =>
    cases c' with
    | camera => rfl
    | viewer => cases h'
  | viewer => cases h

def callRun : List (NetAct Site) :=
  [.launch .camera, .accept .camera, .read .camera, .launch .viewer, .accept .viewer,
    .read .viewer, .resume .viewer .stop, .hear .camera true,
    .gathered .camera "recv0" (some "offered"), .read .camera, .resume .camera .stop,
    .hear .viewer true, .gathered .viewer "cam0" (some "answered"), .read .viewer,
    .resume .viewer .stop, .hear .camera true]

theorem signaling_agreement_call : ∃ z : Net Site, (signaling call).Reachable z ∧
    ∃ r p, Paired call z .camera r ⟨"s1", "cam0", "recv0"⟩ p ∧ p.answerSent = true ∧
      answer "cam0" "answered" ∈ z.said r := by
  obtain ⟨z, hz, hpeer⟩ := Machine.exists_of_execBy (m := signaling call)
    (G := fun _ _ => True) callRun
    (P := fun z => (z.senders .camera).peers.get? "recv0" = some ⟨true, ["answered"]⟩)
    (by decide +kernel)
  obtain ⟨-, -, -, -, hanswers⟩ := signaling_agreement uniqueStreams_call hz
  obtain ⟨-, r, p, hpaired, hsent, hsaid⟩ :=
    hanswers .camera _ rfl "recv0" _ hpeer "answered" (List.mem_singleton.mpr rfl)
  exact ⟨z, hz, r, p, hpaired, hsent, hsaid⟩

end Signaling
end P5G
