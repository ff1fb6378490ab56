import P5G.Control.Agreement

/-!
# Where a sender sends to

A sender takes its destination from the receiver-ready it answers; the server
binds its stream-start to whoever holds the receiver id when it reads it.  The
two agree as long as the ports do at that moment.
-/

namespace P5G
namespace Control

variable {Conn : Type*} [DecidableEq Conn] {d : Deployment Conn} {z z' : Net Conn}
  {s : State Conn}

/-- A stream-start is accepted only for a receiver whose registered ports are
those that its sender has. -/
def portsAgree (z : Net Conn) : NetAct Conn → Bool
  | .read c =>
    match (z.said c)[z.read c]?, z.server.peers c with
    | some m, some peer =>
      match Fields.get? m "type", Fields.itemKey m "to" with
      | some (.str t), .ok rid =>
        match (z.server.sessions peer.session).receivers.get? rid with
        | some (_, info) => t ≠ "stream-start" ||
            (info.rtpPort = (z.senders c).rtpDest.toNat &&
              info.rtcpPort = (z.senders c).rtcpDest.toNat)
        | none => true
      | _, _ => true
    | _, _ => true
  | _ => true

omit [DecidableEq Conn] in
theorem ports_of_portsAgree {c recv : Conn} {m : Fields} {peer : Peer} {rid : Key} {info : Info}
    (h : portsAgree z (.read c) = true) (hm : (z.said c)[z.read c]? = some m)
    (hpeer : z.server.peers c = some peer) (htype : m.get? "type" = some (.str "stream-start"))
    (hto : m.itemKey "to" = .ok rid)
    (hrecv : (z.server.sessions peer.session).receivers.get? rid = some (recv, info)) :
    info.rtpPort = (z.senders c).rtpDest.toNat ∧ info.rtcpPort = (z.senders c).rtcpDest.toNat := by
  simpa [portsAgree, hm, hpeer, htype, hto, hrecv] using h

/-- A sender that has answered a receiver-ready answers no other. -/
def Committed (z : Net Conn) (c : Conn) : Prop :=
  (z.senders c).awaitingAck = true ∨ (z.senders c).started = true ∨ z.status c = .exited

/-- A sender that has not answered a receiver-ready may do so now; one that has
keeps its destination and stays committed. -/
theorem SenderHeard.committed {cfg : SenderConfig} {x : Sender} {m : Fields} {r : Reaction Sender}
    (h : SenderHeard cfg x m r)
    (hok : m.valueStr "type" "" = some "stream-ack" → m.valueBool "ok" true ≠ none) :
    (x.awaitingAck = false ∧ x.started = false ∧ (r.sends = [] ∨ r.state.awaitingAck = true)) ∨
      ((x.awaitingAck = true ∨ x.started = true) ∧ r.state.rtpDest = x.rtpDest ∧
        r.state.rtcpDest = x.rtcpDest ∧
        (r.state.awaitingAck = true ∨ r.state.started = true ∨ r.exits = true)) := by
  cases h with
  | ignored =>
    by_cases hx : x.awaitingAck = true ∨ x.started = true
    · exact .inr ⟨hx, rfl, rfl, hx.imp_right .inl⟩
    · refine .inl ⟨?_, ?_, .inl rfl⟩
      · exact Bool.eq_false_iff.mpr (fun ha => hx (.inl ha))
      · exact Bool.eq_false_iff.mpr (fun hs => hx (.inr hs))
  | readyFailed y exits hx hy => exact .inl ⟨hx.2, hx.1, .inl rfl⟩
  | announced y hx hy => exact .inl ⟨hx.2, hx.1, .inr hy.2⟩
  | badAck htype hx hwait hnone => exact absurd hnone (hok htype)
  | refused htype hx hwait => exact .inr ⟨.inl hwait, rfl, rfl, .inr (.inr rfl)⟩
  | started htype hx hwait hacc => exact .inr ⟨.inl hwait, rfl, rfl, .inr (.inl rfl)⟩

structure DestInv (d : Deployment Conn) (z : Net Conn) : Prop where
  committed : ∀ c cfg, d.app c = .sender cfg → cfg.streamStart ∈ z.said c → Committed z c
  dest : ∀ x ∈ z.server.sent, ∀ name stream g host msg, x.out = .start name stream g host msg →
    ∃ cfg, d.app x.dest = .receiver cfg ∧ (z.senders x.origin).rtpDest = cfg.rtpPort ∧
      (z.senders x.origin).rtcpDest = cfg.rtcpPort

namespace DestInv

variable {c : Conn}

omit [DecidableEq Conn] in
theorem init : DestInv d (Net.init : Net Conn) := ⟨nofun, nofun⟩

omit [DecidableEq Conn] in
/-- The ack of a receiver always tells whether it accepts. -/
theorem ok_of_ack (h : NetInv d z) {x : Sent Conn} (hx : x ∈ z.server.sent) {m : Fields}
    (hm : x.out.toJson = .obj m) (htype : m.valueStr "type" "" = some "stream-ack") :
    m.valueBool "ok" true ≠ none := by
  have ho := (h.served.sent x hx).typed.toJson hm
  obtain ⟨name, stream, g, msg, hout⟩ := Out.ack_of_type (Option.some.inj (ho.symm.trans htype))
  have hgood := h.served.sent x hx
  obtain ⟨origin, dest, out⟩ := x
  subst hout
  cases hm
  obtain ⟨hmem, htype', -⟩ := hgood
  obtain ⟨cfg, -, ⟨st, g', rfl⟩ | ⟨st, g', serving, rfl⟩⟩ := (h.spoken _ _ hmem).ack htype'
  · exact nofun
  · exact nofun

omit [DecidableEq Conn] in
/-- A stream-start in the hands of the server was written by its sender. -/
theorem streamStart_said (h : NetInv d z) {x : Sent Conn} (hx : x ∈ z.server.sent)
    {name stream : Key} {g : Nat} {host : String} {msg : Fields}
    (ho : x.out = .start name stream g host msg) :
    ∃ cfg, d.app x.origin = .sender cfg ∧ cfg.streamStart ∈ z.said x.origin := by
  have hgood := h.served.sent x hx
  obtain ⟨origin, dest, out⟩ := x
  subst ho
  obtain ⟨hmem, ⟨cfg, happ, rfl, -⟩, -⟩ := hgood
  exact ⟨cfg, happ, hmem⟩

theorem senderHears (hd : DestInv d z) (h : NetInv d z) {cfg : SenderConfig}
    (happ : d.app c = .sender cfg) (hrun : z.status c = .running) {x : Sent Conn}
    (hx : x ∈ z.server.sent) {m : Fields} (hm : x.out.toJson = .obj m) :
    DestInv d (z.senderHears d c cfg x m) := by
  have hr := Sender.onMessage_cases cfg d.inetPton (z.senders c) m
  unfold Net.senderHears
  generalize (z.senders c).onMessage cfg d.inetPton m = r at hr
  simp only []
  set z' := ({ z with
    senders := Function.update z.senders c r.state
    starts := if !(z.senders c).started && r.state.started then z.starts ++ [(c, x.origin)]
      else z.starts }.say c r.sends).exitIf c r.exits with hz'
  have hself : z'.senders c = r.state := Function.update_self ..
  have hother {c' : Conn} (hne : c' ≠ c) : z'.senders c' = z.senders c' :=
    Function.update_of_ne hne ..
  have hstatus {c' : Conn} (he : z.status c' = .exited) : z'.status c' = .exited := by
    show (if r.exits then Function.update z.status c .exited else z.status) c' = .exited
    split
    · rw [Function.update_apply]
      split <;> first | rfl | exact he
    · exact he
  have hsaid {c' : Conn} {m' : Fields} (hm' : m' ∈ z'.said c') :
      m' ∈ z.said c' ∨ c' = c ∧ m' ∈ r.sends := Net.mem_say.mp hm'
  have kept {c' : Conn} (hne : c' ≠ c) (hc : Committed z c') : Committed z' c' := by
    rw [Committed, hother hne]
    exact hc.imp_right (Or.imp_right hstatus)
  rcases hr.committed (ok_of_ack h hx hm) with ⟨hwait, hstart, hsends⟩ |
    ⟨hlatch, hrtp, hrtcp, hstay⟩
  · -- nothing of this sender is under way
    have hnot : cfg.streamStart ∉ z.said c := by
      intro hmem
      rcases hd.committed c cfg happ hmem with hc | hc | hc
      · rw [hwait] at hc; cases hc
      · rw [hstart] at hc; cases hc
      · rw [hrun] at hc; cases hc
    refine ⟨fun c' cfg' happ' hmem => ?_, fun y hy name stream g host msg ho => ?_⟩
    · by_cases hne : c' = c
      · subst hne
        rw [happ] at happ'
        cases happ'
        rcases hsaid hmem with hold | ⟨-, hnew⟩
        · exact absurd hold hnot
        · rcases hsends with hnil | hnow
          · rw [hnil] at hnew
            cases hnew
          · exact .inl (by rw [hself, hnow])
      · rcases hsaid hmem with hold | ⟨hc, -⟩
        · exact kept hne (hd.committed c' cfg' happ' hold)
        · exact absurd hc hne
    · obtain ⟨cfg', happ', hmem⟩ := streamStart_said h hy ho
      have hne : y.origin ≠ c := by
        intro heq
        rw [heq] at happ' hmem
        rw [happ] at happ'
        cases happ'
        exact hnot hmem
      rw [hother hne]
      exact hd.dest y hy name stream g host msg ho
  · refine ⟨fun c' cfg' happ' hmem => ?_, fun y hy name stream g host msg ho => ?_⟩
    · by_cases hne : c' = c
      · subst hne
        rw [Committed, hself]
        refine hstay.imp_right (Or.imp_right (fun he => ?_))
        show (if r.exits then Function.update z.status c' .exited else z.status) c' = .exited
        rw [if_pos he, Function.update_self]
      · rcases hsaid hmem with hold | ⟨hc, -⟩
        · exact kept hne (hd.committed c' cfg' happ' hold)
        · exact absurd hc hne
    · have hdest := hd.dest y hy name stream g host msg ho
      by_cases hne : y.origin = c
      · rw [hne] at hdest ⊢
        rw [hself, hrtp, hrtcp]
        exact hdest
      · rw [hother hne]
        exact hdest

theorem receiverHears (hd : DestInv d z) {cfg : ReceiverConfig} (happ : d.app c = .receiver cfg)
    (m : Fields) : DestInv d (z.receiverHears c m) := by
  refine ⟨fun c' cfg' happ' hmem => ?_, hd.dest⟩
  rcases Net.mem_say.mp hmem with hold | ⟨rfl, -⟩
  · refine (hd.committed c' cfg' happ' hold).imp_right (Or.imp_right (fun he => ?_))
    show (if ((z.receivers c).onMessage m).exits then Function.update z.status c .exited
      else z.status) c' = .exited
    split
    · rw [Function.update_apply]
      split <;> first | rfl | exact he
    · exact he
  · rw [happ] at happ'
    cases happ'

/-- The server hands a stream-start over to a receiver with the ports of its
sender. -/
theorem serve (hd : DestInv d z) (h : NetInv d z) {a : Act Conn}
    (hs : z.server.step d.env a = some s)
    (hports : ∀ c recv peer rid info, ∀ fields : Fields, a = .line c (.obj fields) →
      fields.get? "type" = some (.str "stream-start") → z.server.peers c = some peer →
      fields.itemKey "to" = .ok rid →
      (z.server.sessions peer.session).receivers.get? rid = some (recv, info) →
      info.rtpPort = (z.senders c).rtpDest.toNat ∧ info.rtcpPort = (z.senders c).rtcpDest.toNat) :
    DestInv d { z with server := s } := by
  refine ⟨hd.committed, fun x hx name stream g host msg ho => ?_⟩
  change x ∈ s.sent at hx
  rcases step_sent hs with hsame | ⟨y, hy, hsends⟩
  · exact hd.dest x (hsame ▸ hx) name stream g host msg ho
  · rw [hy] at hx
    rcases List.mem_append.mp hx with hx | hx
    · exact hd.dest x hx name stream g host msg ho
    · obtain rfl := List.mem_singleton.mp hx
      cases hsends with
      | plain a c dest out hplain =>
        change out = _ at ho
        rw [ho] at hplain
        exact hplain.elim
      | ack peer stream p fields htype hpeer hstream hp hgen hsender => cases ho
      | start c recv peer rid info host fields htype hpeer hto hrecv =>
        obtain ⟨hrtp, hrtcp⟩ := hports c recv peer rid info fields rfl htype hpeer hto hrecv
        obtain ⟨hp, hoffers⟩ := h.served.receivers _ _ _ hrecv
        obtain ⟨cfg, happ, -⟩ := App.peer_receiver hp
        obtain ⟨hrtp', hrtcp'⟩ := hoffers cfg happ
        refine ⟨cfg, happ, UInt16.toNat_inj.mp ?_, UInt16.toNat_inj.mp ?_⟩
        · exact_mod_cast hrtp.symm.trans hrtp'
        · exact_mod_cast hrtcp.symm.trans hrtcp'

theorem step (hd : DestInv d z) (h : NetInv d z) {a : NetAct Conn} (hok : portsAgree z a = true)
    (hstep : z.step d a = some z') : DestInv d z' := by
  cases a with
  | launch c =>
    simp only [Net.step] at hstep
    split at hstep <;> cases hstep
    next habsent =>
    refine ⟨fun c' cfg happ hmem => ?_, hd.dest⟩
    have hold : cfg.streamStart ∈ z.said c' := by
      rcases Net.mem_say.mp hmem with hold | ⟨rfl, hnew⟩
      · exact hold
      · rw [happ] at hnew
        have heq : cfg.streamStart = cfg.register := List.mem_singleton.mp hnew
        have htype : Fields.get? cfg.register "type" = some (.str "stream-start") := by
          rw [← heq]
          rfl
        exact absurd (Fields.type_unique (a := "register") rfl htype) (by decide)
    refine (hd.committed c' cfg happ hold).imp_right (Or.imp_right (fun he => ?_))
    show Function.update z.status c .running c' = .exited
    rw [Function.update_of_ne, he]
    rintro rfl
    rw [habsent] at he
    cases he
  | accept c =>
    simp only [Net.step] at hstep
    split at hstep
    · cases hstep
    · obtain ⟨s, hs, rfl⟩ := Net.of_serve hstep
      exact hd.serve h hs (fun _ _ _ _ _ _ heq => by cases heq)
  | read c =>
    simp only [Net.step] at hstep
    split at hstep
    · cases hstep
    · next m hm =>
      obtain ⟨s, hs, rfl⟩ := Net.of_serve hstep
      have := hd.serve h hs (fun c' recv peer rid info fields heq htype hpeer hto hrecv => by
        cases heq
        exact ports_of_portsAgree hok hm hpeer htype hto hrecv)
      exact ⟨this.committed, this.dest⟩
  | eof | resume | sendRaises =>
    obtain ⟨s, hs, rfl⟩ := Net.of_serve hstep
    exact hd.serve h hs (fun _ _ _ _ _ _ heq => by cases heq)
  | hear c =>
    simp only [Net.step] at hstep
    split at hstep
    · next x hrun hx =>
      cases hstep
      obtain ⟨hmem, hdest⟩ := Net.mem_inbox hx
      have h' : NetInv d { z with heard := Function.update z.heard c (z.heard c + 1) } :=
        ⟨h.ack, h.served, h.spoken, h.started, h.starts⟩
      have hd' : DestInv d { z with heard := Function.update z.heard c (z.heard c + 1) } :=
        ⟨hd.committed, hd.dest⟩
      unfold Net.hears
      simp only []
      split
      · next happ hm => exact hd'.senderHears h' happ hrun hmem hm
      · next m happ hm => exact hd'.receiverHears happ m
      · exact hd'
    · cases hstep
  | command c msg =>
    simp only [Net.step] at hstep
    split at hstep
    · next t happ _ _ =>
      split at hstep
      · cases hstep
        refine ⟨fun c' cfg happ' hmem => hd.committed c' cfg happ' ?_, hd.dest⟩
        rcases Net.mem_say.mp hmem with hold | ⟨rfl, -⟩
        · exact hold
        · rw [happ] at happ'
          cases happ'
      · cases hstep
    · cases hstep
  | exit c =>
    simp only [Net.step] at hstep
    split at hstep <;> cases hstep
    refine ⟨fun c' cfg happ hmem => ?_, hd.dest⟩
    refine (hd.committed c' cfg happ hmem).imp_right (Or.imp_right (fun he => ?_))
    show Function.update z.status c .exited c' = .exited
    rw [Function.update_apply]
    split
    · rfl
    · exact he

end DestInv

/-- In a run in which every stream-start is accepted for a receiver with the
ports that its sender has, a sender that has started sends to the ports of the
receiver on whose ack it did. -/
theorem destination_agreement
    (h : (control d).ReachableBy (fun z a => portsAgree z a = true) z) :
    (∀ c, (z.senders c).started = true ↔ ∃ r, (c, r) ∈ z.starts) ∧
      ∀ c r, (c, r) ∈ z.starts → ∃ cfg, d.app r = .receiver cfg ∧
        (z.senders c).rtpDest = cfg.rtpPort ∧ (z.senders c).rtcpDest = cfg.rtcpPort := by
  obtain ⟨hinv, hdest⟩ := @Machine.ReachableBy.invariant _ _ (control d) _
    (fun z => NetInv d z ∧ DestInv d z) ⟨.init, .init⟩
    (fun _ _ _ hi hok hs => ⟨hi.1.step hs, hi.2.step hi.1 hok hs⟩) z h
  refine ⟨hinv.started, fun c r hcr => ?_⟩
  obtain ⟨-, name, stream, g, msg, hack, -⟩ := hinv.starts c r hcr
  obtain ⟨-, -, -, -, host, msg', hstart⟩ := hinv.served.sent _ hack
  exact hdest.dest _ hstart name stream g host msg' rfl

theorem destination_agreement_upToStarted : ∃ z : Net (Fin 3),
    (control (deployment defaultSender)).ReachableBy (fun z a => portsAgree z a = true) z ∧
      (1, 0) ∈ z.starts ∧ (z.senders 1).rtpDest = 5000 ∧ (z.senders 1).rtcpDest = 5001 := by
  obtain ⟨z, hz, hstart⟩ := Machine.exists_of_execBy (m := control (deployment defaultSender))
    (G := fun z a => portsAgree z a = true) upToStarted
    (P := fun z : Net (Fin 3) => (1, 0) ∈ z.starts) (by decide +kernel)
  obtain ⟨cfg, happ, hrtp, hrtcp⟩ := (destination_agreement hz).2 1 0 hstart
  obtain rfl : defaultReceiver = cfg := App.receiver.inj happ
  exact ⟨z, hz, hstart, hrtp, hrtcp⟩

/-- A deployment in which connection 2 is a second receiver of the same id. -/
def replacement : Deployment (Fin 3) where
  app c := if c = 0 then .receiver defaultReceiver else if c = 1 then .sender defaultSender
    else .receiver { defaultReceiver with rtpPort := 6000, rtcpPort := 6001 }
  env := defaultEnv
  inetPton _ := true

/-- The receiver is replaced while the stream-start is on its way: the second
one acknowledges, and the sender sends to the ports of the first. -/
theorem replaced_receiver_missed : ¬ ∀ (d : Deployment (Fin 3)) (z : Net (Fin 3)),
    (control d).Reachable z → ∀ c r, (c, r) ∈ z.starts → ∃ cfg, d.app r = .receiver cfg ∧
      (z.senders c).rtpDest = cfg.rtpPort ∧ (z.senders c).rtcpDest = cfg.rtcpPort := by
  intro h
  obtain ⟨z, hz, hstart, hdest⟩ := Machine.exists_of_execBy (m := control replacement)
    (G := fun _ _ => True)
    [.launch 0, .accept 0, .read 0, .launch 1, .accept 1, .read 1, .resume 1 .stop, .hear 1,
      .launch 2, .accept 2, .read 2, .resume 2 .stop, .read 1, .resume 1 .stop, .hear 2, .read 2,
      .resume 2 .stop, .hear 1, .hear 1]
    (P := fun z : Net (Fin 3) => (1, 2) ∈ z.starts ∧ (z.senders 1).rtpDest = 5000)
    (by decide +kernel)
  obtain ⟨cfg, happ, hrtp, -⟩ := h replacement z hz 1 2 hstart
  obtain rfl : _ = cfg := App.receiver.inj happ
  rw [hdest] at hrtp
  exact absurd hrtp (by decide)

end Control
end P5G
