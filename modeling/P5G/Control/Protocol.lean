import P5G.Control.System
import P5G.Control.Provenance

/-!
# What the processes say and hear

The messages each kind of process writes, what the server reads out of them,
and what a message does to a sender or a receiver.
-/

namespace P5G

namespace Json

theorem int_ofNat (f : String → Option Int) (n : Nat) : (ofNat n).int f = .ok (n : Int) := by
  simp [ofNat, int]

theorem toInt?_ofNat (n : Nat) : (ofNat n).toInt? = some (n : Int) := by
  simp [ofNat, toInt?]

theorem toInt?_ofInt32 (i : Int32) : (ofInt32 i).toInt? = some i.toInt := by
  simp [ofInt32, toInt?]

end Json

namespace Control

def App.peer : App → Option Peer
  | .sender cfg => some ⟨.str cfg.session, .sender, .str cfg.streamId⟩
  | .receiver cfg => some ⟨.str cfg.session, .receiver, .str cfg.receiverId⟩
  | .operator => none

def App.Says : App → Fields → Prop
  | .sender cfg, m => m = cfg.register ∨ m = cfg.streamStart
  | .receiver cfg, m => m = cfg.register ∨ (∃ stream g, m = acceptAck stream g) ∨
      ∃ stream g serving, m = refuseAck stream g serving
  | .operator, m => m.get? "type" = some (.str "profile")

def ReceiverConfig.Offers (cfg : ReceiverConfig) (info : Info) : Prop :=
  info.rtpPort = cfg.rtpPort.toNat ∧ info.rtcpPort = cfg.rtcpPort.toNat

variable {Conn : Type*} {env : Env Conn}

theorem registration_type {m : Fields} {p : Peer} (h : registration env (.obj m) = some p) :
    m.get? "type" = some (.str "register") := by
  dsimp only [registration] at h
  split at h
  · next t _ _ htype _ _ =>
    split at h
    · next ht => rw [htype, ht]
    · cases h
  · cases h

theorem registration_sender (cfg : SenderConfig) :
    registration env (.obj cfg.register) =
      some ⟨.str cfg.session, .sender, .str cfg.streamId⟩ := by
  simp [registration, SenderConfig.register, Fields.get?, Fields.itemKey, Fields.item, List.lookup,
    State.roleOf, Except.bind, Json.key]

variable (env) in
theorem readInfo_receiver (cfg : ReceiverConfig) : ∃ info,
    readInfo env cfg.register = .ok info ∧ cfg.Offers info := by
  refine ⟨⟨cfg.rtpPort.toNat, cfg.rtcpPort.toNat, (Fields.get? cfg.register "host").getD .null⟩,
    ?_, rfl, rfl⟩
  have hitem {name : String} {j : Json} (h : Fields.get? cfg.register name = some j) :
      Fields.item cfg.register name = .ok j := by
    rw [Fields.item, h]
    rfl
  have hrtp : Fields.get? cfg.register "rtp_port" = some (.ofNat cfg.rtpPort.toNat) := rfl
  have hrtcp : Fields.get? cfg.register "rtcp_port" = some (.ofNat cfg.rtcpPort.toNat) := rfl
  rw [readInfo, hitem hrtp, hitem hrtcp]
  simp only [bind, Except.bind, Json.int_ofNat, pure, Except.pure]

theorem registration_receiver (cfg : ReceiverConfig) :
    registration env (.obj cfg.register) =
      some ⟨.str cfg.session, .receiver, .str cfg.receiverId⟩ := by
  obtain ⟨info, hinfo, -⟩ := readInfo_receiver env cfg
  simp [registration, hinfo]
  simp [ReceiverConfig.register, Fields.get?, Fields.itemKey, Fields.item, List.lookup,
    State.roleOf, Except.bind, Json.key]

/-- Only its register message registers a process, and as what it is. -/
theorem App.Says.registered {app : App} {m : Fields} {p : Peer} (h : app.Says m)
    (hr : registration env (.obj m) = some p) : app.peer = some p ∧
      ∀ cfg, app = .receiver cfg → ∀ info, readInfo env m = .ok info → cfg.Offers info := by
  have htype := registration_type hr
  cases app with
  | sender cfg =>
    refine ⟨?_, nofun⟩
    rcases h with rfl | rfl
    · rw [registration_sender] at hr
      exact hr
    · exact absurd (Fields.type_unique (a := "stream-start") rfl htype) (by decide)
  | receiver cfg =>
    rcases h with rfl | ⟨stream, g, rfl⟩ | ⟨stream, g, serving, rfl⟩
    · rw [registration_receiver] at hr
      refine ⟨hr, fun cfg' heq info hinfo => ?_⟩
      cases heq
      obtain ⟨info', hinfo', hoffers⟩ := readInfo_receiver env cfg
      rw [hinfo'] at hinfo
      cases hinfo
      exact hoffers
    · exact absurd (Fields.type_unique (a := "stream-ack") rfl htype) (by decide)
    · exact absurd (Fields.type_unique (a := "stream-ack") rfl htype) (by decide)
  | operator => exact absurd (Fields.type_unique h htype) (by decide)

theorem App.Says.start {app : App} {m : Fields} (h : app.Says m)
    (htype : m.get? "type" = some (.str "stream-start")) :
    ∃ cfg, app = .sender cfg ∧ m = cfg.streamStart := by
  cases app with
  | sender cfg =>
    rcases h with rfl | rfl
    · exact absurd (Fields.type_unique (a := "register") rfl htype) (by decide)
    · exact ⟨cfg, rfl, rfl⟩
  | receiver cfg =>
    rcases h with rfl | ⟨stream, g, rfl⟩ | ⟨stream, g, serving, rfl⟩
    · exact absurd (Fields.type_unique (a := "register") rfl htype) (by decide)
    · exact absurd (Fields.type_unique (a := "stream-ack") rfl htype) (by decide)
    · exact absurd (Fields.type_unique (a := "stream-ack") rfl htype) (by decide)
  | operator => exact absurd (Fields.type_unique h htype) (by decide)

theorem App.Says.ack {app : App} {m : Fields} (h : app.Says m)
    (htype : m.get? "type" = some (.str "stream-ack")) :
    ∃ cfg, app = .receiver cfg ∧ ((∃ stream g, m = acceptAck stream g) ∨
      ∃ stream g serving, m = refuseAck stream g serving) := by
  cases app with
  | sender cfg =>
    rcases h with rfl | rfl
    · exact absurd (Fields.type_unique (a := "register") rfl htype) (by decide)
    · exact absurd (Fields.type_unique (a := "stream-start") rfl htype) (by decide)
  | receiver cfg =>
    rcases h with rfl | hack
    · exact absurd (Fields.type_unique (a := "register") rfl htype) (by decide)
    · exact ⟨cfg, rfl, hack⟩
  | operator => exact absurd (Fields.type_unique h htype) (by decide)

def Out.type : Out → String
  | .ready _ _ => "receiver-ready"
  | .start _ _ _ _ _ => "stream-start"
  | .ack _ _ _ _ => "stream-ack"
  | .profile _ => "profile"
  | .pong => "pong"

def Out.Typed : Out → Prop
  | .start _ _ _ _ msg => msg.get? "type" = some (.str "stream-start")
  | .ack _ _ _ msg => msg.get? "type" = some (.str "stream-ack")
  | .profile msg => msg.get? "type" = some (.str "profile")
  | _ => True

theorem Out.Typed.toJson {o : Out} (h : o.Typed) {m : Fields} (hm : o.toJson = .obj m) :
    m.valueStr "type" "" = some o.type := by
  have htype : m.get? "type" = some (.str o.type) := by
    cases o with
    | ready rid info =>
      cases hm
      rfl
    | start name stream g host msg =>
      cases hm
      rw [Fields.get?_set_ne _ _ (by decide), Fields.get?_set_ne _ _ (by decide),
        Fields.get?_set_ne _ _ (by decide)]
      exact h
    | ack name stream g msg =>
      cases hm
      exact h
    | profile msg =>
      cases hm
      exact h
    | pong =>
      cases hm
      rfl
  rw [Fields.valueStr, htype]

theorem Out.ack_of_type {o : Out} (h : o.type = "stream-ack") :
    ∃ name stream g msg, o = .ack name stream g msg := by
  cases o with
  | ack name stream g msg => exact ⟨name, stream, g, msg, rfl⟩
  | _ => exact absurd h (by simp [Out.type])

theorem Out.start_of_type {o : Out} (h : o.type = "stream-start") :
    ∃ name stream g host msg, o = .start name stream g host msg := by
  cases o with
  | start name stream g host msg => exact ⟨name, stream, g, host, msg, rfl⟩
  | _ => exact absurd h (by simp [Out.type])

inductive SenderHeard (cfg : SenderConfig) (x : Sender) (m : Fields) : Reaction Sender → Prop
  | ignored : SenderHeard cfg x m (.ignore x)
  | readyFailed (y : Sender) (exits : Bool) (hx : x.started = false ∧ x.awaitingAck = false)
      (hy : y.started = false ∧ y.awaitingAck = false) : SenderHeard cfg x m ⟨y, [], exits⟩
  | announced (y : Sender) (hx : x.started = false ∧ x.awaitingAck = false)
      (hy : y.started = false ∧ y.awaitingAck = true) :
      SenderHeard cfg x m ⟨y, [cfg.streamStart], false⟩
  | badAck (htype : m.valueStr "type" "" = some "stream-ack") (hx : x.started = false)
      (hwait : x.awaitingAck = true) (hok : m.valueBool "ok" true = none) :
      SenderHeard cfg x m (.ignore { x with awaitingAck := false })
  | refused (htype : m.valueStr "type" "" = some "stream-ack") (hx : x.started = false)
      (hwait : x.awaitingAck = true) :
      SenderHeard cfg x m ⟨{ x with awaitingAck := false }, [], true⟩
  | started (htype : m.valueStr "type" "" = some "stream-ack") (hx : x.started = false)
      (hwait : x.awaitingAck = true) (hok : m.valueBool "ok" true = some true) :
      SenderHeard cfg x m (.ignore { x with awaitingAck := false, started := true })

theorem Sender.onMessage_cases (cfg : SenderConfig) (inetPton : String → Bool) (x : Sender)
    (m : Fields) : SenderHeard cfg x m (x.onMessage cfg inetPton m) := by
  unfold Sender.onMessage
  split
  · exact .ignored
  · next type htype =>
    split
    · unfold Sender.onReady
      split
      · exact .ignored
      · split
        · exact .ignored
        · next hlatch =>
          have hx : x.started = false ∧ x.awaitingAck = false := by simpa using hlatch
          split
          · exact .ignored
          · split
            · exact .readyFailed _ _ hx hx
            · split
              · exact .readyFailed _ _ hx hx
              · simp only []
                split
                · exact .announced _ hx ⟨hx.1, rfl⟩
                · exact .readyFailed _ _ hx hx
    · split
      · next ht =>
        subst ht
        unfold Sender.onAck
        split
        · exact .ignored
        · split
          · exact .ignored
          · next hlatch =>
            have hx : x.started = false ∧ x.awaitingAck = true := by simpa using hlatch
            simp only []
            split
            · next hok => exact .badAck htype hx.1 hx.2 hok
            · exact .refused htype hx.1 hx.2
            · next hok => exact .started htype hx.1 hx.2 hok
      · exact .ignored

theorem SenderHeard.sends {cfg : SenderConfig} {x : Sender} {m : Fields} {r : Reaction Sender}
    (h : SenderHeard cfg x m r) : ∀ m' ∈ r.sends, m' = cfg.streamStart := by
  cases h with
  | announced y hx hy => exact fun m' hm' => List.mem_singleton.mp hm'
  | _ => exact nofun

/-- A sender starts only on an ack that accepts. -/
theorem SenderHeard.state_started {cfg : SenderConfig} {x : Sender} {m : Fields}
    {r : Reaction Sender} (h : SenderHeard cfg x m r) : r.state.started = x.started ∨
      x.started = false ∧ r.state.started = true ∧ m.valueStr "type" "" = some "stream-ack" ∧
        m.valueBool "ok" true = some true := by
  cases h with
  | ignored => exact .inl rfl
  | readyFailed y exits hx hy => exact .inl (hy.1.trans hx.1.symm)
  | announced y hx hy => exact .inl (hy.1.trans hx.1.symm)
  | badAck htype hx hwait hok => exact .inl rfl
  | refused htype hx hwait => exact .inl rfl
  | started htype hx hwait hok => exact .inr ⟨hx, rfl, htype, hok⟩

inductive ReceiverHeard (x : Receiver) (m : Fields) : Reaction Receiver → Prop
  | ignored : ReceiverHeard x m (.ignore x)
  | refused (stream : String) (g : Int32) (hx : x.stream ≠ "") :
      ReceiverHeard x m ⟨x, [refuseAck stream g x.stream], false⟩
  | announced (stream : String) (htype : m.valueStr "type" "" = some "stream-start")
      (hstream : m.valueStr "stream" "" = some stream) (hx : x.stream = "") :
      ReceiverHeard x m (x.announced m stream)

theorem Receiver.onMessage_cases (x : Receiver) (m : Fields) :
    ReceiverHeard x m (x.onMessage m) := by
  unfold Receiver.onMessage
  split
  · exact .ignored
  · next htype =>
    split
    · exact .ignored
    · next stream hstream =>
      split
      · next hx =>
        split
        · split
          · exact .ignored
          · next g _ => exact .refused stream g hx
        · exact .ignored
      · next hx => exact .announced stream (not_not.mp htype) hstream (not_not.mp hx)

theorem Receiver.announced_sends {x : Receiver} {m m' : Fields} {stream : String}
    (h : m' ∈ (x.announced m stream).sends) : ∃ g, m' = acceptAck stream g := by
  unfold Receiver.announced at h
  simp only [] at h
  split at h
  · cases h
  · split at h
    · cases h
    · split at h
      · split at h
        · cases h
        · next g _ => exact ⟨g, List.mem_singleton.mp h⟩
      · cases h

def SenderConfig.latched (cfg : SenderConfig) : Receiver :=
  ⟨cfg.streamId, cfg.ssrc, UInt8.ofInt cfg.pt.toInt⟩

def SenderConfig.handedOver (cfg : SenderConfig) (g : Nat) (host : String) : Fields :=
  ((Fields.set cfg.streamStart "stream" (.str cfg.streamId)).set "sender_host" (.str host)).set
    "generation" (.num g)

namespace SenderConfig

variable (cfg : SenderConfig) (g : Nat) (host : String)

/-- The server overwrites three fields of a stream-start. -/
theorem get?_handedOver {name : String} (hg : name ≠ "generation") (hh : name ≠ "sender_host")
    (hs : name ≠ "stream") :
    Fields.get? (cfg.handedOver g host) name = Fields.get? cfg.streamStart name := by
  rw [handedOver, Fields.get?_set_ne _ _ hg, Fields.get?_set_ne _ _ hh, Fields.get?_set_ne _ _ hs]

theorem stream_handedOver :
    Fields.valueStr (cfg.handedOver g host) "stream" "" = some cfg.streamId := by
  rw [Fields.valueStr, handedOver, Fields.get?_set_ne _ _ (by decide),
    Fields.get?_set_ne _ _ (by decide), Fields.get?_set_self]

theorem generation_handedOver :
    Fields.valueInt (cfg.handedOver g host) "generation" 0 = some (Int32.ofInt g) := by
  rw [Fields.valueInt, handedOver, Fields.get?_set_self]
  exact congrArg (Option.map Int32.ofInt) (Json.toInt?_ofNat g)

theorem int_handedOver {name : String} {j : Json} {i : Int} {default : Int32}
    (hg : name ≠ "generation") (hh : name ≠ "sender_host") (hs : name ≠ "stream")
    (hj : Fields.get? cfg.streamStart name = some j) (hi : j.toInt? = some i) :
    Fields.valueInt (cfg.handedOver g host) name default = some (Int32.ofInt i) := by
  rw [Fields.valueInt, get?_handedOver cfg g host hg hh hs, hj]
  exact congrArg (Option.map Int32.ofInt) hi

theorem ssrc_handedOver :
    Fields.valueUInt32 (cfg.handedOver g host) "ssrc" 0 = some cfg.ssrc := by
  rw [Fields.valueUInt32, get?_handedOver cfg g host (by decide) (by decide) (by decide)]
  show (Json.ofNat cfg.ssrc.toNat).toInt?.map UInt32.ofInt = some cfg.ssrc
  have hmod : ((cfg.ssrc.toNat : Int) % 2 ^ 32).toNat = cfg.ssrc.toNat := by
    have := cfg.ssrc.toNat_lt
    omega
  rw [Json.toInt?_ofNat, Option.map_some, UInt32.ofInt, hmod, UInt32.ofNat_toNat]

theorem pt_handedOver :
    Fields.valueInt (cfg.handedOver g host) "pt" 96 = some cfg.pt := by
  rw [cfg.int_handedOver g host (by decide) (by decide) (by decide) rfl (Json.toInt?_ofInt32 _),
    Int32.ofInt_toInt]

theorem logged_handedOver : Receiver.logged (cfg.handedOver g host) = true := by
  have hint {name : String} {j : Json} {i : Int} (hg : name ≠ "generation")
      (hh : name ≠ "sender_host") (hs : name ≠ "stream")
      (hj : Fields.get? cfg.streamStart name = some j) (hi : j.toInt? = some i) :
      (Fields.valueInt (cfg.handedOver g host) name 0).isSome = true := by
    rw [cfg.int_handedOver g host hg hh hs hj hi]
    rfl
  have hhost : (Fields.valueStr (cfg.handedOver g host) "sender_host" "?").isSome = true := by
    rw [Fields.valueStr, handedOver, Fields.get?_set_ne _ _ (by decide), Fields.get?_set_self]
    rfl
  rw [Receiver.logged, hhost, Bool.and_true, List.all_eq_true]
  intro name hname
  simp only [List.mem_cons, List.not_mem_nil, or_false] at hname
  rcases hname with rfl | rfl | rfl | rfl | rfl | rfl
  · exact hint (by decide) (by decide) (by decide) rfl (Json.toInt?_ofInt32 _)
  · exact hint (by decide) (by decide) (by decide) rfl (Json.toInt?_ofInt32 _)
  · exact hint (by decide) (by decide) (by decide) rfl (Json.toInt?_ofInt32 _)
  · exact hint (by decide) (by decide) (by decide) rfl (Json.toInt?_ofInt32 _)
  · exact hint (by decide) (by decide) (by decide) rfl (Json.toInt?_ofNat _)
  · exact hint (by decide) (by decide) (by decide) rfl (Json.toInt?_ofNat _)

end SenderConfig

theorem Receiver.announced_handedOver (x : Receiver) (cfg : SenderConfig) (g : Nat)
    (host : String) : x.announced (cfg.handedOver g host) cfg.streamId =
      ⟨cfg.latched, [acceptAck cfg.streamId (Int32.ofInt g)], false⟩ := by
  simp only [Receiver.announced, cfg.ssrc_handedOver, cfg.pt_handedOver, cfg.logged_handedOver,
    cfg.generation_handedOver, SenderConfig.latched, if_true]

end Control
end P5G
