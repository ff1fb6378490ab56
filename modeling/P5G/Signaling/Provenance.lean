import P5G.Signaling.System
import P5G.Signaling.Routing

/-!
# What the processes say and the relay repeats

Every offer and every answer that the relay sends goes back to the process that
wrote it, and is sent once for each time that it was written.
-/

namespace P5G
namespace Signaling

open Control (Role Peer Act)

variable {Conn : Type*} {app : Conn → App} {said said' : Conn → List Fields}

def isType (type : String) (m : Fields) : Bool :=
  match m.get? "type" with
  | some (.str t) => t = type
  | _ => false

theorem isType_iff {type : String} {m : Fields} :
    isType type m = true ↔ m.get? "type" = some (.str type) := by
  rw [isType]
  split
  · next t h =>
    rw [h, decide_eq_true_iff]
    exact ⟨fun heq => by rw [heq], fun heq => Json.str.inj (Option.some.inj heq)⟩
  · next h =>
    constructor
    · intro hfalse
      cases hfalse
    · intro heq
      exact absurd heq (h type)

@[simp] theorem isType_senderRegister (type session stream : String) :
    isType type (senderRegister session stream) = decide ("register" = type) := rfl

@[simp] theorem isType_receiverRegister (type session receiver : String) :
    isType type (receiverRegister session receiver) = decide ("register" = type) := rfl

@[simp] theorem isType_offer (type receiver stream sdp : String) :
    isType type (offer receiver stream sdp) = decide ("offer" = type) := rfl

@[simp] theorem isType_answer (type stream sdp : String) :
    isType type (answer stream sdp) = decide ("answer" = type) := rfl

def App.peer : App → Peer
  | .sender cfg => ⟨.str cfg.session, .sender, .str cfg.streamId⟩
  | .receiver cfg => ⟨.str cfg.session, .receiver, .str cfg.receiverId⟩

def App.Says : App → Fields → Prop
  | .sender cfg, m => m = senderRegister cfg.session cfg.streamId ∨
      ∃ sdp, m = offer cfg.receiverId cfg.streamId sdp
  | .receiver cfg, m => m = receiverRegister cfg.session cfg.receiverId ∨
      ∃ stream sdp, m = answer stream sdp

theorem registration_type {m : Fields} {p : Peer} (h : registration (.obj m) = some p) :
    isType "register" m = true := by
  rw [isType_iff]
  by_contra hne
  rw [registration_none hne] at h
  cases h

/-- Only its register message registers a process, and as what it is. -/
theorem App.Says.registered {x : App} {m : Fields} {p : Peer} (h : x.Says m)
    (hr : registration (.obj m) = some p) : x.peer = p := by
  have htype := registration_type hr
  cases x with
  | sender cfg =>
    rcases h with rfl | ⟨sdp, rfl⟩
    · have hp : registration (.obj (senderRegister cfg.session cfg.streamId)) =
          some ⟨.str cfg.session, .sender, .str cfg.streamId⟩ := by
        simp [registration, senderRegister, Fields.get?, Fields.itemKey, Fields.item, List.lookup,
          Control.State.roleOf, Except.bind, Json.key]
      exact Option.some.inj (hp.symm.trans hr)
    · exact absurd htype (by simp)
  | receiver cfg =>
    rcases h with rfl | ⟨stream, sdp, rfl⟩
    · have hp : registration (.obj (receiverRegister cfg.session cfg.receiverId)) =
          some ⟨.str cfg.session, .receiver, .str cfg.receiverId⟩ := by
        simp [registration, receiverRegister, Fields.get?, Fields.itemKey, Fields.item,
          List.lookup, Control.State.roleOf, Except.bind, Json.key]
      exact Option.some.inj (hp.symm.trans hr)
    · exact absurd htype (by simp)

theorem App.Says.offered {x : App} {m : Fields} (h : x.Says m) (htype : isType "offer" m = true) :
    ∃ cfg sdp, x = .sender cfg ∧ m = offer cfg.receiverId cfg.streamId sdp := by
  cases x with
  | sender cfg =>
    rcases h with rfl | ⟨sdp, rfl⟩
    · exact absurd htype (by simp)
    · exact ⟨cfg, sdp, rfl, rfl⟩
  | receiver cfg =>
    rcases h with rfl | ⟨stream, sdp, rfl⟩
    · exact absurd htype (by simp)
    · exact absurd htype (by simp)

theorem App.Says.answers {x : App} {m : Fields} (h : x.Says m)
    (htype : isType "answer" m = true) :
    ∃ cfg stream sdp, x = .receiver cfg ∧ m = answer stream sdp := by
  cases x with
  | sender cfg =>
    rcases h with rfl | ⟨sdp, rfl⟩
    · exact absurd htype (by simp)
    · exact absurd htype (by simp)
  | receiver cfg =>
    rcases h with rfl | ⟨stream, sdp, rfl⟩
    · exact absurd htype (by simp)
    · exact ⟨cfg, stream, sdp, rfl, rfl⟩

def Good (app : Conn → App) (said : Conn → List Fields) (x : Sent Conn) : Prop :=
  match x.out with
  | .ready _ => True
  | .offer stream sdp => ∃ cfg cfg' text, app x.origin = .sender cfg ∧ app x.dest = .receiver cfg' ∧
      cfg'.session = cfg.session ∧ cfg'.receiverId = cfg.receiverId ∧
      stream = .str cfg.streamId ∧ sdp = .str text ∧
      offer cfg.receiverId cfg.streamId text ∈ said x.origin
  | .answer stream rid sdp => ∃ cfg cfg' text,
      app x.origin = .receiver cfg ∧ app x.dest = .sender cfg' ∧ cfg.session = cfg'.session ∧
      rid = .str cfg.receiverId ∧ stream = .str cfg'.streamId ∧ sdp = .str text ∧
      answer cfg'.streamId text ∈ said x.origin

theorem Good.mono {x : Sent Conn} (h : Good app said x)
    (hsaid : ∀ c, ∀ m ∈ said c, m ∈ said' c) : Good app said' x := by
  unfold Good at h ⊢
  split at h
  · trivial
  · obtain ⟨cfg, cfg', text, ho, hd, hs, hr, hstream, hsdp, hmem⟩ := h
    exact ⟨cfg, cfg', text, ho, hd, hs, hr, hstream, hsdp, hsaid _ _ hmem⟩
  · obtain ⟨cfg, cfg', text, ho, hd, hs, hr, hstream, hsdp, hmem⟩ := h
    exact ⟨cfg, cfg', text, ho, hd, hs, hr, hstream, hsdp, hsaid _ _ hmem⟩

/-- The relay knows each process as what it is, and what it has sent is accounted for by what the
processes have said. -/
structure Served (app : Conn → App) (said : Conn → List Fields) (s : State Conn) : Prop where
  peers : ∀ c p, s.peers c = some p → (app c).peer = p
  senders : ∀ n k w, (s.sessions n).senders.get? k = some w → (app w).peer = ⟨n, .sender, k⟩
  receivers : ∀ n k w, (s.sessions n).receivers.get? k = some w →
    (app w).peer = ⟨n, .receiver, k⟩
  sent : ∀ x ∈ s.sent, Good app said x

theorem App.peer_sender {x : App} {n k : Key} (h : x.peer = ⟨n, .sender, k⟩) :
    ∃ cfg, x = .sender cfg ∧ n = .str cfg.session ∧ k = .str cfg.streamId := by
  cases x with
  | sender cfg =>
    cases h
    exact ⟨cfg, rfl, rfl, rfl⟩
  | receiver cfg => cases h

theorem App.peer_receiver {x : App} {n k : Key} (h : x.peer = ⟨n, .receiver, k⟩) :
    ∃ cfg, x = .receiver cfg ∧ n = .str cfg.session ∧ k = .str cfg.receiverId := by
  cases x with
  | sender cfg => cases h
  | receiver cfg =>
    cases h
    exact ⟨cfg, rfl, rfl, rfl⟩

namespace Served

variable [DecidableEq Conn] {s s' : State Conn}

omit [DecidableEq Conn] in
theorem mono (h : Served app said s) (hsaid : ∀ c, ∀ m ∈ said c, m ∈ said' c) :
    Served app said' s :=
  ⟨h.peers, h.senders, h.receivers, fun x hx => (h.sent x hx).mono hsaid⟩

omit [DecidableEq Conn] in
/-- A message of the relay is accounted for when it is sent. -/
theorem good_of_sends (h : Served app said s) (hsay : ∀ c, ∀ m ∈ said c, (app c).Says m)
    {a : Act Conn} (ha : ∀ c msg, a = .line c msg → ∃ m ∈ said c, msg = .obj m) {x : Sent Conn}
    (hx : Sends s a x) : Good app said x := by
  cases hx with
  | ready => trivial
  | offer c w fields peer rid sdp htype hpeer hto hw hsdp =>
    obtain ⟨m, hm, heq⟩ := ha c _ rfl
    cases heq
    obtain ⟨cfg, text, happ, rfl⟩ := (hsay c _ hm).offered (isType_iff.mpr htype)
    have hp := h.peers c peer hpeer
    rw [happ] at hp
    subst hp
    cases hto
    cases hsdp
    obtain ⟨cfg', happ', hsession, hrid⟩ := App.peer_receiver (h.receivers _ _ _ hw)
    exact ⟨cfg, cfg', text, happ, happ', (Key.str.inj hsession).symm, (Key.str.inj hrid).symm, rfl,
      rfl, hm⟩
  | answer c w fields peer stream sdp htype hpeer hstream hw hsdp =>
    obtain ⟨m, hm, heq⟩ := ha c _ rfl
    cases heq
    obtain ⟨cfg, id, text, happ, rfl⟩ := (hsay c _ hm).answers (isType_iff.mpr htype)
    have hp := h.peers c peer hpeer
    rw [happ] at hp
    subst hp
    cases hstream
    cases hsdp
    obtain ⟨cfg', happ', hsession, hid⟩ := App.peer_sender (h.senders _ _ _ hw)
    obtain rfl := Key.str.inj hid
    exact ⟨cfg, cfg', text, happ, happ', Key.str.inj hsession, rfl, rfl, rfl, hm⟩

theorem step (h : Served app said s) (hsay : ∀ c, ∀ m ∈ said c, (app c).Says m) {a : Act Conn}
    (ha : ∀ c msg, a = .line c msg → ∃ m ∈ said c, msg = .obj m) (hstep : s.step a = some s') :
    Served app said s' := by
  have hf := step_follows hstep
  have hreg : ∀ c p msg, a = .line c msg → registration msg = some p → (app c).peer = p := by
    intro c p msg heq hr
    obtain ⟨m, hm, rfl⟩ := ha c msg heq
    exact (hsay c m hm).registered hr
  refine ⟨fun c p hp => ?_, fun n k w hw => ?_, fun n k w hw => ?_, fun x hx => ?_⟩
  · rcases hf.peers c p hp with hold | ⟨msg, heq, hr⟩
    · exact h.peers c p hold
    · exact hreg c p msg heq hr
  · rcases hf.senders n k w hw with hold | ⟨msg, heq, hr⟩
    · exact h.senders n k w hold
    · exact hreg w _ msg heq hr
  · rcases hf.receivers n k w hw with hold | ⟨msg, heq, hr⟩
    · exact h.receivers n k w hold
    · exact hreg w _ msg heq hr
  · rcases hf.sent with hsame | ⟨y, hy, hsends⟩
    · rw [hsame] at hx
      exact h.sent x hx
    · rw [hy] at hx
      rcases List.mem_append.mp hx with hx | hx
      · exact h.sent x hx
      · rw [List.mem_singleton.mp hx]
        exact h.good_of_sends hsay ha hsends

end Served

/-- What occurs once at most is one thing. -/
theorem eq_of_countP_le_one {α : Type*} {l : List α} {P : α → Bool} (h : l.countP P ≤ 1) {x y : α}
    (hx : x ∈ l) (hy : y ∈ l) (hPx : P x = true) (hPy : P y = true) : x = y := by
  rw [List.countP_eq_length_filter] at h
  have hx := List.mem_filter.mpr ⟨hx, hPx⟩
  have hy := List.mem_filter.mpr ⟨hy, hPy⟩
  match hfilter : l.filter P with
  | [] =>
    rw [hfilter] at hx
    cases hx
  | [z] =>
    rw [hfilter] at hx hy
    rw [List.mem_singleton.mp hx, List.mem_singleton.mp hy]
  | _ :: _ :: _ =>
    rw [hfilter] at h
    exact absurd h (by simp)

def Out.type : Out → String
  | .ready _ => "receiver-ready"
  | .offer _ _ => "offer"
  | .answer _ _ _ => "answer"

theorem Out.offer_of_atStr {o : Out} {m : Fields} {stream sdp : String} (hm : o.toJson = .obj m)
    (htype : m.valueStr "type" "" = some "offer") (hstream : m.atStr "stream" = some stream)
    (hsdp : m.atStr "sdp" = some sdp) : o = .offer (.str stream) (.str sdp) := by
  cases o with
  | ready rid =>
    cases hm
    exact absurd htype (by simp [Fields.valueStr, Fields.get?, List.lookup])
  | offer k j =>
    cases hm
    have hk : k = .str stream := by
      cases k with
      | str s => simpa [Fields.atStr, Fields.get?, List.lookup, Key.toJson] using hstream
      | _ => cases hstream
    have hj : j = .str sdp := by
      cases j with
      | str s => simpa [Fields.atStr, Fields.get?, List.lookup] using hsdp
      | _ => cases hsdp
    rw [hk, hj]
  | answer k rid j =>
    cases hm
    exact absurd htype (by simp [Fields.valueStr, Fields.get?, List.lookup])

theorem Out.answer_of_atStr {o : Out} {m : Fields} {rid sdp : String} (hm : o.toJson = .obj m)
    (htype : m.valueStr "type" "" = some "answer") (hrid : m.atStr "receiver" = some rid)
    (hsdp : m.atStr "sdp" = some sdp) : ∃ stream, o = .answer stream (.str rid) (.str sdp) := by
  cases o with
  | ready k =>
    cases hm
    exact absurd htype (by simp [Fields.valueStr, Fields.get?, List.lookup])
  | offer k j =>
    cases hm
    exact absurd htype (by simp [Fields.valueStr, Fields.get?, List.lookup])
  | answer stream k j =>
    cases hm
    have hk : k = .str rid := by
      cases k with
      | str s => simpa [Fields.atStr, Fields.get?, List.lookup, Key.toJson] using hrid
      | _ => cases hrid
    have hj : j = .str sdp := by
      cases j with
      | str s => simpa [Fields.atStr, Fields.get?, List.lookup] using hsdp
      | _ => cases hsdp
    exact ⟨stream, by rw [hk, hj]⟩

section

variable [DecidableEq Conn] {s s' : State Conn} {a : Act Conn} {x : Sent Conn}

def relays (c : Conn) (type : String) (x : Sent Conn) : Bool := x.origin = c && x.out.type = type

omit [DecidableEq Conn] in
theorem Sends.isType (h : Sends s a x) {type : String} (htype : x.out.type = type)
    (hne : type ≠ "receiver-ready") :
    ∃ fields, a = .line x.origin (.obj fields) ∧ isType type fields = true := by
  subst htype
  cases h with
  | ready => exact absurd rfl hne
  | offer c w fields peer rid sdp ht => exact ⟨fields, rfl, isType_iff.mpr ht⟩
  | answer c w fields peer stream sdp ht => exact ⟨fields, rfl, isType_iff.mpr ht⟩

/-- A step relays an offer or an answer only where it reads one. -/
theorem countP_relays_step (h : s.step a = some s') {type : String}
    (hne : type ≠ "receiver-ready") (c : Conn) :
    s'.sent.countP (relays c type) = s.sent.countP (relays c type) ∨
      s'.sent.countP (relays c type) = s.sent.countP (relays c type) + 1 ∧
        ∃ fields, a = .line c (.obj fields) ∧ isType type fields = true := by
  rcases (step_follows h).sent with hsame | ⟨x, hx, hsends⟩
  · exact .inl (by rw [hsame])
  · rw [hx, List.countP_append, List.countP_singleton]
    cases hrelays : relays c type x with
    | false => exact .inl (by simp)
    | true =>
      obtain ⟨horigin, htype⟩ := Bool.and_eq_true_iff.mp hrelays
      obtain ⟨fields, ha, hfields⟩ := hsends.isType (of_decide_eq_true htype) hne
      rw [of_decide_eq_true horigin] at ha
      exact .inr ⟨by simp, fields, ha, hfields⟩

end

end Signaling
end P5G
