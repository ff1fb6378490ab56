import P5G.Signaling.Provenance

/-!
# The peers of a process

`peers_` of a sender and of a receiver: whom they hold, what they have said
about it, and which descriptions they have given to libwebrtc.
-/

namespace P5G
namespace Signaling

open Control (Reaction)

variable {Conn : Type*}

/-- What a message or the end of the gathering makes of a sender. -/
inductive SenderActs (cfg : SenderConfig) (x : Sender) (m : Fields) : Reaction Sender → Prop
  | ignored : SenderActs cfg x m (.ignore x)
  | failed : SenderActs cfg x m ⟨x, [], true⟩
  | connected (hfree : x.peers.get? cfg.receiverId = none) :
      SenderActs cfg x m (.ignore ⟨x.peers.set cfg.receiverId ⟨false, []⟩⟩)
  | unparsed (rid : String) (p : SenderPeer) (hp : x.peers.get? rid = some p) :
      SenderActs cfg x m (.ignore ⟨x.peers.set rid p⟩)
  | answered (rid sdp : String) (p : SenderPeer) (hp : x.peers.get? rid = some p)
      (htype : m.valueStr "type" "" = some "answer") (hrid : m.atStr "receiver" = some rid)
      (hsdp : m.atStr "sdp" = some sdp) :
      SenderActs cfg x m (.ignore ⟨x.peers.set rid { p with answers := p.answers ++ [sdp] }⟩)

theorem Sender.onMessage_cases (cfg : SenderConfig) (x : Sender) (rtc : Bool) (m : Fields) :
    SenderActs cfg x m (x.onMessage cfg rtc m) := by
  unfold Sender.onMessage
  split
  · exact .ignored
  · next type htype =>
    split
    · split
      · exact .ignored
      · next rid hrid =>
        split
        · exact .ignored
        · next hne =>
          have hrid : rid = cfg.receiverId := not_not.mp hne
          subst hrid
          unfold Sender.connect
          split
          · exact .ignored
          · next hnone =>
            split
            · exact .connected (Option.not_isSome_iff_eq_none.mp hnone)
            · exact .failed
    · split
      · next ht =>
        subst ht
        split
        · exact .ignored
        · next rid hrid =>
          split
          · exact .ignored
          · next p hp =>
            split
            · exact .ignored
            · next sdp hsdp =>
              cases rtc with
              | false => exact .unparsed rid p hp
              | true => exact .answered rid sdp p hp htype hrid hsdp
      · exact .ignored

inductive SenderGathers (cfg : SenderConfig) (x : Sender) : Reaction Sender → Prop
  | ignored : SenderGathers cfg x (.ignore x)
  | failed (rid : String) (p : SenderPeer) (hp : x.peers.get? rid = some p) :
      SenderGathers cfg x ⟨⟨x.peers.set rid { p with offerSent := true }⟩, [], true⟩
  | offers (rid sdp : String) (p : SenderPeer) (hp : x.peers.get? rid = some p)
      (hsent : p.offerSent = false) :
      SenderGathers cfg x
        ⟨⟨x.peers.set rid { p with offerSent := true }⟩, [offer rid cfg.streamId sdp], false⟩

theorem Sender.onGathered_cases (cfg : SenderConfig) (x : Sender) (rid : String)
    (sdp : Option String) : SenderGathers cfg x (x.onGathered cfg rid sdp) := by
  unfold Sender.onGathered
  split
  · exact .ignored
  · next p hp =>
    split
    · exact .ignored
    · next hsent =>
      cases sdp with
      | none => exact .failed rid p hp
      | some sdp => exact .offers rid sdp p hp (eq_false_of_ne_true hsent)

/-- A sender has one peer at most, has offered to it once at most, and has given it only answers
that it has heard, each of them once. -/
structure SenderInv (cfg : SenderConfig) (x : Sender) (said : List Fields)
    (heard : List (Sent Conn)) : Prop where
  peers : x.peers.entries = [] ∨ ∃ p, x.peers.entries = [(cfg.receiverId, p)]
  offers : said.countP (isType "offer") ≤ x.peers.entries.countP fun e => e.2.offerSent
  answers : ∀ k p, x.peers.get? k = some p →
    (∀ sdp ∈ p.answers, ∃ y ∈ heard, ∃ stream, y.out = .answer stream (.str k) (.str sdp)) ∧
      p.answers.length ≤ heard.countP fun y => y.out.type = "answer"

namespace SenderInv

variable {cfg : SenderConfig} {x : Sender} {saidBy : List Fields} {heard heard' : List (Sent Conn)}
  {k : String} {p q : SenderPeer}

theorem single (h : SenderInv cfg x saidBy heard) (hp : x.peers.get? k = some p) :
    k = cfg.receiverId ∧ x.peers.entries = [(k, p)] := by
  rw [Dict.get?_eq_some_iff] at hp
  rcases h.peers with hnil | ⟨q, hq⟩
  · rw [hnil] at hp
    cases hp
  · rw [hq] at hp
    cases List.mem_singleton.mp hp
    exact ⟨rfl, hq⟩

theorem mono (h : SenderInv cfg x saidBy heard) (hheard : heard <+: heard') :
    SenderInv cfg x saidBy heard' := by
  refine ⟨h.peers, h.offers, fun k p hp => ?_⟩
  obtain ⟨hfrom, hlength⟩ := h.answers k p hp
  refine ⟨fun sdp hsdp => ?_, hlength.trans hheard.sublist.countP_le⟩
  obtain ⟨y, hy, hout⟩ := hfrom sdp hsdp
  exact ⟨y, hheard.subset hy, hout⟩

/-- The peer changes, and no more is said than it admits. -/
theorem update {saidBy' : List Fields} (h : SenderInv cfg x saidBy heard)
    (hp : x.peers.get? k = some p)
    (hsaid : saidBy'.countP (isType "offer") ≤ if q.offerSent then 1 else 0)
    (hfrom : ∀ sdp ∈ q.answers, ∃ y ∈ heard, ∃ stream, y.out = .answer stream (.str k) (.str sdp))
    (hlength : q.answers.length ≤ heard.countP fun y => y.out.type = "answer") :
    SenderInv cfg ⟨x.peers.set k q⟩ saidBy' heard := by
  obtain ⟨rfl, hentries⟩ := h.single hp
  have hset : (x.peers.set cfg.receiverId q).entries = [(cfg.receiverId, q)] :=
    Dict.entries_set_single hentries
  refine ⟨.inr ⟨q, hset⟩, ?_, fun k' p' hp' => ?_⟩
  · show _ ≤ (x.peers.set cfg.receiverId q).entries.countP _
    rw [hset, List.countP_singleton]
    exact hsaid
  · rw [Dict.get?_eq_some_iff, hset] at hp'
    cases List.mem_singleton.mp hp'
    exact ⟨hfrom, hlength⟩

theorem offers_le (h : SenderInv cfg x saidBy heard) (hp : x.peers.get? k = some p) :
    saidBy.countP (isType "offer") ≤ if p.offerSent then 1 else 0 := by
  have hle := h.offers
  rwa [(h.single hp).2, List.countP_singleton] at hle

theorem acts {m : Fields} {r : Reaction Sender} {y : Sent Conn} (h : SenderInv cfg x saidBy heard)
    (hm : y.out.toJson = .obj m) (hr : SenderActs cfg x m r) :
    r.sends = [] ∧ SenderInv cfg r.state saidBy (heard ++ [y]) := by
  have hgrown := h.mono (List.prefix_append heard [y])
  cases hr with
  | ignored => exact ⟨rfl, hgrown⟩
  | failed => exact ⟨rfl, hgrown⟩
  | connected hfree =>
    have hnil : x.peers.entries = [] := by
      rcases h.peers with hnil | ⟨q, hq⟩
      · exact hnil
      · rw [Dict.get?_eq_none_iff, hq] at hfree
        exact absurd (List.mem_singleton.mpr rfl) hfree
    have hset : (x.peers.set cfg.receiverId (⟨false, []⟩ : SenderPeer)).entries =
        [(cfg.receiverId, ⟨false, []⟩)] := Dict.entries_set_nil hnil
    refine ⟨rfl, .inr ⟨_, hset⟩, ?_, fun k p hp => ?_⟩
    · have hle := h.offers
      rw [hnil] at hle
      exact hle.trans (Nat.zero_le _)
    · rw [Dict.get?_eq_some_iff] at hp
      have hp : (k, p) ∈ (x.peers.set cfg.receiverId (⟨false, []⟩ : SenderPeer)).entries := hp
      rw [hset] at hp
      cases List.mem_singleton.mp hp
      exact ⟨fun sdp hsdp => (nomatch hsdp), Nat.zero_le _⟩
  | unparsed rid p hp =>
    obtain ⟨hfrom, hlength⟩ := hgrown.answers rid p hp
    exact ⟨rfl, hgrown.update hp (h.offers_le hp) hfrom hlength⟩
  | answered rid sdp p hp htype hrid hsdp =>
    obtain ⟨stream, hout⟩ := Out.answer_of_atStr hm htype hrid hsdp
    have hle := h.offers_le hp
    refine ⟨rfl, hgrown.update hp hle (fun sdp' hsdp' => ?_) ?_⟩
    · rcases List.mem_append.mp hsdp' with hold | hnew
      · exact (hgrown.answers rid p hp).1 sdp' hold
      · rw [List.mem_singleton.mp hnew]
        exact ⟨y, List.mem_append_right _ (List.mem_singleton.mpr rfl), stream, hout⟩
    · have hlength := (h.answers rid p hp).2
      have htypeOf : y.out.type = "answer" := by rw [hout]; rfl
      rw [List.length_append, List.countP_append, List.countP_singleton, htypeOf]
      simp only [decide_true, if_true, List.length_singleton]
      omega

theorem gathers {r : Reaction Sender} (h : SenderInv cfg x saidBy heard)
    (hr : SenderGathers cfg x r) :
    (∀ m ∈ r.sends, ∃ sdp, m = offer cfg.receiverId cfg.streamId sdp) ∧
      SenderInv cfg r.state (saidBy ++ r.sends) heard := by
  cases hr with
  | ignored => exact ⟨fun m hm => (nomatch hm), by simpa [Reaction.ignore] using h⟩
  | failed rid p hp =>
    obtain ⟨hfrom, hlength⟩ := h.answers rid p hp
    refine ⟨fun m hm => (nomatch hm), h.update hp ?_ hfrom hlength⟩
    have hle := h.offers_le hp
    rw [List.append_nil, if_pos rfl]
    exact hle.trans (by split <;> omega)
  | offers rid sdp p hp hsent =>
    obtain ⟨rfl, -⟩ := h.single hp
    obtain ⟨hfrom, hlength⟩ := h.answers _ p hp
    refine ⟨fun m hm => ⟨sdp, List.mem_singleton.mp hm⟩, h.update hp ?_ hfrom hlength⟩
    have hle := h.offers_le hp
    rw [hsent] at hle
    rw [List.countP_append, List.countP_singleton, isType_offer, if_pos rfl]
    simp only [decide_true, if_true]
    simpa using hle

theorem say {msgs : List Fields} (h : SenderInv cfg x saidBy heard)
    (hmsgs : msgs.countP (isType "offer") = 0) : SenderInv cfg x (saidBy ++ msgs) heard := by
  refine ⟨h.peers, ?_, h.answers⟩
  rw [List.countP_append, hmsgs]
  exact h.offers

end SenderInv

inductive ReceiverActs (x : Receiver) (m : Fields) : Reaction Receiver → Prop
  | ignored : ReceiverActs x m (.ignore x)
  | failed : ReceiverActs x m ⟨x, [], true⟩
  | accepted (stream sdp : String) (hfree : x.peers.entries = [])
      (htype : m.valueStr "type" "" = some "offer") (hstream : m.atStr "stream" = some stream)
      (hsdp : m.atStr "sdp" = some sdp) :
      ReceiverActs x m (.ignore ⟨x.peers.set stream ⟨false, sdp⟩⟩)

theorem Receiver.onMessage_cases (x : Receiver) (rtc : Bool) (m : Fields) :
    ReceiverActs x m (x.onMessage rtc m) := by
  unfold Receiver.onMessage
  split
  · exact .ignored
  · next htype =>
    split
    · next stream sdp hstream hsdp =>
      split
      · exact .ignored
      · split
        · exact .ignored
        · next hsize =>
          split
          · have hfree : x.peers.entries = [] := List.length_eq_zero_iff.mp (not_not.mp hsize)
            exact .accepted stream sdp hfree (not_not.mp htype) hstream hsdp
          · exact .failed
    · exact .ignored

inductive ReceiverGathers (x : Receiver) : Reaction Receiver → Prop
  | ignored : ReceiverGathers x (.ignore x)
  | failed (stream : String) (p : ReceiverPeer) (hp : x.peers.get? stream = some p) :
      ReceiverGathers x ⟨⟨x.peers.set stream { p with answerSent := true }⟩, [], true⟩
  | answers (stream sdp : String) (p : ReceiverPeer) (hp : x.peers.get? stream = some p)
      (hsent : p.answerSent = false) :
      ReceiverGathers x
        ⟨⟨x.peers.set stream { p with answerSent := true }⟩, [answer stream sdp], false⟩

theorem Receiver.onGathered_cases (x : Receiver) (stream : String) (sdp : Option String) :
    ReceiverGathers x (x.onGathered stream sdp) := by
  unfold Receiver.onGathered
  split
  · exact .ignored
  · next p hp =>
    split
    · exact .ignored
    · next hsent =>
      cases sdp with
      | none => exact .failed stream p hp
      | some sdp => exact .answers stream sdp p hp (eq_false_of_ne_true hsent)

/-- A receiver has one peer at most, with an offer that it was sent, and has answered that once at
most and nothing else. -/
structure ReceiverInv (x : Receiver) (said : List Fields) (inbox : List (Sent Conn)) : Prop where
  peers : x.peers.entries = [] ∨ ∃ e, x.peers.entries = [e]
  answers : said.countP (isType "answer") ≤ x.peers.entries.countP fun e => e.2.answerSent
  answered : ∀ stream sdp, answer stream sdp ∈ said → ∃ p, x.peers.get? stream = some p
  offers : ∀ k p, x.peers.get? k = some p →
    ∃ y ∈ inbox, y.out = .offer (.str k) (.str p.offer)

namespace ReceiverInv

variable {x : Receiver} {saidBy : List Fields} {inbox inbox' : List (Sent Conn)} {k : String}
  {p : ReceiverPeer}

theorem single (h : ReceiverInv x saidBy inbox) (hp : x.peers.get? k = some p) :
    x.peers.entries = [(k, p)] := by
  rw [Dict.get?_eq_some_iff] at hp
  rcases h.peers with hnil | ⟨e, he⟩
  · rw [hnil] at hp
    cases hp
  · rw [he] at hp
    rw [he, List.mem_singleton.mp hp]

theorem mono (h : ReceiverInv x saidBy inbox) (hinbox : ∀ y ∈ inbox, y ∈ inbox') :
    ReceiverInv x saidBy inbox' := by
  refine ⟨h.peers, h.answers, h.answered, fun k p hp => ?_⟩
  obtain ⟨y, hy, hout⟩ := h.offers k p hp
  exact ⟨y, hinbox y hy, hout⟩

theorem answers_le (h : ReceiverInv x saidBy inbox) (hp : x.peers.get? k = some p) :
    saidBy.countP (isType "answer") ≤ if p.answerSent then 1 else 0 := by
  have hle := h.answers
  rwa [h.single hp, List.countP_singleton] at hle

/-- The flag is set, and what is said answers the peer's offer. -/
theorem answer_peer {saidBy' : List Fields} (h : ReceiverInv x saidBy inbox)
    (hp : x.peers.get? k = some p) (hcount : saidBy'.countP (isType "answer") ≤ 1)
    (hsaid : ∀ stream sdp, answer stream sdp ∈ saidBy' → answer stream sdp ∈ saidBy ∨ stream = k) :
    ReceiverInv ⟨x.peers.set k { p with answerSent := true }⟩ saidBy' inbox := by
  have hset : (x.peers.set k { p with answerSent := true }).entries =
      [(k, { p with answerSent := true })] := Dict.entries_set_single (h.single hp)
  refine ⟨.inr ⟨_, hset⟩, ?_, fun stream sdp hmem => ?_, fun k' p' hp' => ?_⟩
  · show _ ≤ (x.peers.set k { p with answerSent := true }).entries.countP _
    rw [hset, List.countP_singleton]
    exact hcount
  · refine ⟨{ p with answerSent := true }, ?_⟩
    rcases hsaid stream sdp hmem with hold | rfl
    · obtain ⟨q, hq⟩ := h.answered stream sdp hold
      have hsingle := h.single hq
      rw [h.single hp] at hsingle
      cases hsingle
      exact Dict.get?_set_self
    · exact Dict.get?_set_self
  · rw [Dict.get?_eq_some_iff, hset] at hp'
    cases List.mem_singleton.mp hp'
    exact h.offers k p hp

theorem acts {m : Fields} {r : Reaction Receiver} {y : Sent Conn}
    (h : ReceiverInv x saidBy inbox) (hy : y ∈ inbox) (hm : y.out.toJson = .obj m)
    (hr : ReceiverActs x m r) : r.sends = [] ∧ ReceiverInv r.state saidBy inbox := by
  cases hr with
  | ignored => exact ⟨rfl, h⟩
  | failed => exact ⟨rfl, h⟩
  | accepted stream sdp hfree htype hstream hsdp =>
    have hset : (x.peers.set stream (⟨false, sdp⟩ : ReceiverPeer)).entries =
        [(stream, ⟨false, sdp⟩)] := Dict.entries_set_nil hfree
    have hnone : saidBy.countP (isType "answer") = 0 := by
      have hle := h.answers
      rw [hfree] at hle
      exact Nat.le_zero.mp hle
    refine ⟨rfl, .inr ⟨_, hset⟩, hnone.le.trans (Nat.zero_le _), fun s d hmem => ?_,
      fun k p hp => ?_⟩
    · exact absurd (isType_answer "answer" s d) (List.countP_eq_zero.mp hnone _ hmem)
    · rw [Dict.get?_eq_some_iff] at hp
      have hp : (k, p) ∈ (x.peers.set stream (⟨false, sdp⟩ : ReceiverPeer)).entries := hp
      rw [hset] at hp
      cases List.mem_singleton.mp hp
      exact ⟨y, hy, Out.offer_of_atStr hm htype hstream hsdp⟩

theorem gathers {r : Reaction Receiver} (h : ReceiverInv x saidBy inbox)
    (hr : ReceiverGathers x r) :
    (∀ m ∈ r.sends, ∃ stream sdp, m = answer stream sdp) ∧
      ReceiverInv r.state (saidBy ++ r.sends) inbox := by
  cases hr with
  | ignored => exact ⟨fun m hm => (nomatch hm), by simpa [Reaction.ignore] using h⟩
  | failed stream p hp =>
    have hle := h.answers_le hp
    rw [List.append_nil]
    exact ⟨fun m hm => (nomatch hm),
      h.answer_peer hp (hle.trans (by split <;> omega)) fun _ _ hmem => .inl hmem⟩
  | answers stream sdp p hp hsent =>
    have hle := h.answers_le hp
    rw [hsent] at hle
    refine ⟨fun m hm => ⟨stream, sdp, List.mem_singleton.mp hm⟩, h.answer_peer hp ?_ ?_⟩
    · rw [List.countP_append, List.countP_singleton, isType_answer]
      simpa using hle
    · intro s d hmem
      rcases List.mem_append.mp hmem with hold | hnew
      · exact .inl hold
      · right
        have heq := List.mem_singleton.mp hnew
        simp only [answer, List.cons.injEq, Prod.mk.injEq, Json.str.injEq, true_and,
          and_true] at heq
        exact heq.1

theorem say {msgs : List Fields} (h : ReceiverInv x saidBy inbox)
    (hmsgs : msgs.countP (isType "answer") = 0) : ReceiverInv x (saidBy ++ msgs) inbox := by
  refine ⟨h.peers, ?_, fun stream sdp hmem => ?_, h.offers⟩
  · rw [List.countP_append, hmsgs]
    exact h.answers
  · rcases List.mem_append.mp hmem with hold | hnew
    · exact h.answered stream sdp hold
    · exact absurd (isType_answer "answer" stream sdp) (List.countP_eq_zero.mp hmsgs _ hnew)

end ReceiverInv

end Signaling
end P5G
