import Mathlib
import P5G.Machine
import P5G.Rtcp.Compound

/-!
# Where the receiver's RTCP reports go

Two threads of the gstreamer receiver set the destination of its RTCP sink.  `OnMessage`,
on the control thread, takes the stream-start's host and port as a first guess; `OnRtcpIn`,
on the streaming thread, takes the endpoint that the sender's RTCP comes from.  The SSRC
that `OnRtcpIn` waits for is published before the guess is set, and `g_object_set` sets
the host and the port one after the other, so the two may come in any order.
-/

namespace P5G
namespace Gst
namespace RtcpPeer

open Rtcp (isValidRtcpCompoundFrom)

/-- The source address of a buffer, in network order, and its port. -/
structure Endpoint where
  a : UInt8
  b : UInt8
  c : UInt8
  d : UInt8
  port : UInt16
  deriving DecidableEq

/-- `id`, the bytes of the address read as the little-endian word they are copied to. -/
def Endpoint.id (e : Endpoint) : UInt64 :=
  UInt64.ofNat
    ((e.a.toNat + 2 ^ 8 * e.b.toNat + 2 ^ 16 * e.c.toNat + 2 ^ 24 * e.d.toNat) * 2 ^ 16 +
      e.port.toNat)

/-- `g_inet_address_to_string` -/
def Endpoint.host (e : Endpoint) : String :=
  toString e.a ++ "." ++ toString e.b ++ "." ++ toString e.c ++ "." ++ toString e.d

theorem Endpoint.id_injective {e f : Endpoint} (h : e.id = f.id) : e = f := by
  have hbound (x : Endpoint) : (x.a.toNat + 2 ^ 8 * x.b.toNat + 2 ^ 16 * x.c.toNat +
      2 ^ 24 * x.d.toNat) * 2 ^ 16 + x.port.toNat < 2 ^ 64 := by
    have := x.a.toNat_lt
    have := x.b.toNat_lt
    have := x.c.toNat_lt
    have := x.d.toNat_lt
    have := x.port.toNat_lt
    omega
  have hnat := congrArg UInt64.toNat h
  rw [id, id, UInt64.toNat_ofNat_of_lt' (hbound e), UInt64.toNat_ofNat_of_lt' (hbound f)] at hnat
  obtain ⟨a, b, c, d, port⟩ := e
  obtain ⟨a', b', c', d', port'⟩ := f
  have := a.toNat_lt
  have := b.toNat_lt
  have := c.toNat_lt
  have := d.toNat_lt
  have := port.toNat_lt
  have := a'.toNat_lt
  have := b'.toNat_lt
  have := c'.toNat_lt
  have := d'.toNat_lt
  have := port'.toNat_lt
  rw [Endpoint.mk.injEq]
  refine ⟨UInt8.toNat_inj.mp ?_, UInt8.toNat_inj.mp ?_, UInt8.toNat_inj.mp ?_,
    UInt8.toNat_inj.mp ?_, UInt16.toNat_inj.mp ?_⟩ <;>
  · simp only at hnat
    omega

/-- The fields of a stream-start that decide where reports go, absent ones at their
defaults. -/
structure StreamStart where
  stream : String
  ssrc : UInt32
  senderHost : String
  rtcpPortLocal : Int
  deriving DecidableEq

/-- The `host` and `port` properties of the RTCP sink. -/
structure Destination where
  host : String
  port : Int
  deriving DecidableEq

inductive Setting (α : Type) where
  | idle
  | setHost (x : α)
  | setPort (x : α)
  deriving DecidableEq

/-- A valid compound packet of the announced SSRC, with where it came from. -/
structure Heard where
  source : Endpoint
  want : UInt32
  buffer : List UInt8

/-- The members that the two threads share.  `announced`, `heard` and `overtaken`, whether
the control thread has set a property since an endpoint was learned, are not in the source. -/
structure State where
  stream : String
  ssrc : UInt32
  peerId : UInt64
  sink : Destination
  control : Setting StreamStart
  rtcp : Setting Endpoint
  announced : List StreamStart
  heard : List Heard
  overtaken : Bool

inductive Act where
  | message (m : StreamStart)
  | buffer (d : List UInt8) (source : Option Endpoint)
  | controlSet
  | rtcpSet

variable (controlHost : String)

def init : State := ⟨"", 0, 0, ⟨controlHost, 5005⟩, .idle, .idle, [], [], false⟩

/-- `OnMessage`, up to where it sets the sink.  The trace files are left out. -/
def onMessage (s : State) (m : StreamStart) : State :=
  if s.stream ≠ "" then s
  else
    { s with
      stream := m.stream
      ssrc := m.ssrc
      announced := s.announced ++ [m]
      control := if 0 < m.rtcpPortLocal then .setHost m else .idle }

/-- `OnRtcpIn`, up to where it sets the sink. -/
def onRtcpIn (s : State) (d : List UInt8) : Option Endpoint → State
  | none => s
  | some e =>
    if s.ssrc = 0 ∨ isValidRtcpCompoundFrom d s.ssrc ≠ some true then s
    else if s.peerId = e.id then { s with heard := s.heard ++ [⟨e, s.ssrc, d⟩] }
    else
      { s with
        heard := s.heard ++ [⟨e, s.ssrc, d⟩]
        peerId := e.id
        rtcp := .setHost e
        overtaken := false }

def step (s : State) : Act → Option State
  | .message m => if s.control = .idle then some (onMessage s m) else none
  | .buffer d source => if s.rtcp = .idle then some (onRtcpIn s d source) else none
  | .controlSet =>
    match s.control with
    | .idle => none
    | .setHost m =>
      some { s with
        sink := { s.sink with host := m.senderHost }
        control := .setPort m
        overtaken := s.overtaken || !s.heard.isEmpty }
    | .setPort m =>
      some { s with
        sink := { s.sink with port := m.rtcpPortLocal }
        control := .idle
        overtaken := s.overtaken || !s.heard.isEmpty }
  | .rtcpSet =>
    match s.rtcp with
    | .idle => none
    | .setHost e =>
      some { s with sink := { s.sink with host := e.host }, rtcp := .setPort e }
    | .setPort e =>
      some { s with sink := { s.sink with port := e.port.toNat }, rtcp := .idle }

def machine : Machine State Act := ⟨init controlHost, step⟩

/-! ## What a step can do -/

inductive Moves (s : State) : Act → State → Prop
  | ignored {m : StreamStart} : Moves s (.message m) s
  | announce {m : StreamStart} : s.stream = "" → s.control = .idle →
      Moves s (.message m)
        { s with
          stream := m.stream
          ssrc := m.ssrc
          announced := s.announced ++ [m]
          control := if 0 < m.rtcpPortLocal then .setHost m else .idle }
  | pass {d : List UInt8} {source : Option Endpoint} :
      (∀ e, source = some e → s.ssrc = 0 ∨ isValidRtcpCompoundFrom d s.ssrc ≠ some true) →
      Moves s (.buffer d source) s
  | known {d : List UInt8} {e : Endpoint} : s.rtcp = .idle → s.ssrc ≠ 0 →
      isValidRtcpCompoundFrom d s.ssrc = some true → s.peerId = e.id →
      Moves s (.buffer d (some e)) { s with heard := s.heard ++ [⟨e, s.ssrc, d⟩] }
  | learn {d : List UInt8} {e : Endpoint} : s.rtcp = .idle → s.ssrc ≠ 0 →
      isValidRtcpCompoundFrom d s.ssrc = some true → s.peerId ≠ e.id →
      Moves s (.buffer d (some e))
        { s with
          heard := s.heard ++ [⟨e, s.ssrc, d⟩]
          peerId := e.id
          rtcp := .setHost e
          overtaken := false }
  | guessHost {m : StreamStart} : s.control = .setHost m →
      Moves s .controlSet
        { s with
          sink := { s.sink with host := m.senderHost }
          control := .setPort m
          overtaken := s.overtaken || !s.heard.isEmpty }
  | guessPort {m : StreamStart} : s.control = .setPort m →
      Moves s .controlSet
        { s with
          sink := { s.sink with port := m.rtcpPortLocal }
          control := .idle
          overtaken := s.overtaken || !s.heard.isEmpty }
  | host {e : Endpoint} : s.rtcp = .setHost e →
      Moves s .rtcpSet { s with sink := { s.sink with host := e.host }, rtcp := .setPort e }
  | port {e : Endpoint} : s.rtcp = .setPort e →
      Moves s .rtcpSet { s with sink := { s.sink with port := e.port.toNat }, rtcp := .idle }

variable {controlHost} {s s' : State}

theorem step_moves {a : Act} (h : step s a = some s') : Moves s a s' := by
  cases a with
  | message m =>
    rw [step] at h
    split at h
    · next hidle =>
      rw [onMessage] at h
      split at h
      · cases h
        exact .ignored
      · next hstream =>
        cases h
        exact .announce (not_not.mp hstream) hidle
    · cases h
  | buffer d source =>
    rw [step] at h
    split at h
    · next hidle =>
      cases source with
      | none =>
        cases h
        exact .pass fun e he => by cases he
      | some e =>
        rw [onRtcpIn] at h
        split at h
        · next hno =>
          cases h
          exact .pass fun _ _ => hno
        · next hok =>
          rw [not_or, not_not] at hok
          split at h
          · next hsame =>
            cases h
            exact .known hidle hok.1 hok.2 hsame
          · next hnew =>
            cases h
            exact .learn hidle hok.1 hok.2 hnew
    · cases h
  | controlSet =>
    cases hpc : s.control with
    | idle =>
      simp only [step, hpc] at h
      cases h
    | setHost m =>
      simp only [step, hpc] at h
      cases h
      exact .guessHost hpc
    | setPort m =>
      simp only [step, hpc] at h
      cases h
      exact .guessPort hpc
  | rtcpSet =>
    cases hpc : s.rtcp with
    | idle =>
      simp only [step, hpc] at h
      cases h
    | setHost e =>
      simp only [step, hpc] at h
      cases h
      exact .host hpc
    | setPort e =>
      simp only [step, hpc] at h
      cases h
      exact .port hpc

/-! ## What every run keeps -/

def HostFrom (controlHost : String) (s : State) (host : String) : Prop :=
  host = controlHost ∨ (∃ m ∈ s.announced, 0 < m.rtcpPortLocal ∧ host = m.senderHost) ∨
    ∃ x ∈ s.heard, host = x.source.host

def PortFrom (s : State) (port : Int) : Prop :=
  port = 5005 ∨ (∃ m ∈ s.announced, 0 < m.rtcpPortLocal ∧ port = m.rtcpPortLocal) ∨
    ∃ x ∈ s.heard, port = x.source.port.toNat

def Setting.Of {α : Type} (P : α → Prop) : Setting α → Prop
  | .idle => True
  | .setHost x => P x
  | .setPort x => P x

/-- How far the sink has been set to the endpoint heard last. -/
def SetTo (e : Endpoint) (sink : Destination) : Setting Endpoint → Prop
  | .idle => sink.host = e.host ∧ sink.port = e.port.toNat
  | .setHost _ => True
  | .setPort _ => sink.host = e.host

structure Traced (controlHost : String) (s : State) : Prop where
  ssrc : s.ssrc ≠ 0 → ∃ m ∈ s.announced, m.ssrc = s.ssrc
  heard : ∀ x ∈ s.heard, x.want ≠ 0 ∧ (∃ m ∈ s.announced, m.ssrc = x.want) ∧
    isValidRtcpCompoundFrom x.buffer x.want = some true
  control : s.control.Of fun m => m ∈ s.announced ∧ 0 < m.rtcpPortLocal
  rtcp : s.rtcp.Of fun e => ∃ x, s.heard.getLast? = some x ∧ x.source = e
  host : HostFrom controlHost s s.sink.host
  port : PortFrom s s.sink.port
  silent : s.heard = [] → s.peerId = 0
  peer : ∀ x, s.heard.getLast? = some x → s.peerId = x.source.id
  settled : s.overtaken = false → ∀ x, s.heard.getLast? = some x → x.source.id ≠ 0 →
    SetTo x.source s.sink s.rtcp

/-- More announcements and more endpoints heard leave a value known. -/
theorem HostFrom.mono {host : String} (h : HostFrom controlHost s host)
    (hannounced : ∀ m ∈ s.announced, m ∈ s'.announced) (hheard : ∀ x ∈ s.heard, x ∈ s'.heard) :
    HostFrom controlHost s' host := by
  rcases h with h | ⟨m, hm, h⟩ | ⟨x, hx, h⟩
  · exact .inl h
  · exact .inr (.inl ⟨m, hannounced m hm, h⟩)
  · exact .inr (.inr ⟨x, hheard x hx, h⟩)

theorem PortFrom.mono {port : Int} (h : PortFrom s port)
    (hannounced : ∀ m ∈ s.announced, m ∈ s'.announced) (hheard : ∀ x ∈ s.heard, x ∈ s'.heard) :
    PortFrom s' port := by
  rcases h with h | ⟨m, hm, h⟩ | ⟨x, hx, h⟩
  · exact .inl h
  · exact .inr (.inl ⟨m, hannounced m hm, h⟩)
  · exact .inr (.inr ⟨x, hheard x hx, h⟩)

theorem Setting.Of.imp {α : Type} {P Q : α → Prop} {x : Setting α} (h : x.Of P)
    (himp : ∀ y, P y → Q y) : x.Of Q := by
  cases x with
  | idle => trivial
  | setHost y => exact himp y h
  | setPort y => exact himp y h

theorem Traced.announce {m : StreamStart} (h : Traced controlHost s) : Traced controlHost
    { s with
      stream := m.stream
      ssrc := m.ssrc
      announced := s.announced ++ [m]
      control := if 0 < m.rtcpPortLocal then .setHost m else .idle } := by
  have hkeep : ∀ x ∈ s.announced, x ∈ s.announced ++ [m] := fun x hx => List.mem_append_left _ hx
  have hnew : m ∈ s.announced ++ [m] := List.mem_append_right _ (List.mem_singleton_self m)
  refine
    { ssrc := fun _ => ⟨m, hnew, rfl⟩, heard := ?_, control := ?_, rtcp := h.rtcp,
      host := h.host.mono hkeep fun _ => id, port := h.port.mono hkeep fun _ => id,
      silent := h.silent, peer := h.peer, settled := h.settled }
  · intro x hx
    obtain ⟨hwant, ⟨m', hm', hssrc⟩, hvalid⟩ := h.heard x hx
    exact ⟨hwant, ⟨m', hkeep m' hm', hssrc⟩, hvalid⟩
  · show Setting.Of _ (if _ then _ else _)
    split
    · next hpos => exact ⟨hnew, hpos⟩
    · trivial

/-- What hearing an endpoint adds, whether it is the one known or a new one. -/
theorem Traced.hear {d : List UInt8} {e : Endpoint} {rtcp : Setting Endpoint} {overtaken : Bool}
    (h : Traced controlHost s) (hwant : s.ssrc ≠ 0)
    (hvalid : isValidRtcpCompoundFrom d s.ssrc = some true)
    (hrtcp : rtcp.Of (· = e))
    (hsettled : overtaken = false → e.id ≠ 0 → SetTo e s.sink rtcp) :
    Traced controlHost
      { s with
        heard := s.heard ++ [⟨e, s.ssrc, d⟩]
        peerId := e.id
        rtcp := rtcp
        overtaken := overtaken } := by
  have hkeep : ∀ x ∈ s.heard, x ∈ s.heard ++ [⟨e, s.ssrc, d⟩] := fun x hx =>
    List.mem_append_left _ hx
  have hlast : (s.heard ++ [(⟨e, s.ssrc, d⟩ : Heard)]).getLast? = some ⟨e, s.ssrc, d⟩ :=
    List.getLast?_concat
  refine
    { ssrc := h.ssrc, heard := ?_, control := h.control, rtcp := ?_,
      host := h.host.mono (fun _ => id) hkeep, port := h.port.mono (fun _ => id) hkeep,
      silent := ?_, peer := ?_, settled := ?_ }
  · intro x hx
    rcases List.mem_append.mp hx with hold | hnew
    · exact h.heard x hold
    · rw [List.mem_singleton.mp hnew]
      exact ⟨hwant, h.ssrc hwant, hvalid⟩
  · exact hrtcp.imp fun y hy => ⟨_, hlast, hy.symm⟩
  · intro hnil
    simp at hnil
  · intro x hx
    rw [hlast] at hx
    cases hx
    rfl
  · intro hovertaken x hx hid
    rw [hlast] at hx
    cases hx
    exact hsettled hovertaken hid

theorem Traced.guess {sink : Destination} {control : Setting StreamStart} (h : Traced controlHost s)
    (hcontrol : control.Of fun m => m ∈ s.announced ∧ 0 < m.rtcpPortLocal)
    (hhost : HostFrom controlHost s sink.host) (hport : PortFrom s sink.port) :
    Traced controlHost
      { s with
        sink := sink
        control := control
        overtaken := s.overtaken || !s.heard.isEmpty } where
  ssrc := h.ssrc
  heard := h.heard
  control := hcontrol
  rtcp := h.rtcp
  host := hhost
  port := hport
  silent := h.silent
  peer := h.peer
  settled hovertaken x hx _ := by
    -- an endpoint has been heard, so the guess has overtaken it
    have hne : s.heard.isEmpty = false := by
      cases hheard : s.heard with
      | nil => rw [hheard] at hx; cases hx
      | cons y ys => rfl
    have hovertaken : (s.overtaken || !s.heard.isEmpty) = false := hovertaken
    rw [hne, Bool.not_false, Bool.or_true] at hovertaken
    cases hovertaken

theorem Traced.move {a : Act} (h : Traced controlHost s) (hm : Moves s a s') :
    Traced controlHost s' := by
  cases hm with
  | ignored => exact h
  | announce _ _ => exact h.announce
  | pass _ => exact h
  | @known d e hidle hwant hvalid hsame =>
    have hof : s.rtcp.Of (· = e) := by
      rw [hidle]
      trivial
    have hset : s.overtaken = false → e.id ≠ 0 → SetTo e s.sink s.rtcp := by
      intro hovertaken hid
      cases hlast : s.heard.getLast? with
      | none =>
        rw [List.getLast?_eq_none_iff] at hlast
        exact absurd (hsame.symm.trans (h.silent hlast)) hid
      | some x =>
        have heq := Endpoint.id_injective (hsame.symm.trans (h.peer x hlast))
        rw [heq] at hid ⊢
        exact h.settled hovertaken x hlast hid
    have hstay := h.hear hwant hvalid hof hset
    rw [← hsame] at hstay
    exact hstay
  | learn _ hwant hvalid _ => exact h.hear hwant hvalid rfl fun _ _ => trivial
  | @guessHost m hpc =>
    have hctl := h.control
    rw [hpc] at hctl
    exact h.guess hctl (.inr (.inl ⟨m, hctl.1, hctl.2, rfl⟩)) h.port
  | @guessPort m hpc =>
    have hctl := h.control
    rw [hpc] at hctl
    exact h.guess trivial h.host (.inr (.inl ⟨m, hctl.1, hctl.2, rfl⟩))
  | @host e hpc =>
    have hrtcp := h.rtcp
    rw [hpc] at hrtcp
    obtain ⟨x, hx, rfl⟩ := hrtcp
    refine
      { ssrc := h.ssrc, heard := h.heard, control := h.control, rtcp := ⟨x, hx, rfl⟩,
        host := .inr (.inr ⟨x, List.mem_of_getLast? hx, rfl⟩), port := h.port, silent := h.silent,
        peer := h.peer, settled := ?_ }
    intro _ y hy _
    rw [hx] at hy
    cases hy
    rfl
  | @port e hpc =>
    have hrtcp := h.rtcp
    rw [hpc] at hrtcp
    obtain ⟨x, hx, rfl⟩ := hrtcp
    refine
      { ssrc := h.ssrc, heard := h.heard, control := h.control, rtcp := trivial, host := h.host,
        port := .inr (.inr ⟨x, List.mem_of_getLast? hx, rfl⟩), silent := h.silent, peer := h.peer,
        settled := ?_ }
    intro hovertaken y hy hid
    have hset := h.settled hovertaken y hy hid
    rw [hpc] at hset
    rw [hx] at hy
    cases hy
    exact ⟨hset, rfl⟩

theorem traced_reachable (h : (machine controlHost).Reachable s) : Traced controlHost s := by
  refine Machine.Reachable.invariant ?_ (fun s a s' hi hs => hi.move (step_moves hs)) h
  exact
    { ssrc := fun h => absurd rfl h, heard := by simp [machine, init], control := trivial,
      rtcp := trivial, host := .inl rfl, port := .inl rfl, silent := fun _ => rfl,
      peer := by simp [machine, init], settled := by simp [machine, init] }

/-- The buffers among the actions that are valid compounds come from `e`. -/
def OnlyFrom (e : Endpoint) (ssrc : UInt32) : Act → Prop
  | .buffer d (some f) => isValidRtcpCompoundFrom d ssrc = some true → f = e
  | _ => True

/-- Nothing is being set, and reports from the known endpoint set nothing. -/
structure Fixed (e : Endpoint) (s t : State) : Prop where
  sink : t.sink = s.sink
  stream : t.stream = s.stream
  ssrc : t.ssrc = s.ssrc
  control : t.control = .idle
  rtcp : t.rtcp = .idle
  peer : t.peerId = e.id

theorem Fixed.move {e : Endpoint} {t t' : State} {a : Act} (h : Fixed e s t)
    (hstream : s.stream ≠ "") (ha : OnlyFrom e s.ssrc a) (hm : Moves t a t') : Fixed e s t' := by
  cases hm with
  | ignored => exact h
  | announce hempty _ => exact absurd (h.stream.symm.trans hempty) hstream
  | pass _ => exact h
  | known _ _ _ _ => exact ⟨h.sink, h.stream, h.ssrc, h.control, h.rtcp, h.peer⟩
  | @learn d f _ _ hvalid hnew =>
    rw [h.ssrc] at hvalid
    have hf : f = e := ha hvalid
    rw [hf] at hnew
    exact absurd h.peer hnew
  | guessHost hpc | guessPort hpc =>
    rw [h.control] at hpc
    cases hpc
  | host hpc | port hpc =>
    rw [h.rtcp] at hpc
    cases hpc

theorem Fixed.exec {e : Endpoint} (hstream : s.stream ≠ "") (acts : List Act)
    (hacts : ∀ a ∈ acts, OnlyFrom e s.ssrc a) {t t' : State} (h : Fixed e s t)
    (hexec : (machine controlHost).exec t acts = some t') : Fixed e s t' := by
  induction acts generalizing t with
  | nil =>
    cases hexec
    exact h
  | cons a rest ih =>
    obtain ⟨u, hu, hrest⟩ := Option.bind_eq_some_iff.mp hexec
    exact ih (fun b hb => hacts b (List.mem_cons_of_mem _ hb))
      (h.move hstream (hacts a List.mem_cons_self) (step_moves hu)) hrest

/-- Whatever the order of the two threads: a report is only ever heard in a valid compound of
an announced SSRC; the sink's host and port are the initial ones, a guess of an announcement,
or those of an endpoint that was heard; and when neither thread is at work the sink is the
endpoint heard last, unless the control thread has set its guess since that endpoint was
learned.  From then on reports from that endpoint do not move the sink, whatever it is. -/
theorem rtcp_destination (h : (machine controlHost).Reachable s) :
    (∀ x ∈ s.heard, x.want ≠ 0 ∧ (∃ m ∈ s.announced, m.ssrc = x.want) ∧
      isValidRtcpCompoundFrom x.buffer x.want = some true) ∧
    HostFrom controlHost s s.sink.host ∧ PortFrom s s.sink.port ∧
    (s.control = .idle → s.rtcp = .idle → ∀ x, s.heard.getLast? = some x → x.source.id ≠ 0 →
      (s.overtaken = false → s.sink = ⟨x.source.host, x.source.port.toNat⟩) ∧
      (s.stream ≠ "" → ∀ acts t, (∀ a ∈ acts, OnlyFrom x.source s.ssrc a) →
        (machine controlHost).exec s acts = some t → t.sink = s.sink)) := by
  have hi := traced_reachable h
  refine ⟨hi.heard, hi.host, hi.port, fun hcontrol hrtcp x hx hid => ⟨?_, ?_⟩⟩
  · intro hovertaken
    have hset := hi.settled hovertaken x hx hid
    rw [hrtcp] at hset
    obtain ⟨hhost, hport⟩ := hset
    rw [← hhost, ← hport]
  · intro hstream acts t hacts hexec
    have hfixed : Fixed x.source s s := ⟨rfl, rfl, rfl, hcontrol, hrtcp, hi.peer x hx⟩
    exact (hfixed.exec hstream acts hacts hexec).sink

def announcement : StreamStart := ⟨"cam0", 5, "192.168.0.9", 5006⟩

/-- The sender as the receiver sees it behind a port translation. -/
def translated : Endpoint := ⟨10, 45, 0, 2, 40001⟩

def receiverReport : List UInt8 := [0x80, 0xc9, 0, 1, 0, 0, 0, 5]

theorem receiverReport_valid : isValidRtcpCompoundFrom receiverReport 5 = some true := by
  rw [isValidRtcpCompoundFrom, Rtcp.validFrom]
  have hcheck : Rtcp.checkPacket receiverReport 5 0 0 = some (some 1) := by decide
  rw [if_pos (by decide), hcheck]
  simp only
  rw [Rtcp.validFrom]
  decide

theorem step_learn {d : List UInt8} {e : Endpoint} (hidle : s.rtcp = .idle) (hwant : s.ssrc ≠ 0)
    (hvalid : isValidRtcpCompoundFrom d s.ssrc = some true) (hnew : s.peerId ≠ e.id) :
    step s (.buffer d (some e)) = some
      { s with
        heard := s.heard ++ [⟨e, s.ssrc, d⟩]
        peerId := e.id
        rtcp := .setHost e
        overtaken := false } := by
  have hok : ¬(s.ssrc = 0 ∨ isValidRtcpCompoundFrom d s.ssrc ≠ some true) := by
    rw [not_or, not_not]
    exact ⟨hwant, hvalid⟩
  rw [step, if_pos hidle, onRtcpIn, if_neg hok, if_neg hnew]

/-- The report is heard before the guess is set, which then stays. -/
theorem rtcp_destination_late : ∃ s, (machine "127.0.0.1").Reachable s ∧
    s.sink = ⟨"192.168.0.9", 5006⟩ ∧ s.peerId = translated.id ∧
    ∀ acts t, (∀ a ∈ acts, OnlyFrom translated 5 a) →
      (machine "127.0.0.1").exec s acts = some t → t.sink = ⟨"192.168.0.9", 5006⟩ := by
  have hhear := step_learn (s := onMessage (init "127.0.0.1") announcement) (d := receiverReport)
    (e := translated) rfl (by decide) receiverReport_valid (by decide)
  have hreach : (machine "127.0.0.1").Reachable
      { stream := "cam0", ssrc := 5, peerId := translated.id, sink := ⟨"192.168.0.9", 5006⟩
        control := .idle, rtcp := .idle, announced := [announcement]
        heard := [⟨translated, 5, receiverReport⟩], overtaken := true } :=
    ⟨_, .next (a := .controlSet) (.next (a := .controlSet) (.next (a := .rtcpSet)
      (.next (a := .rtcpSet) (.next (a := .buffer receiverReport (some translated))
        (.next (a := .message announcement) .start trivial rfl) trivial hhear)
        trivial rfl) trivial rfl) trivial rfl) trivial rfl⟩
  refine ⟨_, hreach, rfl, rfl, ?_⟩
  obtain ⟨-, -, -, hquiet⟩ := rtcp_destination hreach
  exact (hquiet rfl rfl _ rfl (by decide)).2 (by decide)

end RtcpPeer
end Gst
end P5G
