import P5G.Rtp.Conservation

/-!
# What a group of packets adds up to

The assembly of a group is a function of its packets alone.  A depacketizer
with room for them holds it, so the event of a group and its bytes are those
of the group's assembly.
-/

namespace P5G

namespace Payload

def size : Payload → Nat
  | empty => 0
  | nals us _ => (us.map fun u => 4 + u.length).sum
  | fragment _ start _ bytes => (if start then 5 else 0) + bytes.length
  | foreign => 0

end Payload

theorem Piece.content_size (p : Piece) : p.content.size = p.size := by
  cases p with
  | single n =>
    show 4 + n.bytes.length + 0 = (startCode ++ n.bytes).length
    rw [List.length_append]
    rfl
  | stapA g =>
    show ((g.nals.map Nal.bytes).map fun u => 4 + u.length).sum = (annexB g.nals).length
    rw [annexB_length, List.map_map]
    rfl
  | fuA n start last fragment => rfl

def Entry.content (x : Entry) : Payload := Payload.ofBytes x.packet.payload

namespace Assembly

def enter (a : Assembly) (x : Entry) : Assembly := (a.arrive x.gap x.arrival).payload x.content

theorem arrive_length (a : Assembly) (g : Nat) (arrival : Int) :
    (a.arrive g arrival).bytes.length ≤ a.bytes.length := (a.stamp arrival).miss_length g

theorem openUnit_length (a : Assembly) (hdr : UInt8) :
    (a.openUnit hdr).bytes.length ≤ a.bytes.length + 5 := by
  have h : a.closeFu.whole.length ≤ a.bytes.length := by
    refine Nat.le_trans ?_ a.closeFu_length
    simp [bytes]
  simp only [openUnit, bytes, startCode, Option.getD_some, List.length_append, List.length_cons,
    List.length_nil] at h ⊢
  omega

theorem units_sum (us : List (List UInt8)) (a : Assembly) :
    (us.foldl unit a).bytes.length =
      a.bytes.length + (us.map fun u => 4 + u.length).sum := by
  induction us generalizing a with
  | nil => rfl
  | cons u us ih => rw [List.foldl_cons, ih, unit_length, List.map_cons, List.sum_cons, Nat.add_assoc]

theorem payload_length (a : Assembly) (p : Payload) :
    (a.payload p).bytes.length ≤ a.bytes.length + p.size := by
  cases p with
  | empty => exact Nat.le_refl _
  | foreign => exact Nat.le_refl _
  | nals us torn => exact Nat.le_of_eq (units_sum us { a with orphan := false })
  | fragment hdr start last fragment =>
    refine Nat.le_trans (continueFu_length _ last fragment) ?_
    cases start with
    | false => simp [Payload.size]
    | true =>
      have h := a.openUnit_length hdr
      simp only [Payload.size, ↓reduceIte]
      omega

theorem enter_length (a : Assembly) (x : Entry) :
    (a.enter x).bytes.length ≤ a.bytes.length + x.content.size :=
  Nat.le_trans (payload_length _ x.content)
    (Nat.add_le_add_right (a.arrive_length x.gap x.arrival) _)

/-! ### The lost count

It is not read before the event, so the gap before the first packet of a group
changes nothing else. -/

theorem append_lost (a : Assembly) (n : Nat) (p : List UInt8) :
    ({ a with lost := n } : Assembly).append p = { a.append p with lost := n } := by
  obtain ⟨whole, fu, -⟩ := a
  cases fu <;> rfl

theorem units_lost (us : List (List UInt8)) (a : Assembly) (n : Nat) :
    us.foldl unit { a with lost := n } = { us.foldl unit a with lost := n } := by
  induction us generalizing a with
  | nil => rfl
  | cons u us ih =>
    have hu : ({ a with lost := n } : Assembly).unit u = { a.unit u with lost := n } := by
      rw [unit, append_lost]
      rfl
    rw [List.foldl_cons, hu, ih]
    rfl

theorem openUnit_lost (a : Assembly) (n : Nat) (hdr : UInt8) :
    ({ a with lost := n } : Assembly).openUnit hdr = { a.openUnit hdr with lost := n } := by
  obtain ⟨whole, fu, -⟩ := a
  cases fu <;> rfl

theorem continueFu_lost (a : Assembly) (n : Nat) (last : Bool) (fragment : List UInt8) :
    ({ a with lost := n } : Assembly).continueFu last fragment =
      { a.continueFu last fragment with lost := n } := by
  obtain ⟨whole, fu, -⟩ := a
  cases fu <;> cases last <;> rfl

theorem payload_lost (a : Assembly) (n : Nat) (p : Payload) :
    ({ a with lost := n } : Assembly).payload p = { a.payload p with lost := n } := by
  cases p with
  | empty => rfl
  | foreign => rfl
  | nals us torn => exact units_lost us { a with orphan := false } n
  | fragment hdr start last fragment =>
    cases start with
    | false => exact continueFu_lost a n last fragment
    | true =>
      show (({ a with lost := n } : Assembly).openUnit hdr).continueFu last fragment = _
      rw [openUnit_lost]
      exact continueFu_lost _ n last fragment

theorem arrive_lost (a : Assembly) (n g : Nat) (arrival : Int) :
    ({ a with lost := n } : Assembly).arrive g arrival =
      { a.arrive g arrival with lost := n + g } := by
  obtain ⟨whole, fu, -⟩ := a
  by_cases hg : g = 0
  · subst hg
    cases fu <;> rfl
  · cases fu <;> simp [arrive, miss, hg, stamp, closeFu]

theorem enter_lost (a : Assembly) (n : Nat) (x : Entry) :
    ({ a with lost := n } : Assembly).enter x = { a.enter x with lost := n + x.gap } := by
  rw [enter, arrive_lost, payload_lost]
  rfl

end Assembly

def gather (es : List Entry) : Assembly := es.foldl Assembly.enter {}

def damages (es : List Entry) : Bool := es.any fun x => x.content.damages

/-- The most that these packets can put into the buffer. -/
def weight (es : List Entry) : Nat := (es.map fun x => x.content.size).sum

theorem gather_concat (es : List Entry) (x : Entry) : gather (es ++ [x]) = (gather es).enter x :=
  List.foldl_concat ..

theorem gather_length (es : List Entry) : (gather es).bytes.length ≤ weight es := by
  induction es using List.reverseRecOn with
  | nil => exact Nat.le_refl _
  | append_singleton es x ih =>
    have h := (gather es).enter_length x
    have hw : weight (es ++ [x]) = weight es + x.content.size := by simp [weight]
    rw [gather_concat, hw]
    omega

theorem weight_mono {es fs : List Entry} (h : es <+: fs) : weight es ≤ weight fs := by
  obtain ⟨gs, rfl⟩ := h
  rw [weight, weight, List.map_append, List.sum_append]
  exact Nat.le_add_right _ _

/-- Two groups with the same packets, the gap before the first one apart. -/
def Alike : List Entry → List Entry → Prop
  | [], [] => True
  | x :: es, y :: fs => x.received = y.received ∧ es = fs
  | _, _ => False

theorem Alike.concat {es fs : List Entry} (h : Alike es fs) (hne : es ≠ []) (x : Entry) :
    Alike (es ++ [x]) (fs ++ [x]) := by
  cases es with
  | nil => exact absurd rfl hne
  | cons y es =>
    cases fs with
    | nil => exact h.elim
    | cons z fs => exact ⟨h.1, congrArg (· ++ [x]) h.2⟩

theorem Alike.gather {es fs : List Entry} (h : Alike es fs) :
    ∃ n, P5G.gather es = { P5G.gather fs with lost := n } := by
  cases es with
  | nil =>
    cases fs with
    | nil => exact ⟨0, rfl⟩
    | cons y fs => exact h.elim
  | cons x es =>
    cases fs with
    | nil => exact h.elim
    | cons y fs =>
      obtain ⟨hxy, rfl⟩ := h
      obtain ⟨packet, arrival, g⟩ := x
      obtain ⟨packet', arrival', g'⟩ := y
      obtain ⟨rfl, rfl⟩ : packet = packet' ∧ arrival = arrival' := Prod.mk.injEq .. ▸ hxy
      have hfirst : ∃ n, ({} : Assembly).enter ⟨packet, arrival, g⟩ =
          { ({} : Assembly).enter ⟨packet, arrival, g'⟩ with lost := n } := by
        have hstart : ∀ k, ({} : Assembly).arrive k arrival =
            { ({} : Assembly).arrive 0 arrival with lost := k } := by
          intro k
          by_cases hk : k = 0
          · rw [hk]
            rfl
          · simp [Assembly.arrive, Assembly.miss, hk, Assembly.stamp]
        refine ⟨g, ?_⟩
        rw [Assembly.enter, Assembly.enter, hstart g, hstart g', Assembly.payload_lost _ g,
          Assembly.payload_lost _ g']
        rfl
      have hrest : ∀ (es : List Entry) (a : Assembly) (n : Nat), ∃ m,
          es.foldl Assembly.enter { a with lost := n } =
            { es.foldl Assembly.enter a with lost := m } := by
        intro es
        induction es with
        | nil => exact fun a n => ⟨n, rfl⟩
        | cons x es ih =>
          intro a n
          obtain ⟨m, hm⟩ := ih (a.enter x) (n + x.gap)
          exact ⟨m, by rw [List.foldl_cons, Assembly.enter_lost, hm, List.foldl_cons]⟩
      obtain ⟨n, hn⟩ := hfirst
      obtain ⟨m, hm⟩ := hrest es (({} : Assembly).enter ⟨packet, arrival, g'⟩) n
      exact ⟨m, by rw [P5G.gather, P5G.gather, List.foldl_cons, List.foldl_cons, hn, hm]⟩

namespace Depacketizer

variable {cap : Nat}

namespace Carries

variable {d : Depacketizer cap} {a : Assembly} {b : Bool}

theorem countGap (h : Carries d a b) : Carries d.countGap (a.miss d.pendingGap) b := by
  have hgap : Holds ({ d with damaged := false } : Depacketizer cap).countGap
      (a.miss d.pendingGap) := h.holds.countGap
  have hcommute : ({ d with damaged := false } : Depacketizer cap).countGap =
      { d.countGap with damaged := false } := by
    by_cases hg : d.pendingGap = 0
    · simp only [Depacketizer.countGap, hg, ↓reduceIte]
    · by_cases ho : d.fuOpen = true
      · simp only [Depacketizer.countGap, hg, ho, lostTail, Depacketizer.closeFu, dropOpenFu,
          ↓reduceIte]
      · simp only [Depacketizer.countGap, hg, ho, lostTail, Bool.false_eq_true, ↓reduceIte]
  rw [hcommute] at hgap
  refine ⟨hgap, ?_⟩
  by_cases hg : d.pendingGap = 0
  · simp only [Depacketizer.countGap, hg, ↓reduceIte]
    exact h.damaged
  · by_cases ho : d.fuOpen = true
    · simp only [Depacketizer.countGap, hg, ho, lostTail, Depacketizer.closeFu, dropOpenFu,
        ↓reduceIte]
      exact h.damaged
    · simp only [Depacketizer.countGap, hg, ho, lostTail, Bool.false_eq_true, ↓reduceIte]
      exact h.damaged

theorem enter (h : Carries d a b) {x : Entry} (hts : d.haveTs = true)
    (hcur : x.packet.ts = d.curTs) (hgap : d.pendingGap = x.gap)
    (hroom : (a.enter x).bytes.length ≤ cap) :
    Carries (d.take x.packet x.arrival) (a.enter x) (b || x.content.damages) := by
  have hstamp : Carries (d.stamp x.arrival) (a.stamp x.arrival) b := by
    have hpackets : d.packets = a.packets := h.holds.packets
    have hfirst : d.firstArrival = a.firstArrival := h.holds.firstArrival
    refine ⟨{ h.holds with firstArrival := ?_, lastArrival := rfl }, h.damaged⟩
    simp only [Depacketizer.stamp, Assembly.stamp, hpackets, hfirst]
  have hmiss : Carries (d.stamp x.arrival).countGap ((a.stamp x.arrival).miss x.gap) b := by
    rw [← hgap]
    exact hstamp.countGap
  have hcount : Carries
      { (d.stamp x.arrival).countGap with packets := (d.stamp x.arrival).countGap.packets + 1 }
      (a.arrive x.gap x.arrival) b :=
    ⟨{ hmiss.holds with packets := congrArg (· + 1) hmiss.holds.packets }, hmiss.damaged⟩
  rw [Depacketizer.take, enter_same hts hcur]
  exact hcount.payload hroom

end Carries

def Gathers (d : Depacketizer cap) (es : List Entry) : Prop :=
  ∃ first last, Carries d
    (es.foldl Assembly.enter { firstArrival := first, lastArrival := last }) (damages es)

def Fits (cap : Nat) (es : List Entry) : Prop :=
  ∀ fs, fs <+: es → (gather fs).bytes.length ≤ cap

theorem fits_of_weight {es : List Entry} (h : weight es ≤ cap) : Fits cap es := fun fs hfs =>
  Nat.le_trans (gather_length fs) (Nat.le_trans (weight_mono hfs) h)

theorem gather_fresh {es : List Entry} (h : es ≠ []) (first last : Int) :
    es.foldl Assembly.enter { firstArrival := first, lastArrival := last } = gather es := by
  cases es with
  | nil => exact absurd rfl h
  | cons x es => rfl

/-- The counts are always right, and the contents where the buffer has room. -/
def Assembles (d : Depacketizer cap) (es : List Entry) : Prop :=
  Counts d es ∧ (Fits cap es → Gathers d es)

theorem assembles_content : @Content cap Assembles where
  packets h := h.1.packets
  outside := by
    rintro d es a b c e f g k l ⟨hcounts, hgathers⟩
    refine ⟨counts_content.outside a b c e f g k l hcounts, fun hfits => ?_⟩
    obtain ⟨first, last, h⟩ := hgathers hfits
    exact ⟨first, last, { h.holds with }, h.damaged⟩
  reset d ts := ⟨counts_content.reset d ts,
    fun _ => ⟨d.firstArrival, d.lastArrival, ⟨Holds.reset d ts, rfl⟩⟩⟩
  take := by
    rintro d es x ⟨hcounts, hgathers⟩ hts hcur hgap
    refine ⟨counts_content.take hcounts hts hcur hgap, fun hfits => ?_⟩
    obtain ⟨first, last, h⟩ :=
      hgathers fun fs hfs => hfits fs (hfs.trans (List.prefix_append es [x]))
    have hne : es ++ [x] ≠ [] := by simp
    have hfold : (es ++ [x]).foldl Assembly.enter
        { firstArrival := first, lastArrival := last } = Assembly.enter _ x := List.foldl_concat ..
    have hd : damages (es ++ [x]) = (damages es || x.content.damages) := by simp [damages]
    refine ⟨first, last, ?_⟩
    rw [hd, hfold]
    refine h.enter hts hcur hgap ?_
    rw [← hfold, gather_fresh hne]
    exact hfits _ (List.prefix_refl _)

structure Shows (a : Assembly) (damaged : Bool) (g : Group) (x : AuEvent × List UInt8) : Prop where
  data : x.2 = a.whole
  bytes : x.1.bytes = a.whole.length
  rtpTs : x.1.rtpTs = g.ts
  complete : x.1.complete = (g.byMarker && a.lost + g.tail == 0 && a.partials == 0 && !damaged &&
    decide (0 < a.whole.length))
  lostFragments : x.1.lostFragments = a.partials
  isIdr : x.1.isIdr = a.idr
  damaged : x.1.damaged = damaged

theorem shows_of_tells {g : Group} {x : AuEvent × List UInt8}
    (h : @Tells cap Assembles g x) (hfits : Fits cap g.entries) :
    Shows (gather g.entries) (damages g.entries) g x := by
  obtain ⟨d, ⟨-, hgathers⟩, hts, hne, hx, hdata⟩ := h
  obtain ⟨first, last, hc⟩ := hgathers hfits
  rw [gather_fresh hne] at hc
  have hclose := hc.closeFu
  rw [closeFu_lost] at hx
  have hlen : d.closeFu.len = (gather g.entries).whole.length := by
    rw [hclose.len, Assembly.closeFu_bytes]
  have hfrag : d.closeFu.lostFrag = (gather g.entries).partials := by
    rw [← Assembly.closeFu_lostFrag]
    exact hclose.holds.lostFrag
  have hlost : d.lost = (gather g.entries).lost := hc.holds.lost
  have hbytes : (d.closeFu.buf.bytes d.closeFu.cur).take d.closeFu.len =
      (gather g.entries).closeFu.bytes := hclose.holds.bytes
  refine ⟨?_, ?_, ?_, ?_, ?_, ?_, ?_⟩
  · rw [hdata, ← closeFu_cur, hbytes, Assembly.closeFu_bytes]
  · rw [← hlen]
    exact congrArg AuEvent.bytes hx
  · rw [← hts, ← (Beside.closeFu d).curTs]
    exact congrArg AuEvent.rtpTs hx
  · rw [← hlen, ← hfrag, ← hlost, ← hclose.damaged]
    exact congrArg AuEvent.complete hx
  · rw [← hfrag]
    exact congrArg AuEvent.lostFragments hx
  · have hidr : d.closeFu.idr = (gather g.entries).closeFu.idr := hclose.holds.idr
    rw [← Assembly.closeFu_idr, ← hidr]
    exact congrArg AuEvent.isIdr hx
  · rw [← hclose.damaged]
    exact congrArg AuEvent.damaged hx

/-- Every event of a run is that of a group, which its assembly decides. -/
theorem receiveAll_shows (bufs : AuBuffers cap) (qs : List (RtpHeader × Int)) :
    List.Forall₂ (fun g x => Fits cap g.entries → Shows (gather g.entries) (damages g.entries) g x)
      (({} : Grouping).receiveAll qs).2 (({ buf := bufs } : Depacketizer cap).receiveAll qs).2 := by
  have hrun := (follows_fresh assembles_content bufs).receiveAll assembles_content qs
  exact hrun.2.imp fun _ _ h => shows_of_tells h

end Depacketizer

end P5G
