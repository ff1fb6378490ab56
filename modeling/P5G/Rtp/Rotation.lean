import P5G.Machine
import P5G.Rtp.Reception

/-!
# The rotation of the assembly buffers

`Push` with the bytes its access units had at `Emit`, and the receive thread of
the ffmpeg receiver around it: `RxLoop` hands each event of a call to `DecodeAu`,
which zeroes the padding behind the access unit.  Until the next `Push` the
buffers named by the events keep their bytes.
-/

namespace P5G

/-- The `memset` of `DecodeAu`. -/
def AuBuffers.zero {cap : Nat} (b : AuBuffers cap) (k : Fin 3) (off pad : Nat)
    (h : off + pad ≤ (b.bytes k).length) : AuBuffers cap where
  bytes j := if j = k then overwrite (b.bytes k) off (List.replicate pad 0) else b.bytes j
  room j := by
    split
    · rw [overwrite_length (by rwa [List.length_replicate])]
      exact b.room k
    · exact b.room j

theorem overwrite_take_of_le {b p : List UInt8} {off n : Nat} (hoff : off ≤ b.length)
    (h : n ≤ off) : (overwrite b off p).take n = b.take n := by
  rw [overwrite, List.append_assoc, List.take_append_of_le_length, List.take_take,
    Nat.min_eq_left h]
  rw [List.length_take]
  omega

namespace Depacketizer

variable {cap : Nat}

/-- The bytes `Emit` would end the access unit with. -/
def assembled (d : Depacketizer cap) : List UInt8 :=
  (d.buf.bytes d.cur).take d.closeFu.len

/-- The events of `push`, each with the bytes it was assembled from. -/
def pushAssembled (d : Depacketizer cap) (h : RtpHeader) (arrival : Int) :
    List (AuEvent × List UInt8) :=
  if d.late h.seq then []
  else
    let d₁ := { d with accepted := true }
    let r₁ := d₁.advance h.seq
    let d₂ := { r₁.1 with haveSeq := true, lastSeq := h.seq }
    let r₂ := d₂.changeTs h.ts
    let d₃ := r₂.1.take h arrival
    let r₃ := d₃.endByMarker h.marker
    (r₁.2.map (·, d₁.assembled)).toList ++ (r₂.2.map (·, d₂.assembled)).toList ++
      (r₃.2.map (·, d₃.assembled)).toList

theorem toList_map_fst {α β : Type} (o : Option α) (b : β) :
    (o.map (·, b)).toList.map Prod.fst = o.toList := by
  cases o <;> rfl

theorem pushAssembled_fst (d : Depacketizer cap) (h : RtpHeader) (arrival : Int) :
    (d.pushAssembled h arrival).map Prod.fst = (d.push h arrival).2 := by
  rw [pushAssembled, push]
  split
  · rfl
  · simp only [List.map_append, toList_map_fst]

/-! ## The bounds of an assembly -/

/-- The access unit, and what is left of it without its open FU-A unit, fit. -/
structure Sized (d : Depacketizer cap) : Prop where
  len : d.len ≤ cap
  fuStart : d.fuStart ≤ cap

/-- `d'` has buffers as long as those of `d` and keeps within the capacity. -/
structure Keeps (d d' : Depacketizer cap) : Prop where
  sized : d.Sized → d'.Sized
  length : ∀ k, (d'.buf.bytes k).length = (d.buf.bytes k).length

namespace Keeps

variable {d d' d'' : Depacketizer cap}

theorem refl (d : Depacketizer cap) : Keeps d d := ⟨id, fun _ => rfl⟩

theorem trans (h : Keeps d d') (h' : Keeps d' d'') : Keeps d d'' :=
  ⟨fun hd => h'.sized (h.sized hd), fun k => (h'.length k).trans (h.length k)⟩

/-- Only flags and counters differ. -/
theorem of_eq (hbuf : d'.buf = d.buf) (hlen : d'.len = d.len) (hfu : d'.fuStart = d.fuStart) :
    Keeps d d' where
  sized hd := ⟨hlen ▸ hd.len, hfu ▸ hd.fuStart⟩
  length k := by rw [hbuf]

theorem append (d : Depacketizer cap) (p : List UInt8) : Keeps d (d.append p) := by
  rw [Depacketizer.append]
  split
  · next h =>
    refine ⟨fun hd => ⟨h, hd.fuStart⟩, fun k => ?_⟩
    show (if k = d.cur then overwrite (d.buf.bytes d.cur) d.len p else d.buf.bytes k).length = _
    split
    · next hk =>
      subst hk
      exact overwrite_length (Nat.le_trans h (d.buf.room _))
    · rfl
  · exact of_eq rfl rfl rfl

theorem appendNal (d : Depacketizer cap) (p : List UInt8) : Keeps d (d.appendNal p) := by
  have h : Keeps d (d.appendStartCode.append p) := (append d startCode).trans (append _ p)
  rw [Depacketizer.appendNal]
  split
  · exact h.trans (of_eq rfl rfl rfl)
  · exact h

theorem closeFu (d : Depacketizer cap) : Keeps d d.closeFu := by
  rw [Depacketizer.closeFu]
  split
  · exact ⟨fun hd => ⟨hd.fuStart, hd.fuStart⟩, fun _ => rfl⟩
  · exact refl d

theorem stapA (fuel : Nat) (d : Depacketizer cap) (p : List UInt8) :
    Keeps d (Depacketizer.stapA fuel d p) := by
  fun_induction Depacketizer.stapA fuel d p with
  | case1 | case2 => exact refl _
  | case3 | case4 => exact of_eq rfl rfl rfl
  | case5 fuel d a b rest sz h ih => exact (appendNal d _).trans ih

theorem startFu (d : Depacketizer cap) (indicator fu : UInt8) :
    Keeps d (d.startFu indicator fu) := by
  have hopen : Keeps d.closeFu { d.closeFu with fuStart := d.closeFu.len, orphan := false } :=
    ⟨fun hd => ⟨hd.len, hd.len⟩, fun _ => rfl⟩
  exact ((closeFu d).trans hopen).trans
    (((append _ _).trans (append _ _)).trans (of_eq rfl rfl rfl))

theorem continueFu (d : Depacketizer cap) (last : Bool) (fragment : List UInt8) :
    Keeps d (d.continueFu last fragment) := by
  rw [Depacketizer.continueFu]
  split
  · exact (append d fragment).trans (of_eq rfl rfl rfl)
  · exact of_eq rfl rfl rfl

theorem fuA (d : Depacketizer cap) (indicator fu : UInt8) (fragment : List UInt8) :
    Keeps d (d.fuA indicator fu fragment) := by
  rw [Depacketizer.fuA]
  refine Keeps.trans ?_ (continueFu _ _ _)
  split
  · exact refl d
  · exact startFu d indicator fu

theorem payload (d : Depacketizer cap) (p : List UInt8) : Keeps d (d.payload p) := by
  cases p with
  | nil => exact refl d
  | cons b rest =>
    simp only [Depacketizer.payload]
    split
    · exact (appendNal d _).trans (of_eq rfl rfl rfl)
    · split
      · have horphan : Keeps d { d with orphan := false } := of_eq rfl rfl rfl
        exact horphan.trans (stapA _ _ _)
      · split
        · cases rest with
          | nil => exact of_eq rfl rfl rfl
          | cons fu fragment => exact fuA d b fu fragment
        · exact of_eq rfl rfl rfl

theorem enter (d : Depacketizer cap) (ts : UInt32) (arrival : Int) :
    Keeps d (d.enter ts arrival) := by
  rw [Depacketizer.enter]
  split
  · exact ⟨fun hd => ⟨Nat.zero_le _, hd.fuStart⟩, fun _ => rfl⟩
  · exact of_eq rfl rfl rfl

theorem countGap (d : Depacketizer cap) : Keeps d d.countGap := by
  rw [Depacketizer.countGap]
  split
  · exact refl d
  · split
    · have htail : Keeps d d.lostTail := of_eq rfl rfl rfl
      exact (htail.trans (closeFu _)).trans (of_eq rfl rfl rfl)
    · exact of_eq rfl rfl rfl

theorem take (d : Depacketizer cap) (h : RtpHeader) (arrival : Int) :
    Keeps d (d.take h arrival) := by
  have hcount (d : Depacketizer cap) : Keeps d { d with packets := d.packets + 1 } :=
    of_eq rfl rfl rfl
  exact ((enter d h.ts arrival).trans (countGap _)).trans ((hcount _).trans (payload _ _))

end Keeps

/-! ## Where an access unit stands -/

/-- An event whose bytes are in a buffer that is not being assembled into. -/
structure Stands (d : Depacketizer cap) (x : AuEvent × List UInt8) : Prop where
  apart : x.1.buffer ≠ d.cur
  bytes : x.1.bytes = x.2.length
  fits : x.1.bytes ≤ cap
  size : d.emittedLen x.1.buffer = x.1.bytes
  data : (d.buf.bytes x.1.buffer).take x.1.bytes = x.2

/-- `d'` is `d` with more in the buffer being assembled into. -/
structure Extends (d d' : Depacketizer cap) : Prop where
  cur : d'.cur = d.cur
  bytes : ∀ k, k ≠ d.cur → d'.buf.bytes k = d.buf.bytes k
  size : d'.emittedLen = d.emittedLen

theorem Extends.trans {d d' d'' : Depacketizer cap} (h : Extends d d') (h' : Extends d' d'') :
    Extends d d'' where
  cur := h'.cur.trans h.cur
  bytes k hk := (h'.bytes k (h.cur ▸ hk)).trans (h.bytes k hk)
  size := h'.size.trans h.size

theorem Beside.extends {d d' : Depacketizer cap} (h : Beside d d') : Extends d d' :=
  ⟨h.cur, h.bytes, h.emittedLen⟩

theorem enter_extends (d : Depacketizer cap) (ts : UInt32) (arrival : Int) :
    Extends d (d.enter ts arrival) := by
  rw [enter]
  split
  · exact ⟨rfl, fun _ _ => rfl, rfl⟩
  · exact ⟨rfl, fun _ _ => rfl, rfl⟩

theorem countGap_extends (d : Depacketizer cap) : Extends d d.countGap := by
  rw [countGap]
  split
  · exact (Beside.refl d).extends
  · split
    · have htail : Extends d d.lostTail := ⟨rfl, fun _ _ => rfl, rfl⟩
      exact htail.trans ((Beside.closeFu _).trans (Beside.set _ _ _ _ _ _ _ _)).extends
    · exact ⟨rfl, fun _ _ => rfl, rfl⟩

theorem take_extends (d : Depacketizer cap) (h : RtpHeader) (arrival : Int) :
    Extends d (d.take h arrival) := by
  have hcount (d : Depacketizer cap) : Extends d { d with packets := d.packets + 1 } :=
    ⟨rfl, fun _ _ => rfl, rfl⟩
  exact ((enter_extends d h.ts arrival).trans (countGap_extends _)).trans
    ((hcount _).trans (Beside.payload _ _).extends)

theorem Stands.extends {d d' : Depacketizer cap} {x : AuEvent × List UInt8} (hx : Stands d x)
    (h : Extends d d') : Stands d' x where
  apart := h.cur ▸ hx.apart
  bytes := hx.bytes
  fits := hx.fits
  size := by rw [h.size, hx.size]
  data := by rw [h.bytes _ hx.apart, hx.data]

/-- What a phase does that may end the access unit being assembled, but writes no
byte: `o` is the event, with the bytes it ends with. -/
structure Ends (d d' : Depacketizer cap) (o : Option (AuEvent × List UInt8)) : Prop where
  buf : d'.buf = d.buf
  cur : d'.cur = if o = none then d.cur else d.cur + 1
  size : ∀ k, k ≠ d.cur ∨ o = none → d'.emittedLen k = d.emittedLen k
  sized : d.Sized → d'.Sized
  event : ∀ x ∈ o, d.Sized → x.1.buffer = d.cur ∧ Stands d' x

theorem Ends.none {d d' : Depacketizer cap} (hbuf : d'.buf = d.buf) (hcur : d'.cur = d.cur)
    (hsize : d'.emittedLen = d.emittedLen) (hsized : d.Sized → d'.Sized) : Ends d d' none where
  buf := hbuf
  cur := by rw [if_pos rfl, hcur]
  size _ _ := by rw [hsize]
  sized := hsized
  event := by simp

theorem Ends.keeps {d d' : Depacketizer cap} {o : Option (AuEvent × List UInt8)}
    (h : Ends d d' o) : Keeps d d' :=
  ⟨h.sized, fun k => by rw [h.buf]⟩

/-- Flags and counters set behind a phase. -/
theorem Ends.set {d d' d'' : Depacketizer cap} {o : Option (AuEvent × List UInt8)}
    (h : Ends d d' o) (hbuf : d''.buf = d'.buf) (hcur : d''.cur = d'.cur)
    (hsize : d''.emittedLen = d'.emittedLen) (hsized : d'.Sized → d''.Sized) : Ends d d'' o where
  buf := hbuf.trans h.buf
  cur := hcur.trans h.cur
  size k hk := by rw [hsize, h.size k hk]
  sized hd := hsized (h.sized hd)
  event x hx hd := by
    obtain ⟨hbuffer, hstands⟩ := h.event x hx hd
    exact ⟨hbuffer, hstands.extends ⟨hcur, fun k _ => by rw [hbuf], hsize⟩⟩

/-- Two phases of which only one may end an access unit. -/
theorem Ends.orElse {d d' d'' : Depacketizer cap} {o o' : Option (AuEvent × List UInt8)}
    (h : Ends d d' o) (h' : Ends d' d'' o') (hone : o = .none ∨ o' = .none) :
    Ends d d'' (o.or o') := by
  rcases hone with rfl | rfl
  · have hcur : d'.cur = d.cur := by rw [h.cur, if_pos rfl]
    rw [Option.none_or]
    refine ⟨h'.buf.trans h.buf, ?_, fun k hk => ?_, fun hd => h'.sized (h.sized hd),
      fun x hx hd => ?_⟩
    · rw [h'.cur, hcur]
    · rw [h'.size k (hcur ▸ hk), h.size k (.inr rfl)]
    · obtain ⟨hbuffer, hstands⟩ := h'.event x hx (h.sized hd)
      exact ⟨hbuffer.trans hcur, hstands⟩
  · rw [Option.or_none]
    refine h.set h'.buf ?_ (funext fun k => h'.size k (.inr rfl)) h'.sized
    rw [h'.cur, if_pos rfl]

theorem closeFu_len (d : Depacketizer cap) :
    d.closeFu.len = if d.fuOpen then d.fuStart else d.len := by
  rw [closeFu]
  split
  · rfl
  · rfl

theorem assembled_congr {d d' : Depacketizer cap} (hbuf : d'.buf = d.buf) (hcur : d'.cur = d.cur)
    (hlen : d'.len = d.len) (hstart : d'.fuStart = d.fuStart) (hopen : d'.fuOpen = d.fuOpen) :
    d'.assembled = d.assembled := by
  rw [assembled, assembled, closeFu_len, closeFu_len, hbuf, hcur, hlen, hstart, hopen]

theorem emit_ends (d : Depacketizer cap) (byMarker : Bool) :
    Ends d (d.emit byMarker).1 ((d.emit byMarker).2.map (·, d.assembled)) := by
  have hclose := Beside.closeFu d
  have hkeeps := Keeps.closeFu d
  have hbuf : d.closeFu.buf = d.buf := by
    rw [closeFu]
    split
    · rfl
    · rfl
  simp only [emit]
  split
  · exact .none hbuf hclose.cur hclose.emittedLen hkeeps.sized
  · refine ⟨hbuf, ?_, fun k hk => ?_, fun hd => ?_, fun x hx hd => ?_⟩
    · show d.closeFu.cur + 1 = _
      rw [hclose.cur]
      rfl
    · show (if k = d.closeFu.cur then _ else d.closeFu.emittedLen k) = _
      rw [hclose.cur, if_neg (hk.resolve_right (by simp)), hclose.emittedLen]
    · exact ⟨Nat.zero_le _, (hkeeps.sized hd).fuStart⟩
    · have hx' : (d.closeFu.event byMarker, d.assembled) = x := Option.some.inj hx
      subst hx'
      have hroom : d.closeFu.len ≤ (d.buf.bytes d.cur).length :=
        Nat.le_trans (hkeeps.sized hd).len (d.buf.room _)
      refine ⟨hclose.cur, ?_, ?_, (hkeeps.sized hd).len, ?_, ?_⟩
      · exact ne_next d.closeFu.cur
      · show d.closeFu.len = _
        rw [assembled, List.length_take, Nat.min_eq_left hroom]
      · exact if_pos rfl
      · show (d.closeFu.buf.bytes d.closeFu.cur).take d.closeFu.len = _
        rw [hbuf, hclose.cur]
        rfl

/-- The same behind a phase that sets flags and counters. -/
theorem emit_ends_of {d e : Depacketizer cap} (hbuf : e.buf = d.buf) (hcur : e.cur = d.cur)
    (hsize : e.emittedLen = d.emittedLen) (hlen : e.len = d.len)
    (hstart : e.fuStart = d.fuStart) (hopen : e.fuOpen = d.fuOpen) (byMarker : Bool) :
    Ends d (e.emit byMarker).1 ((e.emit byMarker).2.map (·, d.assembled)) := by
  have hemit := emit_ends e byMarker
  rw [assembled_congr hbuf hcur hlen hstart hopen] at hemit
  have hset : Ends d e none :=
    .none hbuf hcur hsize fun hd => ⟨hlen ▸ hd.len, hstart ▸ hd.fuStart⟩
  exact hset.orElse hemit (.inl rfl)

/-! ## The phases of `Push` -/

theorem advance_ends (d : Depacketizer cap) (seq : UInt16) :
    Ends d (d.advance seq).1 ((d.advance seq).2.map (·, d.assembled)) := by
  rw [advance]
  split
  · exact .none rfl rfl rfl id
  · split
    · exact .none rfl rfl rfl fun hd => ⟨hd.len, hd.fuStart⟩
    · simp only
      split
      · have hemit := emit_ends_of (d := d)
          (e := { d with seqResets := d.seqResets + 1, pendingGap := 0 })
          rfl rfl rfl rfl rfl rfl false
        exact hemit.set rfl rfl rfl fun hd => ⟨hd.len, hd.fuStart⟩
      · exact .none rfl rfl rfl fun hd => ⟨hd.len, hd.fuStart⟩

theorem advance_closed (d : Depacketizer cap) (seq : UInt16) :
    (d.advance seq).2 = none ∨ (d.advance seq).1.haveTs = false := by
  rw [advance]
  split
  · exact .inl rfl
  · split
    · exact .inl rfl
    · exact .inr rfl

theorem changeTs_ends (d : Depacketizer cap) (ts : UInt32) :
    Ends d (d.changeTs ts).1 ((d.changeTs ts).2.map (·, d.assembled)) := by
  rw [changeTs]
  split
  · exact emit_ends_of (d := d) (e := d.lostTail) rfl rfl rfl rfl rfl rfl false
  · exact .none rfl rfl rfl id

theorem endByMarker_ends (d : Depacketizer cap) (marker : UInt8) :
    Ends d (d.endByMarker marker).1 ((d.endByMarker marker).2.map (·, d.assembled)) := by
  rw [endByMarker]
  split
  · exact .none rfl rfl rfl id
  · exact (emit_ends d true).set rfl rfl rfl fun hd => ⟨Nat.zero_le _, hd.fuStart⟩

/-- `Push` once it has judged a sequence number. -/
def sequenced (d : Depacketizer cap) (seq : UInt16) : Depacketizer cap :=
  { (d.advance seq).1 with haveSeq := true, lastSeq := seq }

theorem sequenced_ends (d : Depacketizer cap) (seq : UInt16) :
    Ends d (d.sequenced seq) ((d.advance seq).2.map (·, d.assembled)) :=
  (advance_ends d seq).set rfl rfl rfl fun hd => ⟨hd.len, hd.fuStart⟩

/-- A reset leaves nothing open that a new timestamp could end. -/
theorem advance_or_changeTs (d : Depacketizer cap) (seq : UInt16) (ts : UInt32) :
    (d.advance seq).2 = none ∨ ((d.sequenced seq).changeTs ts).2 = none := by
  refine (advance_closed d seq).imp_right fun hclosed => ?_
  rw [changeTs, if_neg fun hn => ?_]
  have hopen : (d.advance seq).1.haveTs = true := hn.1
  rw [hclosed] at hopen
  cases hopen

structure Emitted (d : Depacketizer cap) (xs : List (AuEvent × List UInt8)) : Prop where
  stands : ∀ x ∈ xs, Stands d x
  apart : (xs.map fun x => x.1.buffer).Nodup
  room : xs.length ≤ 2

/-- An access unit that ended before the packet was taken stands when the packet ends
the one it was taken into. -/
theorem Stands.ends {d d' : Depacketizer cap} {x : AuEvent × List UInt8}
    {o : Option (AuEvent × List UInt8)} (hx : Stands d x) (h : Ends d d' o)
    (hnext : x.1.buffer ≠ d.cur + 1) : Stands d' x where
  apart := by
    rw [h.cur]
    split
    · exact hx.apart
    · exact hnext
  bytes := hx.bytes
  fits := hx.fits
  size := by rw [h.size _ (.inl hx.apart), hx.size]
  data := by rw [h.buf, hx.data]

theorem ne_next_next : ∀ k : Fin 3, k ≠ k + 1 + 1 := by decide

/-- A packet is taken between the end of one access unit and the end of another. -/
theorem emitted_take {d d₁ d' : Depacketizer cap} {o o' : Option (AuEvent × List UInt8)}
    {h : RtpHeader} {arrival : Int} (hd : d.Sized) (hfirst : Ends d d₁ o)
    (hlast : Ends (d₁.take h arrival) d' o') : Emitted d' (o.toList ++ o'.toList) := by
  have hextends := take_extends d₁ h arrival
  have htake := (Keeps.take d₁ h arrival).sized (hfirst.sized hd)
  have hbefore : ∀ x ∈ o, x.1.buffer = d.cur ∧ Stands d' x ∧
      x.1.buffer ≠ (d₁.take h arrival).cur := by
    intro x hx
    obtain ⟨hbuffer, hstands⟩ := hfirst.event x hx hd
    have hcur : (d₁.take h arrival).cur = d.cur + 1 := by
      rw [hextends.cur, hfirst.cur, if_neg (Option.ne_none_iff_exists'.mpr ⟨x, hx⟩)]
    refine ⟨hbuffer, (hstands.extends hextends).ends hlast ?_, ?_⟩
    · rw [hbuffer, hcur]
      exact ne_next_next d.cur
    · rw [hbuffer, hcur]
      exact ne_next d.cur
  cases o with
  | none =>
    cases o' with
    | none => exact ⟨by simp, by simp, by simp⟩
    | some y =>
      obtain ⟨-, hstands⟩ := hlast.event y rfl htake
      exact ⟨by simpa using hstands, by simp, by simp⟩
  | some x =>
    obtain ⟨-, hxstands, hxcur⟩ := hbefore x rfl
    cases o' with
    | none => exact ⟨by simpa using hxstands, by simp, by simp⟩
    | some y =>
      obtain ⟨hy, hstands⟩ := hlast.event y rfl htake
      refine ⟨by simpa using ⟨hxstands, hstands⟩, ?_, by simp⟩
      simpa [hy] using hxcur

theorem toList_or {α : Type} {o o' : Option α} (h : o = none ∨ o' = none) :
    o.toList ++ o'.toList = (o.or o').toList := by
  rcases h with rfl | rfl
  · rfl
  · cases o <;> rfl

/-- When `Push` returns. -/
theorem push_emitted {d : Depacketizer cap} (hd : d.Sized) (h : RtpHeader) (arrival : Int) :
    Keeps d (d.push h arrival).1 ∧ Emitted (d.push h arrival).1 (d.pushAssembled h arrival) := by
  rw [push, pushAssembled]
  split
  · exact ⟨.of_eq rfl rfl rfl, by simp, by simp, by simp⟩
  · have hset : Keeps d { d with accepted := true } := .of_eq rfl rfl rfl
    have hd' := hset.sized hd
    generalize hd₁ : ({ d with accepted := true } : Depacketizer cap) = d₁ at hset hd'
    have hone := advance_or_changeTs d₁ h.seq h.ts
    have hopening := (sequenced_ends d₁ h.seq).orElse (changeTs_ends (d₁.sequenced h.seq) h.ts)
      (hone.imp (fun hn => by rw [hn]; rfl) fun hn => by rw [hn]; rfl)
    have hlast := endByMarker_ends (((d₁.sequenced h.seq).changeTs h.ts).1.take h arrival) h.marker
    have hemitted := emitted_take hd' hopening hlast
    rw [← toList_or (hone.imp (congrArg (Option.map (·, d₁.assembled)))
      (congrArg (Option.map (·, (d₁.sequenced h.seq).assembled))))] at hemitted
    have htake := Keeps.take ((d₁.sequenced h.seq).changeTs h.ts).1 h arrival
    subst hd₁
    exact ⟨(hset.trans hopening.keeps).trans (htake.trans hlast.keeps), hemitted⟩

end Depacketizer

/-! ## The receive thread -/

open Depacketizer

/-- What `DecodeAu` does to the buffers; `none` is a `memset` past the end of one. -/
def decodeAu {cap : Nat} (pad : Nat) (d : Depacketizer cap) (ev : AuEvent) :
    Option (Depacketizer cap) :=
  if ev.bytes = 0 then some d
  else if h : ev.bytes + pad ≤ (d.buf.bytes ev.buffer).length then
    some { d with buf := d.buf.zero ev.buffer ev.bytes pad h }
  else none

/-- The events of the last `Push`, and how many of them are decoded. -/
structure RxState (cap : Nat) where
  depack : Depacketizer cap
  events : List (AuEvent × List UInt8)
  decoded : Nat

inductive RxAct where
  | push (h : RtpHeader) (arrival : Int)
  | decode

/-- `RxLoop` from its call of `Push` on.  `RxLoop` decodes every event before it pushes
again; a push is let come earlier, for a caller that does not decode. -/
def rxLoop {cap : Nat} (pad : Nat) (bufs : AuBuffers cap) : Machine (RxState cap) RxAct where
  init := ⟨{ buf := bufs }, [], 0⟩
  step s
    | .push h arrival => some ⟨(s.depack.push h arrival).1, s.depack.pushAssembled h arrival, 0⟩
    | .decode =>
      (s.events[s.decoded]?).bind fun x =>
        (decodeAu pad s.depack x.1).map fun d => ⟨d, s.events, s.decoded + 1⟩

section

variable {cap pad : Nat} {bufs : AuBuffers cap} {s s' : RxState cap}

structure RxInvariant (pad : Nat) (s : RxState cap) : Prop where
  sized : s.depack.Sized
  room : ∀ k, cap + pad ≤ (s.depack.buf.bytes k).length
  emitted : Emitted s.depack s.events

theorem AuBuffers.zero_length (b : AuBuffers cap) (k : Fin 3) {off pad : Nat}
    (h : off + pad ≤ (b.bytes k).length) (j : Fin 3) :
    ((b.zero k off pad h).bytes j).length = (b.bytes j).length := by
  show (if j = k then overwrite (b.bytes k) off (List.replicate pad 0) else b.bytes j).length = _
  split
  · next hj =>
    subst hj
    exact overwrite_length (by rwa [List.length_replicate])
  · rfl

/-- An event's bytes are before the padding of its own buffer, and no other event has
that buffer. -/
theorem Depacketizer.Emitted.zero {d : Depacketizer cap} {xs : List (AuEvent × List UInt8)}
    (h : Emitted d xs) {x : AuEvent × List UInt8} (hx : x ∈ xs)
    (hpad : x.1.bytes + pad ≤ (d.buf.bytes x.1.buffer).length) :
    Emitted { d with buf := d.buf.zero x.1.buffer x.1.bytes pad hpad } xs where
  stands y hy := by
    obtain ⟨hapart, hbytes, hfits, hsize, hdata⟩ := h.stands y hy
    refine ⟨hapart, hbytes, hfits, hsize, ?_⟩
    show (if y.1.buffer = x.1.buffer then overwrite (d.buf.bytes x.1.buffer) x.1.bytes
      (List.replicate pad 0) else d.buf.bytes y.1.buffer).take y.1.bytes = _
    split
    · next hsame =>
      have hxy : y = x := List.inj_on_of_nodup_map h.apart hy hx hsame
      subst hxy
      rw [overwrite_take_of_le (Nat.le_of_add_right_le hpad) (Nat.le_refl _), hdata]
    · exact hdata
  apart := h.apart
  room := h.room

theorem RxInvariant.exists_decodeAu (h : RxInvariant pad s) {x : AuEvent × List UInt8}
    (hx : x ∈ s.events) :
    ∃ d, decodeAu pad s.depack x.1 = some d ∧ RxInvariant pad ⟨d, s.events, s.decoded + 1⟩ := by
  rw [decodeAu]
  split
  · exact ⟨_, rfl, h.sized, h.room, h.emitted⟩
  · have hfits := (h.emitted.stands x hx).fits
    have hpad : x.1.bytes + pad ≤ (s.depack.buf.bytes x.1.buffer).length :=
      Nat.le_trans (Nat.add_le_add_right hfits pad) (h.room _)
    rw [dif_pos hpad]
    refine ⟨_, rfl, ⟨h.sized.len, h.sized.fuStart⟩, fun k => ?_, h.emitted.zero hx hpad⟩
    rw [AuBuffers.zero_length]
    exact h.room k

theorem rxLoop_invariant (hroom : ∀ k, cap + pad ≤ (bufs.bytes k).length)
    (h : (rxLoop pad bufs).Reachable s) : RxInvariant pad s := by
  refine Machine.Reachable.invariant ?_ (fun s a s' hi hs => ?_) h
  · exact ⟨⟨Nat.zero_le _, Nat.zero_le _⟩, hroom, by simp [rxLoop], by simp [rxLoop],
      by simp [rxLoop]⟩
  · cases a with
    | push h arrival =>
      cases hs
      obtain ⟨hkeeps, hemitted⟩ := push_emitted hi.sized h arrival
      refine ⟨hkeeps.sized hi.sized, fun k => ?_, hemitted⟩
      rw [hkeeps.length]
      exact hi.room k
    | decode =>
      obtain ⟨x, hx, hs⟩ := Option.bind_eq_some_iff.mp hs
      obtain ⟨d, hd, hinv⟩ := hi.exists_decodeAu (List.mem_of_getElem? hx)
      rw [hd] at hs
      cases hs
      exact hinv

/-- Whatever has been pushed and decoded: the events of the last call have buffers of
their own beside the one being assembled into, fit, and still hold the bytes they were
assembled from; and the next of them can be decoded. -/
theorem emitted_not_overwritten (hroom : ∀ k, cap + pad ≤ (bufs.bytes k).length)
    (h : (rxLoop pad bufs).Reachable s) :
    (s.events.map fun x => x.1.buffer).Nodup ∧
    (∀ x ∈ s.events,
      x.1.buffer ≠ s.depack.cur ∧
      x.1.bytes = x.2.length ∧
      x.1.bytes ≤ cap ∧
      s.depack.data x.1.buffer = x.2 ∧
      (s.depack.buf.bytes x.1.buffer).take x.1.bytes = x.2) ∧
    (∀ (q : RtpHeader) (arrival : Int),
      (s.depack.pushAssembled q arrival).map Prod.fst = (s.depack.push q arrival).2 ∧
      (s.depack.push q arrival).2.length ≤ 2) ∧
    (s.decoded < s.events.length → ∃ s', (rxLoop pad bufs).step s .decode = some s') := by
  have hi := rxLoop_invariant hroom h
  refine ⟨hi.emitted.apart, fun x hx => ?_, fun q arrival => ?_, fun hdecoded => ?_⟩
  · have hx := hi.emitted.stands x hx
    refine ⟨hx.apart, hx.bytes, hx.fits, ?_, hx.data⟩
    rw [Depacketizer.data, hx.size, hx.data]
  · have hfst := pushAssembled_fst s.depack q arrival
    refine ⟨hfst, ?_⟩
    rw [← hfst, List.length_map]
    exact (push_emitted hi.sized q arrival).2.room
  · have hx := List.getElem?_eq_getElem hdecoded
    obtain ⟨d, hd, -⟩ := hi.exists_decodeAu (List.mem_of_getElem? hx)
    refine ⟨⟨d, s.events, s.decoded + 1⟩, ?_⟩
    show (s.events[s.decoded]?).bind _ = _
    rw [hx, Option.bind_some, hd]
    rfl

end

def singleNal (seq : UInt16) (ts : UInt32) (marker hdr : UInt8) : RtpHeader :=
  ⟨96, marker, 0, 0, 0, seq, ts, 1, 12, 0, [hdr, 7]⟩

def paddedBuffers : AuBuffers 16 := ⟨fun _ => List.replicate 20 9, fun _ => by decide⟩

/-- A timestamp change ends one access unit and the marker another; the first is decoded. -/
def endedTwice : List RxAct :=
  [.push (singleNal 1 3000 0 0x41) 1, .push (singleNal 2 6000 1 0x65) 2, .decode]

theorem emitted_not_overwritten_endedTwice : ∃ s, (rxLoop 4 paddedBuffers).Reachable s ∧
    s.decoded = 1 ∧ s.events.map Prod.snd = [[0, 0, 0, 1, 0x41, 7], [0, 0, 0, 1, 0x65, 7]] ∧
      s.events.map (fun x => (s.depack.buf.bytes x.1.buffer).drop x.1.bytes) =
        [List.replicate 4 0 ++ List.replicate 10 9, List.replicate 14 9] ∧
      ∀ x ∈ s.events, (s.depack.buf.bytes x.1.buffer).take x.1.bytes = x.2 := by
  obtain ⟨s, hreach, hdecoded, hevents, hpadding⟩ :=
    (rxLoop 4 paddedBuffers).exists_of_execBy (G := fun _ _ => True) endedTwice
      (P := fun s => s.decoded = 1 ∧
        s.events.map Prod.snd = [[0, 0, 0, 1, 0x41, 7], [0, 0, 0, 1, 0x65, 7]] ∧
        s.events.map (fun x => (s.depack.buf.bytes x.1.buffer).drop x.1.bytes) =
          [List.replicate 4 0 ++ List.replicate 10 9, List.replicate 14 9]) (by decide)
  exact ⟨s, hreach, hdecoded, hevents, hpadding, fun x hx =>
    ((emitted_not_overwritten (fun _ => Nat.le_refl 20) hreach).2.1 x hx).2.2.2.2⟩

end P5G
