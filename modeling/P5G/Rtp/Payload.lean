import P5G.Rtp.Losses

/-!
# Payloads of any content

What a payload says, read on its own, and what it does to an assembly: the
depacketizer without conformity of the sender, as long as its buffer has room.
A payload that conforms to RFC 6184 is a `Piece`, and does what the piece does.
-/

namespace P5G

/-- One payload: the NAL units that it carries whole, up to where a STAP-A is
malformed, or one fragment with the NAL unit header that it reconstructs. -/
inductive Payload
  | empty
  | nals (units : List (List UInt8)) (torn : Bool)
  | fragment (hdr : UInt8) (start last : Bool) (bytes : List UInt8)
  | foreign

namespace Payload

def stapUnits : Nat → List UInt8 → List (List UInt8) × Bool
  | 0, _ => ([], false)
  | _ + 1, [] => ([], false)
  | _ + 1, [_] => ([], true)
  | fuel + 1, a :: b :: rest =>
    let sz := (be16 a b).toNat
    if sz = 0 ∨ rest.length < sz then ([], true)
    else
      let r := stapUnits fuel (rest.drop sz)
      (rest.take sz :: r.1, r.2)

def ofBytes : List UInt8 → Payload
  | [] => .empty
  | b :: rest =>
    if 1 ≤ nalType b ∧ nalType b ≤ 23 then .nals [b :: rest] false
    else if nalType b = 24 then
      .nals (stapUnits rest.length rest).1 (stapUnits rest.length rest).2
    else if nalType b = 28 then
      match rest with
      | [] => .foreign
      | fu :: bytes =>
        .fragment (b &&& 0xe0 ||| fu &&& 0x1f) (fu >>> 7 != 0) (fu >>> 6 &&& 1 != 0) bytes
    else .foreign

def units : Payload → List (List UInt8)
  | nals us _ => us
  | _ => []

def damages : Payload → Bool
  | nals _ torn => torn
  | foreign => true
  | _ => false

end Payload

/-- The header that an FU-A start reconstructs has the type of the FU header. -/
theorem nalType_rebuilt (indicator fu : UInt8) :
    nalType (indicator &&& 0xe0 ||| fu &&& 0x1f) = fu &&& 0x1f := by
  have hbits : nalType (indicator &&& 0xe0 ||| fu &&& 0x1f) =
      (indicator &&& (0xe0 &&& 0x1f)) ||| (fu &&& (0x1f &&& 0x1f)) := by
    rw [← UInt8.and_assoc, ← UInt8.and_assoc, nalType]
    apply UInt8.toBitVec_inj.1
    simp only [UInt8.toBitVec_and, UInt8.toBitVec_or]
    exact BitVec.and_or_distrib_right
  have hzero : (0xe0 : UInt8) &&& 0x1f = 0 := by decide
  rw [hbits, hzero, UInt8.and_self, UInt8.and_zero, UInt8.zero_or]

namespace Assembly

def unit (a : Assembly) (u : List UInt8) : Assembly :=
  { a.append (startCode ++ u) with idr := a.idr || nalType (byte u 0) == 5 }

def openUnit (a : Assembly) (hdr : UInt8) : Assembly :=
  { a.closeFu with
    fu := some (startCode ++ [hdr]), orphan := false, idr := a.idr || nalType hdr == 5 }

def payload (a : Assembly) : Payload → Assembly
  | .empty => a
  | .nals us _ => us.foldl unit { a with orphan := false }
  | .fragment hdr start last bytes => (if start then a.openUnit hdr else a).continueFu last bytes
  | .foreign => a

theorem unit_length (a : Assembly) (u : List UInt8) :
    (a.unit u).bytes.length = a.bytes.length + (4 + u.length) := by
  have h := a.append_length (startCode ++ u)
  rw [List.length_append] at h
  exact h

theorem units_length (us : List (List UInt8)) (a : Assembly) :
    a.bytes.length ≤ (us.foldl unit a).bytes.length := by
  induction us generalizing a with
  | nil => exact Nat.le_refl _
  | cons u us ih =>
    have hu := a.unit_length u
    have hrest := ih (a.unit u)
    rw [List.foldl_cons]
    omega

theorem continueFu_room {a : Assembly} {o : List UInt8} (h : a.fu = some o) (last : Bool)
    (fragment : List UInt8) :
    (a.continueFu last fragment).bytes.length = a.bytes.length + fragment.length := by
  rw [continueFu_some h]
  cases last with
  | false => simp [bytes, h, Nat.add_assoc]
  | true => simp [bytes, h, Nat.add_assoc]

theorem units_nals (ns : List Nal) (a : Assembly) :
    (ns.map Nal.bytes).foldl unit a = ns.foldl nal a := by
  rw [List.foldl_map]
  rfl

end Assembly

theorem stapUnits_flatMap (ns : List Nal) (hsizes : ∀ n ∈ ns, n.bytes.length < 2 ^ 16)
    {fuel : Nat} (hfuel : (ns.flatMap stapUnit).length ≤ fuel) :
    Payload.stapUnits fuel (ns.flatMap stapUnit) = (ns.map Nal.bytes, false) := by
  induction ns generalizing fuel with
  | nil =>
    cases fuel with
    | zero => rfl
    | succ fuel => rfl
  | cons n ns ih =>
    have hunit : (n :: ns).flatMap stapUnit = UInt8.ofNat (n.bytes.length / 256) ::
        UInt8.ofNat n.bytes.length :: (n.bytes ++ ns.flatMap stapUnit) := rfl
    rw [hunit] at hfuel ⊢
    cases fuel with
    | zero => simp at hfuel
    | succ fuel =>
      have hpos : n.bytes.length ≠ 0 := by simp [Nal.bytes]
      have hrest : (ns.flatMap stapUnit).length ≤ fuel := by
        simp only [List.length_cons, List.length_append] at hfuel
        omega
      rw [Payload.stapUnits]
      simp only [be16_size (hsizes n List.mem_cons_self), hpos, List.length_append, false_or,
        Nat.not_lt.mpr (Nat.le_add_right _ _), ↓reduceIte, List.take_left, List.drop_left,
        ih (fun m hm => hsizes m (List.mem_cons_of_mem n hm)) hrest, List.map_cons]

def Piece.content : Piece → Payload
  | single n => .nals [n.bytes] false
  | stapA g => .nals (g.nals.map Nal.bytes) false
  | fuA n start last fragment => .fragment n.hdr start last fragment

theorem Piece.ofBytes_payload (p : Piece) : Payload.ofBytes p.payload = p.content := by
  cases p with
  | single n =>
    simp only [Piece.payload, Nal.bytes, Payload.ofBytes, n.type_pos, n.type_le, and_self,
      ↓reduceIte]
    rfl
  | stapA g =>
    have hdec : ¬(1 ≤ (24 : UInt8) ∧ (24 : UInt8) ≤ 23) := by decide
    simp only [Piece.payload, Payload.ofBytes, g.stapA, hdec, ↓reduceIte,
      stapUnits_flatMap g.nals g.sizes (Nat.le_refl _)]
    rfl
  | fuA n start last fragment =>
    have hdec : ¬(1 ≤ (28 : UInt8) ∧ (28 : UInt8) ≤ 23) := by decide
    have hne : (28 : UInt8) ≠ 24 := by decide
    have hstart : (fuHeader n start last >>> 7 != 0) = start := by
      have h := fuHeader_start n start last
      cases start with
      | false => simp [h.mpr rfl]
      | true => simpa using fun hz => absurd (h.mp hz) (by decide)
    simp only [Piece.payload, Payload.ofBytes, nalType_fuIndicator, hdec, hne, ↓reduceIte,
      fuHeader_type, fuIndicator_hdr, fuHeader_last, hstart]
    rfl

theorem Assembly.payload_content (a : Assembly) (p : Piece) : a.payload p.content = a.piece p := by
  cases p with
  | single n =>
    obtain ⟨whole, fu, -⟩ := a
    cases fu <;> rfl
  | stapA g => exact units_nals g.nals { a with orphan := false }
  | fuA n start last fragment => rfl

namespace Depacketizer

variable {cap : Nat}

/-- An append that finds room does not look at `damaged_`. -/
theorem append_setDamaged (d : Depacketizer cap) (b : Bool) {p : List UInt8}
    (hroom : d.len + p.length ≤ cap) :
    ({ d with damaged := b } : Depacketizer cap).append p = { d.append p with damaged := b } := by
  rw [append, append, dif_pos hroom, dif_pos hroom]

theorem append_damaged (d : Depacketizer cap) {p : List UInt8} (hroom : d.len + p.length ≤ cap) :
    (d.append p).damaged = d.damaged := by
  rw [append, dif_pos hroom]

theorem append_len (d : Depacketizer cap) {p : List UInt8} (hroom : d.len + p.length ≤ cap) :
    (d.append p).len = d.len + p.length := by
  rw [append, dif_pos hroom]

/-- `d` holds `a`, but for the damage that it has seen. -/
structure Carries (d : Depacketizer cap) (a : Assembly) (damaged : Bool) : Prop where
  holds : Holds { d with damaged := false } a
  damaged : d.damaged = damaged

namespace Carries

variable {d : Depacketizer cap} {a : Assembly} {b : Bool}

theorem len (h : Carries d a b) : d.len = a.bytes.length := h.holds.len

theorem damage (h : Carries d a b) (c : Bool) : Carries { d with damaged := c } a c :=
  ⟨h.holds, rfl⟩

theorem setOrphan (h : Carries d a b) (o : Bool) :
    Carries { d with orphan := o } { a with orphan := o } b :=
  ⟨h.holds.setOrphan o, h.damaged⟩

theorem append (h : Carries d a b) {p : List UInt8} (hroom : d.len + p.length ≤ cap) :
    Carries (d.append p) (a.append p) b := by
  refine ⟨?_, (append_damaged d hroom).trans h.damaged⟩
  rw [← append_setDamaged d false hroom]
  exact h.holds.append hroom

theorem append_append (h : Carries d a b) {p q : List UInt8}
    (hroom : d.len + (p ++ q).length ≤ cap) :
    Carries ((d.append p).append q) (a.append (p ++ q)) b := by
  rw [List.length_append] at hroom
  have hp : d.len + p.length ≤ cap := by omega
  rw [← Assembly.append_append]
  refine (h.append hp).append ?_
  rw [append_len d hp]
  omega

theorem unit (h : Carries d a b) {u : List UInt8} (hroom : d.len + (4 + u.length) ≤ cap) :
    Carries (d.appendNal u) (a.unit u) b := by
  have happ : Carries (d.appendStartCode.append u) (a.append (startCode ++ u)) b :=
    h.append_append (by rw [List.length_append]; exact hroom)
  have hidr : (d.appendStartCode.append u).idr = a.idr :=
    happ.holds.idr.trans (a.append_idr _)
  rw [Depacketizer.appendNal]
  by_cases h5 : nalType (byte u 0) = 5
  · rw [if_pos h5]
    exact ⟨{ happ.holds with idr := by simp [Assembly.unit, h5] }, happ.damaged⟩
  · rw [if_neg h5]
    exact ⟨{ happ.holds with idr := by simp [Assembly.unit, h5, hidr] }, happ.damaged⟩

theorem stapA (fuel : Nat) {bs : List UInt8} (h : Carries d a b)
    (hroom : ((Payload.stapUnits fuel bs).1.foldl Assembly.unit a).bytes.length ≤ cap) :
    Carries (Depacketizer.stapA fuel d bs) ((Payload.stapUnits fuel bs).1.foldl Assembly.unit a)
      (b || (Payload.stapUnits fuel bs).2) := by
  induction fuel generalizing bs d a with
  | zero => exact ⟨h.holds, h.damaged.trans (Bool.or_false b).symm⟩
  | succ fuel ih =>
    match bs with
    | [] => exact ⟨h.holds, h.damaged.trans (Bool.or_false b).symm⟩
    | [_] => exact ⟨h.holds, (Bool.or_true b).symm⟩
    | x :: y :: rest =>
      rw [Payload.stapUnits] at hroom ⊢
      rw [Depacketizer.stapA]
      by_cases hbad : (be16 x y).toNat = 0 ∨ rest.length < (be16 x y).toNat
      · simp only [if_pos hbad]
        exact ⟨h.holds, (Bool.or_true b).symm⟩
      · simp only [if_neg hbad, List.foldl_cons] at hroom ⊢
        refine ih (h.unit ?_) hroom
        have hlen := Assembly.units_length
          (Payload.stapUnits fuel (rest.drop (be16 x y).toNat)).1
          (a.unit (rest.take (be16 x y).toNat))
        rw [Assembly.unit_length] at hlen
        rw [h.len]
        exact Nat.le_trans hlen hroom

theorem closeFu (h : Carries d a b) : Carries d.closeFu a.closeFu b := by
  have hclose := h.holds.closeFu
  by_cases hopen : d.fuOpen = true
  · rw [Depacketizer.closeFu, if_pos hopen] at hclose ⊢
    exact ⟨hclose, h.damaged⟩
  · rw [Depacketizer.closeFu, if_neg hopen] at hclose ⊢
    exact ⟨hclose, h.damaged⟩

theorem openUnit (h : Carries d a b) {indicator fu : UInt8}
    (hroom : (a.openUnit (indicator &&& 0xe0 ||| fu &&& 0x1f)).bytes.length ≤ cap) :
    Carries (d.startFu indicator fu) (a.openUnit (indicator &&& 0xe0 ||| fu &&& 0x1f)) b := by
  have hclose := h.closeFu
  have hclosed : Carries { d.closeFu with fuStart := d.closeFu.len, orphan := false }
      { a.closeFu with orphan := false } b :=
    ⟨{ hclose.holds with
        fuStart := fun ho => by simp [a.closeFu_fu] at ho
        orphan := rfl }, hclose.damaged⟩
  generalize hdr : indicator &&& 0xe0 ||| fu &&& 0x1f = hd at hroom
  have hfive : (fu &&& 0x1f == 5) = (nalType hd == 5) := by rw [← hdr, nalType_rebuilt]
  have hroom' : d.closeFu.len + (startCode ++ [hd]).length ≤ cap := by
    refine Nat.le_trans (Nat.le_of_eq ?_) hroom
    have hwhole : a.closeFu.whole = a.whole := by rw [Assembly.closeFu]; split <;> rfl
    rw [hclose.len, Assembly.closeFu_bytes, ← hwhole, ← List.length_append]
    rfl
  have happ := hclosed.append_append hroom'
  have hidr := happ.holds.idr
  rw [Assembly.append_idr] at hidr
  have hfu := hclosed.holds.openFu a.closeFu_fu rfl hroom' (a.idr || nalType hd == 5)
  rw [append_setDamaged _ false (by
      rw [List.length_append] at hroom'
      exact Nat.le_trans (Nat.add_le_add_left (Nat.le_add_right _ _) _) hroom')] at hfu
  rw [append_setDamaged _ false (by
      rw [append_len _ (by
        rw [List.length_append] at hroom'
        exact Nat.le_trans (Nat.add_le_add_left (Nat.le_add_right _ _) _) hroom')]
      rw [List.length_append, ← Nat.add_assoc] at hroom'
      exact hroom')] at hfu
  rw [Depacketizer.startFu, hdr, hfive]
  refine ⟨?_, happ.damaged⟩
  have hi : ((({ d.closeFu with fuStart := d.closeFu.len, orphan := false } :
      Depacketizer cap).append startCode).append [hd]).idr = a.idr :=
    hidr.trans a.closeFu_idr
  simp only [appendStartCode, hi]
  exact hfu

theorem continueFu (h : Carries d a b) {last : Bool} {fragment : List UInt8}
    (hroom : (a.continueFu last fragment).bytes.length ≤ cap) :
    Carries (d.continueFu last fragment) (a.continueFu last fragment) b := by
  cases hfu : a.fu with
  | none =>
    have hopen : ¬d.fuOpen = true := by
      have ho : d.fuOpen = a.fu.isSome := h.holds.fuOpen
      simp [ho, hfu]
    rw [Depacketizer.continueFu, if_neg hopen, Assembly.continueFu_none hfu]
    have horphan : d.orphan = a.orphan := h.holds.orphan
    have hfrag : d.lostFrag = a.lostFrag := h.holds.lostFrag
    exact ⟨{ h.holds with
      orphan := rfl
      lostFrag := by simp only [horphan, hfrag] }, h.damaged⟩
  | some o =>
    have hroom' : d.len + fragment.length ≤ cap := by
      rw [Assembly.continueFu_room hfu] at hroom
      rw [h.len]
      exact hroom
    have hopen : d.fuOpen = true := by
      have ho : d.fuOpen = a.fu.isSome := h.holds.fuOpen
      simp [ho, hfu]
    have hc := @Holds.continueFu _ _ _ h.holds last _ hroom'
    rw [Depacketizer.continueFu, if_pos hopen, append_setDamaged d false hroom'] at hc
    rw [Depacketizer.continueFu, if_pos hopen]
    exact ⟨hc, (append_damaged d hroom').trans h.damaged⟩

theorem fragment (h : Carries d a b) {indicator fu : UInt8} {bytes : List UInt8}
    (hroom : (a.payload (.fragment (indicator &&& 0xe0 ||| fu &&& 0x1f) (fu >>> 7 != 0)
      (fu >>> 6 &&& 1 != 0) bytes)).bytes.length ≤ cap) :
    Carries (d.fuA indicator fu bytes) (a.payload (.fragment (indicator &&& 0xe0 ||| fu &&& 0x1f)
      (fu >>> 7 != 0) (fu >>> 6 &&& 1 != 0) bytes)) b := by
  rw [Depacketizer.fuA]
  by_cases hs : fu >>> 7 = 0
  · have hs' : (fu >>> 7 != 0) = false := by simpa using hs
    rw [hs', Assembly.payload, if_neg Bool.false_ne_true] at hroom ⊢
    rw [if_pos hs]
    exact h.continueFu hroom
  · have hs' : (fu >>> 7 != 0) = true := by simpa using hs
    rw [hs', Assembly.payload, if_pos rfl] at hroom ⊢
    rw [if_neg hs]
    have ho : (a.openUnit (indicator &&& 0xe0 ||| fu &&& 0x1f)).fu =
        some (startCode ++ [indicator &&& 0xe0 ||| fu &&& 0x1f]) := rfl
    refine (h.openUnit ?_).continueFu hroom
    rw [Assembly.continueFu_room ho] at hroom
    omega

theorem single (h : Carries d a b) {u : List UInt8}
    (hroom : (a.payload (.nals [u] false)).bytes.length ≤ cap) :
    Carries { d.appendNal u with orphan := false } (a.payload (.nals [u] false)) b := by
  have hlen : (a.payload (.nals [u] false)).bytes.length = a.bytes.length + (4 + u.length) :=
    Assembly.unit_length { a with orphan := false } u
  have hu : d.len + (4 + u.length) ≤ cap := by
    rw [h.len]
    omega
  have hswap : ({ a.unit u with orphan := false } : Assembly) = a.payload (.nals [u] false) := by
    obtain ⟨whole, fu, -⟩ := a
    cases fu <;> rfl
  rw [← hswap]
  exact (h.unit hu).setOrphan false

/-- One payload, whatever its bytes. -/
theorem payload (h : Carries d a b) {bs : List UInt8}
    (hroom : (a.payload (Payload.ofBytes bs)).bytes.length ≤ cap) :
    Carries (d.payload bs) (a.payload (Payload.ofBytes bs))
      (b || (Payload.ofBytes bs).damages) := by
  have hfine : ∀ {d' : Depacketizer cap} {a' : Assembly}, Carries d' a' b →
      Carries d' a' (b || false) := fun {d' a'} h' => (Bool.or_false b).symm ▸ h'
  have hbad : Carries { d with damaged := true } a (b || true) :=
    (Bool.or_true b).symm ▸ h.damage true
  cases bs with
  | nil => exact hfine h
  | cons x rest =>
    simp only [Depacketizer.payload]
    by_cases hsingle : 1 ≤ nalType x ∧ nalType x ≤ 23
    · have hP : Payload.ofBytes (x :: rest) = .nals [x :: rest] false := if_pos hsingle
      rw [hP] at hroom ⊢
      rw [if_pos hsingle]
      exact hfine (h.single hroom)
    · by_cases hstap : nalType x = 24
      · have hP : Payload.ofBytes (x :: rest) = .nals (Payload.stapUnits rest.length rest).1
            (Payload.stapUnits rest.length rest).2 := (if_neg hsingle).trans (if_pos hstap)
        rw [hP] at hroom ⊢
        rw [if_neg hsingle, if_pos hstap]
        exact (h.setOrphan false).stapA rest.length hroom
      · rw [if_neg hsingle, if_neg hstap]
        by_cases hfu : nalType x = 28
        · rw [if_pos hfu]
          cases rest with
          | nil =>
            have hP : Payload.ofBytes [x] = .foreign :=
              (if_neg hsingle).trans ((if_neg hstap).trans (if_pos hfu))
            rw [hP]
            exact hbad
          | cons fu bytes =>
            have hP : Payload.ofBytes (x :: fu :: bytes) = .fragment (x &&& 0xe0 ||| fu &&& 0x1f)
                (fu >>> 7 != 0) (fu >>> 6 &&& 1 != 0) bytes :=
              (if_neg hsingle).trans ((if_neg hstap).trans (if_pos hfu))
            rw [hP] at hroom ⊢
            exact hfine (h.fragment hroom)
        · have hP : Payload.ofBytes (x :: rest) = .foreign :=
            (if_neg hsingle).trans ((if_neg hstap).trans (if_neg hfu))
          rw [if_neg hfu, hP]
          exact hbad

end Carries

end Depacketizer

end P5G
