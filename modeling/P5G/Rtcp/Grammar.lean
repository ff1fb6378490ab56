import P5G.Rtcp.Compound

/-!
# The grammar of compound packets

What a valid compound packet is, said of its packets: each has the length its
header gives and the size its type asks for, only the last is padded, and the
first is a report of the sender.  `IsValidRtcpCompoundFrom` recognises exactly
these, and reads nothing else on the way.
-/

namespace P5G
namespace Rtcp

/-- The P bit. -/
def Padded (p : List UInt8) : Prop := byte p 0 &&& 0x20 ≠ 0

instance (p : List UInt8) : Decidable (Padded p) := inferInstanceAs (Decidable (_ ≠ _))

/-- RC, SC or FMT. -/
def count (p : List UInt8) : Nat := (byte p 0 &&& 0x1f).toNat

def words (p : List UInt8) : Nat := (be16 (byte p 2) (byte p 3)).toNat

def ssrc (p : List UInt8) : UInt32 := be32 (byte p 4) (byte p 5) (byte p 6) (byte p 7)

def padCount (p : List UInt8) : Nat := if Padded p then (byte p (p.length - 1)).toNat else 0

def body (p : List UInt8) : Nat := p.length - padCount p

/-- What the type and the count ask of the length. -/
def Sized (pt : UInt8) (count body : Nat) : Prop :=
  pt = 200 ∧ body = 28 + 24 * count ∨ pt = 201 ∧ body = 8 + 24 * count ∨
    pt = 202 ∧ 4 + 8 * count ≤ body ∨ pt = 203 ∧ 4 + 4 * count ≤ body ∨
    (pt = 204 ∨ pt = 205 ∨ pt = 206) ∧ 12 ≤ body

structure Packet (p : List UInt8) : Prop where
  length : p.length = 4 * (words p + 1)
  version : byte p 0 >>> 6 = 2
  padding : Padded p → 1 ≤ padCount p ∧ padCount p ≤ p.length - 4
  sized : Sized (byte p 1) (count p) (body p)

def ReportOf (s : UInt32) (p : List UInt8) : Prop :=
  (byte p 1 = 200 ∨ byte p 1 = 201) ∧ ssrc p = s

structure Compound (s : UInt32) (ps : List (List UInt8)) : Prop where
  nonempty : ps ≠ []
  packets : ∀ p ∈ ps, Packet p
  unpadded : ∀ p ∈ ps.dropLast, ¬Padded p
  report : ∀ p ∈ ps.head?, ReportOf s p

theorem load_eq {d p rest : List UInt8} {off : Nat} (hd : d.drop off = p ++ rest) {i : Nat}
    (hi : i < p.length) : load d (off + i) = some (byte p i) := by
  rw [load, ← List.getElem?_drop, hd, List.getElem?_append_left hi, byte,
    List.getD_eq_getElem?_getD, List.getElem?_eq_getElem hi, Option.getD_some]

theorem lengthField_eq {d p rest : List UInt8} {off : Nat} (hd : d.drop off = p ++ rest)
    (hp : 4 ≤ p.length) : lengthField d off = some (words p) := by
  rw [lengthField, load_eq hd (by omega), load_eq hd (by omega)]
  rfl

theorem ssrcField_eq {d p rest : List UInt8} {off : Nat} (hd : d.drop off = p ++ rest)
    (hp : 8 ≤ p.length) : ssrcField d off = some (ssrc p) := by
  rw [ssrcField, load_eq hd (by omega), load_eq hd (by omega), load_eq hd (by omega),
    load_eq hd (by omega)]
  rfl

theorem length_of_drop {d p rest : List UInt8} {off : Nat} (hd : d.drop off = p ++ rest)
    (hoff : off ≤ d.length) : d.length = off + p.length + rest.length := by
  have hlen := congrArg List.length hd
  rw [List.length_drop, List.length_append] at hlen
  omega

/-! ## One packet -/

theorem sized_iff (pt : UInt8) (count body : Nat) : Sized pt count body ↔
    rtcpMinBody pt count ≠ 0 ∧ rtcpMinBody pt count ≤ body ∧
      (pt = 200 ∨ pt = 201 → body = rtcpMinBody pt count) := by
  rw [rtcpMinBody, Sized]
  by_cases h200 : pt = 200
  · subst h200
    simp
    omega
  by_cases h201 : pt = 201
  · subst h201
    simp
    omega
  by_cases h202 : pt = 202
  · subst h202
    simp
  by_cases h203 : pt = 203
  · subst h203
    simp
  by_cases hother : pt = 204 ∨ pt = 205 ∨ pt = 206
  · simp [h200, h201, h202, h203, hother]
  · simp [h200, h201, h202, h203, hother]

/-- A packet is at least as long as its type asks for, and eight octets where
its SSRC is read. -/
theorem eight_le_of_sized {pt : UInt8} {count body : Nat} (h : Sized pt count body)
    (hpt : pt = 200 ∨ pt = 201) : 8 ≤ body := by
  rcases hpt with rfl | rfl
  · rcases h with ⟨-, h⟩ | ⟨h, -⟩ | ⟨h, -⟩ | ⟨h, -⟩ | ⟨h | h | h, -⟩
    · omega
    all_goals exact absurd h (by decide)
  · rcases h with ⟨h, -⟩ | ⟨-, h⟩ | ⟨h, -⟩ | ⟨h, -⟩ | ⟨h | h | h, -⟩
    · exact absurd h (by decide)
    · omega
    all_goals exact absurd h (by decide)

variable {d p rest : List UInt8} {s : UInt32} {off idx : Nat}

theorem padding_eq (hd : d.drop off = p ++ rest) (hoff : off ≤ d.length) (hp : 4 ≤ p.length) :
    Rtcp.padding d off p.length (byte p 0 &&& 0x20 ≠ 0) = some
      (if Padded p ∧ (rest ≠ [] ∨ padCount p = 0 ∨ p.length - 4 < padCount p) then none
        else some (padCount p)) := by
  have hlen := length_of_drop hd hoff
  by_cases hpad : Padded p
  · have hbit : (byte p 0 &&& 0x20 ≠ 0) = True := eq_true hpad
    have hcount : padCount p = (byte p (p.length - 1)).toNat := if_pos hpad
    have hzero : byte p (p.length - 1) = 0 ↔ (byte p (p.length - 1)).toNat = 0 := by
      rw [← UInt8.toNat_inj]
      rfl
    have hlast : load d (off + p.length - 1) = some (byte p (p.length - 1)) := by
      rw [Nat.add_sub_assoc (by omega)]
      exact load_eq hd (by omega)
    have hrest : off + p.length ≠ d.length ↔ rest ≠ [] := by
      rw [← List.length_pos_iff]
      omega
    rw [Rtcp.padding, hlast]
    simp only [hbit, decide_true, if_true, hrest, hzero, Option.map_some, hpad, true_and, hcount]
    by_cases hr : rest = []
    · simp [hr]
    · simp [hr]
  · have hbit : (byte p 0 &&& 0x20 ≠ 0) = False := eq_false hpad
    have hcount : padCount p = 0 := if_neg hpad
    rw [Rtcp.padding]
    simp [hbit, hpad, hcount]

theorem leads_eq (s : UInt32) (idx : Nat) (hd : d.drop off = p ++ rest)
    (hsized : Sized (byte p 1) (count p) (body p)) :
    ∃ b, leads d s off idx (byte p 1) = some b ∧ (b = true ↔ (idx = 0 → ReportOf s p)) := by
  rw [leads]
  by_cases hidx : idx = 0
  · by_cases hpt : byte p 1 = 200 ∨ byte p 1 = 201
    · have height : 8 ≤ p.length := Nat.le_trans (eight_le_of_sized hsized hpt) (Nat.sub_le _ _)
      have hnot : ¬(byte p 1 ≠ 200 ∧ byte p 1 ≠ 201) := by
        rw [not_and_or, not_not, not_not]
        exact hpt
      refine ⟨decide (ssrc p = s), ?_, ?_⟩
      · rw [if_neg (not_not.mpr hidx), if_neg hnot, ssrcField_eq hd height]
        rfl
      · simp [hidx, ReportOf, hpt]
    · refine ⟨false, ?_, ?_⟩
      · rw [if_neg (not_not.mpr hidx), if_pos (not_or.mp hpt)]
      · simp [hidx, ReportOf, hpt]
  · exact ⟨true, if_pos hidx, by simp [hidx]⟩

structure Passes (s : UInt32) (idx : Nat) (p rest : List UInt8) : Prop where
  packet : Packet p
  last : Padded p → rest = []
  report : idx = 0 → ReportOf s p

theorem checkPacket_eq (s : UInt32) (idx : Nat) (hd : d.drop off = p ++ rest)
    (hoff : off ≤ d.length) (hwords : p.length = 4 * (words p + 1)) :
    (checkPacket d s off idx = some none ∧ ¬Passes s idx p rest) ∨
      (checkPacket d s off idx = some (some (words p)) ∧ Passes s idx p rest) := by
  have hlen := length_of_drop hd hoff
  have hsize : (words p + 1) * 4 = p.length := by omega
  have hfits : ¬(p.length < 4 ∨ d.length < off + p.length) := by omega
  have hzero := load_eq hd (i := 0) (by omega)
  rw [Nat.add_zero] at hzero
  rw [checkPacket, hzero]
  simp only [Option.bind_some]
  by_cases hversion : byte p 0 >>> 6 = 2
  · rw [if_neg (not_not.mpr hversion), load_eq hd (by omega), lengthField_eq hd (by omega)]
    simp only [Option.bind_some, hsize]
    rw [if_neg hfits, padding_eq hd hoff (by omega)]
    by_cases hpad : Padded p ∧ (rest ≠ [] ∨ padCount p = 0 ∨ p.length - 4 < padCount p)
    · left
      rw [if_pos hpad]
      refine ⟨rfl, fun h => ?_⟩
      have hrest := h.last hpad.1
      have hcount := h.packet.padding hpad.1
      rcases hpad.2 with hne | hnone | hmore
      · exact hne hrest
      · omega
      · omega
    · rw [if_neg hpad]
      simp only [Option.bind_some]
      by_cases hsized : Sized (byte p 1) (count p) (body p)
      · obtain ⟨hmin, hle, hexact⟩ := (sized_iff _ _ _).mp hsized
        obtain ⟨b, hleads, hb⟩ := leads_eq s idx hd hsized
        have hlarge : ¬(rtcpMinBody (byte p 1) (count p) = 0 ∨
            body p < rtcpMinBody (byte p 1) (count p)) := by omega
        have hequal : ¬((byte p 1 = 200 ∨ byte p 1 = 201) ∧
            body p ≠ rtcpMinBody (byte p 1) (count p)) := fun h => h.2 (hexact h.1)
        have hpacket : Packet p := by
          refine ⟨hwords, hversion, fun hp => ?_, hsized⟩
          have hright := not_and.mp hpad hp
          rw [not_or, not_or] at hright
          omega
        have hlast : Padded p → rest = [] := by
          intro hp
          by_contra hne
          exact hpad ⟨hp, .inl hne⟩
        rw [count] at hlarge hequal
        rw [body] at hlarge hequal
        rw [if_neg hlarge, if_neg hequal, hleads]
        cases b with
        | false => exact .inl ⟨rfl, fun h => absurd (hb.mpr h.report) (by decide)⟩
        | true => exact .inr ⟨rfl, hpacket, hlast, hb.mp rfl⟩
      · left
        have hnot := mt (sized_iff _ _ _).mpr hsized
        refine ⟨?_, fun h => hsized h.packet.sized⟩
        rw [count] at hnot
        rw [body] at hnot
        split
        · rfl
        · split
          · rfl
          · refine absurd ⟨?_, ?_, ?_⟩ hnot
            · omega
            · omega
            · tauto
  · exact .inl ⟨if_pos hversion, fun h => hversion h.packet.version⟩

/-- A packet that reaches beyond the buffer ends the loop. -/
theorem checkPacket_beyond {q : List UInt8} (hd : d.drop off = q) (hq : 4 ≤ q.length)
    (hbeyond : d.length < off + 4 * (words q + 1)) : checkPacket d s off idx = some none := by
  have hd' : d.drop off = q ++ [] := by rw [hd, List.append_nil]
  have hzero := load_eq hd' (i := 0) (by omega)
  rw [Nat.add_zero] at hzero
  have hlong : (words q + 1) * 4 < 4 ∨ d.length < off + (words q + 1) * 4 := by omega
  rw [checkPacket, hzero]
  simp only [Option.bind_some]
  by_cases hversion : byte q 0 >>> 6 = 2
  · rw [if_neg (not_not.mpr hversion), load_eq hd' (by omega), lengthField_eq hd' (by omega)]
    simp only [Option.bind_some]
    exact if_pos hlong
  · exact if_pos hversion

theorem byte_append {i : Nat} (hi : i < p.length) : byte (p ++ rest) i = byte p i := by
  rw [byte, byte, List.getD_eq_getElem?_getD, List.getD_eq_getElem?_getD,
    List.getElem?_append_left hi]

theorem words_append (hp : 4 ≤ p.length) : words (p ++ rest) = words p := by
  rw [words, byte_append (by omega), byte_append (by omega)]
  rfl

theorem Packet.four_le (h : Packet p) : 4 ≤ p.length := by
  have := h.length
  omega

/-- What is left of a compound packet after its first `idx` packets. -/
structure Rest (s : UInt32) (idx : Nat) (ps : List (List UInt8)) : Prop where
  packets : ∀ p ∈ ps, Packet p
  unpadded : ∀ p ∈ ps.dropLast, ¬Padded p
  nonempty : idx = 0 → ps ≠ []
  report : idx = 0 → ∀ p ∈ ps.head?, ReportOf s p

variable {ps : List (List UInt8)}

theorem compound_iff_rest : Compound s ps ↔ Rest s 0 ps := by
  constructor
  · intro h
    exact ⟨h.packets, h.unpadded, fun _ => h.nonempty, fun _ => h.report⟩
  · intro h
    exact ⟨h.nonempty rfl, h.packets, h.unpadded, h.report rfl⟩

theorem eq_nil_of_flatten (h : ∀ p ∈ ps, Packet p) (hnil : ps.flatten = []) : ps = [] := by
  cases ps with
  | nil => rfl
  | cons p ps =>
    have hp := (h p List.mem_cons_self).four_le
    rw [List.flatten_cons, List.append_eq_nil_iff] at hnil
    rw [hnil.1] at hp
    exact absurd hp (by decide)

/-- The first packet is where its length field says. -/
theorem exists_first (h : ∀ p ∈ ps, Packet p) (hne : ps.flatten ≠ []) :
    ∃ p ps', ps = p :: ps' ∧ Packet p ∧ ps.flatten = p ++ ps'.flatten ∧
      p.length = 4 * (words ps.flatten + 1) := by
  cases ps with
  | nil => exact absurd rfl hne
  | cons p ps =>
    have hp := h p List.mem_cons_self
    refine ⟨p, ps, rfl, hp, List.flatten_cons, ?_⟩
    rw [List.flatten_cons, words_append hp.four_le]
    exact hp.length

theorem Rest.passes (h : Rest s idx (p :: ps)) : Passes s idx p ps.flatten := by
  refine ⟨h.packets p List.mem_cons_self, fun hpad => ?_, fun hidx => ?_⟩
  · cases ps with
    | nil => rfl
    | cons q ps => exact absurd hpad (h.unpadded p List.mem_cons_self)
  · exact h.report hidx p rfl

theorem rest_cons (hp : Passes s idx p ps.flatten) :
    Rest s idx (p :: ps) ↔ Rest s (idx + 1) ps := by
  constructor
  · intro h
    refine ⟨fun q hq => h.packets q (List.mem_cons_of_mem _ hq), fun q hq => ?_,
      fun hidx => absurd hidx (Nat.succ_ne_zero _), fun hidx => absurd hidx (Nat.succ_ne_zero _)⟩
    refine h.unpadded q ?_
    rw [List.dropLast_cons_of_ne_nil (List.ne_nil_of_mem (List.dropLast_subset _ hq))]
    exact List.mem_cons_of_mem _ hq
  · intro h
    refine ⟨?_, ?_, fun _ => List.cons_ne_nil _ _, fun hidx q hq => ?_⟩
    · intro q hq
      rcases List.mem_cons.mp hq with rfl | hq
      · exact hp.packet
      · exact h.packets q hq
    · intro q hq
      by_cases hps : ps = []
      · rw [hps] at hq
        cases hq
      · rw [List.dropLast_cons_of_ne_nil hps] at hq
        rcases List.mem_cons.mp hq with rfl | hq
        · exact fun hpad => hps (eq_nil_of_flatten h.packets (hp.last hpad))
        · exact h.unpadded q hq
    · obtain rfl : p = q := by simpa using hq
      exact hp.report hidx

/-- Nothing is left behind the last packet. -/
theorem rest_nil_iff : (∃ ps, [] = ps.flatten ∧ Rest s idx ps) ↔ idx ≠ 0 := by
  constructor
  · rintro ⟨ps, hps, hrest⟩ hidx
    exact hrest.nonempty hidx (eq_nil_of_flatten hrest.packets hps.symm)
  · intro hidx
    exact ⟨[], rfl, ⟨fun _ h => absurd h List.not_mem_nil, fun _ h => absurd h List.not_mem_nil,
      fun h => absurd h hidx, fun h => absurd h hidx⟩⟩

/-- A packet that would reach beyond the end. -/
theorem not_rest_beyond {l : List UInt8} (hne : l ≠ []) (hlen : l.length < 4 * (words l + 1)) :
    ¬∃ ps, l = ps.flatten ∧ Rest s idx ps := by
  rintro ⟨ps, rfl, hrest⟩
  obtain ⟨p, ps', -, -, hsplit, hfirst⟩ := exists_first hrest.packets hne
  have hall := congrArg List.length hsplit
  rw [List.length_append] at hall
  omega

/-- The packet in front is the first of any compound packet. -/
theorem exists_rest_cons (hlen : p.length = 4 * (words p + 1)) (hps : p ++ rest = ps.flatten)
    (hrest : Rest s idx ps) : ∃ ps', ps = p :: ps' ∧ rest = ps'.flatten := by
  have hne : ps.flatten ≠ [] := by
    rw [← hps, ← List.length_pos_iff, List.length_append]
    omega
  obtain ⟨p', ps', rfl, -, hsplit, hlen'⟩ := exists_first hrest.packets hne
  rw [← hps] at hsplit
  rw [← hps, words_append (by omega), ← hlen] at hlen'
  obtain ⟨rfl, hrest'⟩ := List.append_inj hsplit hlen'.symm
  exact ⟨ps', rfl, hrest'⟩

theorem rest_append_iff (hlen : p.length = 4 * (words p + 1)) (hpasses : Passes s idx p rest) :
    (∃ ps, rest = ps.flatten ∧ Rest s (idx + 1) ps) ↔
      ∃ ps, p ++ rest = ps.flatten ∧ Rest s idx ps := by
  constructor
  · rintro ⟨ps, rfl, hps⟩
    exact ⟨p :: ps, rfl, (rest_cons hpasses).mpr hps⟩
  · rintro ⟨ps, hps, hall⟩
    obtain ⟨ps', rfl, rfl⟩ := exists_rest_cons hlen hps hall
    exact ⟨ps', rfl, (rest_cons hpasses).mp hall⟩

theorem not_rest_append (hlen : p.length = 4 * (words p + 1)) (hnot : ¬Passes s idx p rest) :
    ¬∃ ps, p ++ rest = ps.flatten ∧ Rest s idx ps := by
  rintro ⟨ps, hps, hrest⟩
  obtain ⟨ps', rfl, rfl⟩ := exists_rest_cons hlen hps hrest
  exact hnot hrest.passes

/-- The packet that the length field at `off` tells of. -/
theorem exists_packet (hfits : off + 4 * (words (d.drop off) + 1) ≤ d.length) :
    ∃ p rest, d.drop off = p ++ rest ∧ p.length = 4 * (words p + 1) := by
  obtain ⟨p, rest, hd, hlen⟩ : ∃ p rest, d.drop off = p ++ rest ∧
      p.length = 4 * (words (d.drop off) + 1) := by
    refine ⟨_, _, (List.take_append_drop (4 * (words (d.drop off) + 1)) _).symm, ?_⟩
    rw [List.length_take, List.length_drop]
    omega
  have hwords : words (d.drop off) = words p := by
    rw [hd, words_append (by omega)]
  exact ⟨p, rest, hd, hwords ▸ hlen⟩

theorem validFrom_eq (d : List UInt8) (s : UInt32) (off idx : Nat) (hoff : off ≤ d.length) :
    ∃ b, validFrom d s off idx (decide (idx ≠ 0)) = some b ∧
      (b = true ↔ ∃ ps, d.drop off = ps.flatten ∧ Rest s idx ps) := by
  induction hn : d.length - off using Nat.strong_induction_on generalizing off idx with
  | _ n ih =>
    have hdrop : (d.drop off).length = d.length - off := List.length_drop
    rw [validFrom]
    by_cases hhead : off + 4 ≤ d.length
    · rw [if_pos hhead]
      by_cases hfits : off + 4 * (words (d.drop off) + 1) ≤ d.length
      · obtain ⟨p, rest, hd, hlen⟩ := exists_packet hfits
        rcases checkPacket_eq s idx hd hoff hlen with ⟨hstop, hnot⟩ | ⟨hgo, hpasses⟩
        · rw [hstop, hd]
          refine ⟨false, rfl, ⟨fun h => absurd h (by decide), fun h => ?_⟩⟩
          exact absurd h (not_rest_append hlen hnot)
        · have hend := length_of_drop hd hoff
          have hnext : off + (words p + 1) * 4 = off + p.length := by omega
          have hrest : d.drop (off + p.length) = rest := by
            rw [← List.drop_drop, hd, List.drop_left]
          have hok : (decide (idx = 0) || decide (idx ≠ 0)) = decide (idx + 1 ≠ 0) := by
            by_cases hidx : idx = 0 <;> simp [hidx]
          obtain ⟨b, hb, hiff⟩ := ih (d.length - (off + p.length)) (by omega) (off + p.length)
            (idx + 1) (by omega) rfl
          rw [hgo]
          refine ⟨b, ?_, ?_⟩
          · dsimp only
            rw [hnext, hok, hb]
          · rw [hiff, hrest, hd]
            exact rest_append_iff hlen hpasses
      · rw [checkPacket_beyond rfl (by omega) (by omega)]
        have hne : d.drop off ≠ [] := by
          rw [← List.length_pos_iff]
          omega
        refine ⟨false, rfl, ⟨fun h => absurd h (by decide), fun h => ?_⟩⟩
        exact absurd h (not_rest_beyond hne (by omega))
    · rw [if_neg hhead]
      by_cases hend : off = d.length
      · rw [if_neg (not_not.mpr hend)]
        refine ⟨_, rfl, ?_⟩
        rw [decide_eq_true_eq, hend, List.drop_length]
        exact rest_nil_iff.symm
      · rw [if_pos hend]
        have hne : d.drop off ≠ [] := by
          rw [← List.length_pos_iff]
          omega
        refine ⟨false, rfl, ⟨fun h => absurd h (by decide), fun h => ?_⟩⟩
        exact absurd h (not_rest_beyond hne (by omega))

theorem isValid_eq (d : List UInt8) (s : UInt32) : ∃ b, isValidRtcpCompoundFrom d s = some b ∧
    (b = true ↔ ∃ ps, d = ps.flatten ∧ Compound s ps) := by
  obtain ⟨b, hb, hiff⟩ := validFrom_eq d s 0 0 (Nat.zero_le _)
  refine ⟨b, hb, hiff.trans ?_⟩
  rw [List.drop_zero]
  exact exists_congr fun ps => and_congr_right fun _ => compound_iff_rest.symm

/-- The validator reads only the buffer, and accepts the compound packets. -/
theorem valid_iff_compound (d : List UInt8) (s : UInt32) :
    isValidRtcpCompoundFrom d s ≠ none ∧
      (isValidRtcpCompoundFrom d s = some true ↔ ∃ ps, d = ps.flatten ∧ Compound s ps) := by
  obtain ⟨b, hb, hiff⟩ := isValid_eq d s
  rw [hb]
  refine ⟨Option.some_ne_none b, ?_⟩
  rw [Option.some_inj]
  exact hiff

end Rtcp
end P5G
