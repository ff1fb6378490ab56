import P5G.Rtcp.Grammar

/-!
# What the walkers record

The tolerant walkers stop at different places on a malformed buffer.  On a
compound packet each records its packets one after the other, as many as its row
has room for, and on no buffer does one read beyond the end.
-/

namespace P5G
namespace Rtcp

def part (p : List UInt8) : UInt8 × UInt8 := (byte p 1, byte p 0 &&& 0x1f)

/-- What the first eight bytes of a compound packet give as its sender. -/
theorem Compound.first {s : UInt32} {ps : List (List UInt8)} (h : Compound s ps) :
    ∃ p rest, ps = p :: rest ∧ Packet p ∧ 8 ≤ p.length ∧ ssrc p = s := by
  obtain ⟨p, rest, rfl⟩ := List.exists_cons_of_ne_nil h.nonempty
  obtain ⟨hpt, hssrc⟩ := h.report p rfl
  have hp := h.packets p List.mem_cons_self
  exact ⟨p, rest, rfl, hp, Nat.le_trans (eight_le_of_sized hp.sized hpt) (Nat.sub_le _ _), hssrc⟩

/-- How a walker goes on once it has recorded a packet. -/
structure Walks (max : Nat) (d : List UInt8) (walk : Nat → RtcpRow → Option RtcpRow) : Prop where
  turn : ∀ {off : Nat} {r : RtcpRow} {p rest : List UInt8}, d.drop off = p ++ rest →
    off ≤ d.length → Packet p → r.parts ≠ [] → r.parts.length < max →
    walk off r = walk (off + p.length) { r with parts := r.parts ++ [part p] }
  full : ∀ (off : Nat) (r : RtcpRow), max ≤ r.parts.length → walk off r = some r
  stop : ∀ r : RtcpRow, walk d.length r = some r

theorem Walks.rest {max : Nat} {d : List UInt8} {walk : Nat → RtcpRow → Option RtcpRow}
    (h : Walks max d walk) {ps : List (List UInt8)} (hps : ∀ p ∈ ps, Packet p) {off : Nat}
    (hoff : off ≤ d.length) (hd : d.drop off = ps.flatten) {r : RtcpRow} (hr : r.parts ≠ []) :
    walk off r =
      some { r with parts := r.parts ++ (ps.map part).take (max - r.parts.length) } := by
  induction ps generalizing off r with
  | nil =>
    have hend : off = d.length := by
      rw [List.flatten_nil, List.drop_eq_nil_iff] at hd
      omega
    rw [hend, h.stop]
    simp
  | cons p ps ih =>
    rw [List.flatten_cons] at hd
    by_cases hroom : r.parts.length < max
    · have hlen := length_of_drop hd hoff
      have hrest : d.drop (off + p.length) = ps.flatten := by
        rw [← List.drop_drop, hd, List.drop_left]
      obtain ⟨room, hroom'⟩ : ∃ room, max - r.parts.length = room + 1 :=
        Nat.exists_eq_add_one_of_ne_zero (by omega)
      have hless : max - (r.parts.length + 1) = room := by omega
      rw [h.turn hd hoff (hps p List.mem_cons_self) hr hroom,
        ih (fun q hq => hps q (List.mem_cons_of_mem _ hq)) (by omega) hrest (by simp)]
      simp [hroom', hless]
    · rw [h.full off r (by omega), Nat.sub_eq_zero_of_le (by omega)]
      simp

variable {max : Nat} {d p rest : List UInt8} {off : Nat} {r : RtcpRow}

theorem fillParts_turn (hd : d.drop off = p ++ rest) (hoff : off ≤ d.length) (hp : Packet p)
    (hroom : r.parts.length < max) : fillParts max d off r =
      (if r.parts = [] ∧ 8 ≤ p.length then some { r with senderSsrc := ssrc p } else some r).bind
        fun r => fillParts max d (off + p.length) { r with parts := r.parts ++ [part p] } := by
  have hlen := length_of_drop hd hoff
  have hfour := hp.four_le
  have hsize : (words p + 1) * 4 = p.length := by
    have := hp.length
    omega
  have hzero := load_eq hd (i := 0) (by omega)
  rw [Nat.add_zero] at hzero
  have hssrc : (if r.parts = [] ∧ 8 ≤ p.length then
        (ssrcField d off).map fun s => { r with senderSsrc := s } else some r) =
      if r.parts = [] ∧ 8 ≤ p.length then some { r with senderSsrc := ssrc p } else some r := by
    by_cases h : r.parts = [] ∧ 8 ≤ p.length
    · rw [if_pos h, if_pos h, ssrcField_eq hd h.2]
      rfl
    · rw [if_neg h, if_neg h]
  rw [fillParts, if_pos ⟨by omega, hroom⟩, hzero, load_eq hd (by omega), lengthField_eq hd hfour]
  simp only [Option.bind_some, hsize]
  rw [if_neg (not_not.mpr hp.version), if_neg (by omega), hssrc]
  rfl

theorem fillParts_stop (h : ¬(off + 4 ≤ d.length ∧ r.parts.length < max)) :
    fillParts max d off r = some r := by
  rw [fillParts, if_neg h]

theorem fillParts_walks (max : Nat) (d : List UInt8) : Walks max d (fillParts max d) where
  turn hd hoff hp hr hroom := by
    rw [fillParts_turn hd hoff hp hroom, if_neg fun h => hr h.1]
    rfl
  full off r h := fillParts_stop (by omega)
  stop r := fillParts_stop (by omega)

/-- On every buffer the reads are inside. -/
theorem fillParts_isSome (max : Nat) (d : List UInt8) (off : Nat) (r : RtcpRow) :
    (fillParts max d off r).isSome := by
  induction hn : d.length - off using Nat.strong_induction_on generalizing off r with
  | _ n ih =>
    by_cases h : off + 4 ≤ d.length ∧ r.parts.length < max
    · have hd : d.drop off = d.drop off ++ [] := (List.append_nil _).symm
      have hfour : 4 ≤ (d.drop off).length := by
        rw [List.length_drop]
        omega
      have hzero := load_eq hd (i := 0) (by omega)
      rw [Nat.add_zero] at hzero
      rw [fillParts, if_pos h, hzero, load_eq hd (by omega), lengthField_eq hd hfour]
      simp only [Option.bind_some]
      split
      · rfl
      · split
        · rfl
        · next hfits =>
          split
          · next hfirst =>
            rw [ssrcField_eq hd (by rw [List.length_drop]; omega)]
            exact ih _ (by omega) _ _ rfl
          · exact ih _ (by omega) _ _ rfl
    · rw [fillParts_stop h]
      rfl

def RtcpRow.walked (r : RtcpRow) : List (UInt8 × UInt8) × UInt32 := (r.parts, r.senderSsrc)

/-- The stamps of a row play no part in the walk. -/
theorem fillParts_congr (max : Nat) (d : List UInt8) (off : Nat) {r r' : RtcpRow}
    (h : r.walked = r'.walked) :
    (fillParts max d off r).map RtcpRow.walked = (fillParts max d off r').map RtcpRow.walked := by
  induction hn : d.length - off using Nat.strong_induction_on generalizing off r r' with
  | _ n ih =>
    obtain ⟨hparts, hssrc⟩ := Prod.mk.inj h
    rw [fillParts, fillParts, hparts]
    by_cases hgo : off + 4 ≤ d.length ∧ r'.parts.length < max
    · rw [if_pos hgo, if_pos hgo]
      cases load d off with
      | none => rfl
      | some p0 =>
        simp only [Option.bind_some]
        split
        · exact congrArg some h
        · cases load d (off + 1) with
          | none => rfl
          | some pt =>
            simp only [Option.bind_some]
            cases lengthField d off with
            | none => rfl
            | some w =>
              dsimp only
              split
              · exact congrArg some h
              · split
                · cases ssrcField d off with
                  | none => rfl
                  | some s => exact ih _ (by omega) _ rfl rfl
                · exact ih _ (by omega) _ (by simp only [RtcpRow.walked, hparts, hssrc]) rfl
    · rw [if_neg hgo, if_neg hgo]
      exact congrArg some h

/-- A row of a compound packet: its sender and its first packets. -/
theorem fillRtcpRow_compound {s : UInt32} {ps : List (List UInt8)} (h : Compound s ps)
    (hmax : 0 < max) (dir : UInt8) (mono wall : Int) :
    fillRtcpRow max ps.flatten dir mono wall =
      some ⟨mono, wall, dir, ps.flatten.length, s, (ps.map part).take max⟩ := by
  obtain ⟨p, rest, rfl, hp, height, rfl⟩ := h.first
  have hd : (p :: rest).flatten.drop 0 = p ++ rest.flatten := rfl
  have hrest : (p :: rest).flatten.drop p.length = rest.flatten := by
    rw [List.flatten_cons, List.drop_left]
  have hle : p.length ≤ (p :: rest).flatten.length := by
    rw [List.flatten_cons, List.length_append]
    omega
  have hpackets : ∀ q ∈ rest, Packet q := fun q hq => h.packets q (List.mem_cons_of_mem _ hq)
  obtain ⟨room, rfl⟩ := Nat.exists_eq_add_one_of_ne_zero (Nat.pos_iff_ne_zero.mp hmax)
  rw [fillRtcpRow, fillParts_turn hd (Nat.zero_le _) hp hmax, if_pos ⟨rfl, height⟩,
    Option.bind_some, Nat.zero_add,
    (fillParts_walks _ _).rest hpackets hle hrest (by simp)]
  simp

namespace Webrtc

theorem fillParts_turn (hd : d.drop off = p ++ rest) (hoff : off ≤ d.length) (hp : Packet p)
    (hroom : r.parts.length < maxRtcpParts) : fillParts d off r =
      fillParts d (off + p.length) { r with parts := r.parts ++ [part p] } := by
  have hlen := length_of_drop hd hoff
  have hfour := hp.four_le
  have hsize : words p * 4 + 4 = p.length := by
    have := hp.length
    omega
  have hzero := load_eq hd (i := 0) (by omega)
  rw [Nat.add_zero] at hzero
  rw [fillParts, if_pos ⟨by omega, hroom⟩, hzero, load_eq hd (by omega), lengthField_eq hd hfour]
  simp only [Option.bind_some, hsize]
  rfl

theorem fillParts_stop (h : ¬(off + 4 ≤ d.length ∧ r.parts.length < maxRtcpParts)) :
    fillParts d off r = some r := by
  rw [fillParts, if_neg h]

theorem fillParts_walks (d : List UInt8) : Walks maxRtcpParts d (fillParts d) where
  turn hd hoff hp _ hroom := fillParts_turn hd hoff hp hroom
  full off r h := fillParts_stop (by omega)
  stop r := fillParts_stop (by omega)

theorem fillParts_isSome (d : List UInt8) (off : Nat) (r : RtcpRow) :
    (fillParts d off r).isSome := by
  induction hn : d.length - off using Nat.strong_induction_on generalizing off r with
  | _ n ih =>
    by_cases h : off + 4 ≤ d.length ∧ r.parts.length < maxRtcpParts
    · have hd : d.drop off = d.drop off ++ [] := (List.append_nil _).symm
      have hfour : 4 ≤ (d.drop off).length := by
        rw [List.length_drop]
        omega
      have hzero := load_eq hd (i := 0) (by omega)
      rw [Nat.add_zero] at hzero
      rw [fillParts, if_pos h, hzero, load_eq hd (by omega), lengthField_eq hd hfour]
      exact ih _ (by omega) _ _ rfl
    · rw [fillParts_stop h]
      rfl

theorem fillRtcp_isSome (r : RtcpRow) (d : List UInt8) : (fillRtcp r d).isSome := by
  rw [fillRtcp]
  split
  · next height =>
    rw [ssrcField_eq (List.append_nil (d.drop 0)).symm height]
    exact fillParts_isSome _ _ _
  · exact fillParts_isSome _ _ _

theorem fillParts_compound {s : UInt32} {ps : List (List UInt8)} (h : Compound s ps)
    (hr : r.parts = []) : fillParts ps.flatten 0 r =
      some { r with parts := (ps.map part).take maxRtcpParts } := by
  obtain ⟨p, rest, rfl, hp, -, -⟩ := h.first
  have hd : (p :: rest).flatten.drop 0 = p ++ rest.flatten := rfl
  have hrest : (p :: rest).flatten.drop p.length = rest.flatten := by
    rw [List.flatten_cons, List.drop_left]
  have hle : p.length ≤ (p :: rest).flatten.length := by
    rw [List.flatten_cons, List.length_append]
    omega
  have hpackets : ∀ q ∈ rest, Packet q := fun q hq => h.packets q (List.mem_cons_of_mem _ hq)
  have hroom : r.parts.length < maxRtcpParts := by
    rw [hr]
    decide
  rw [fillParts_turn hd (Nat.zero_le _) hp hroom, Nat.zero_add,
    (fillParts_walks _).rest hpackets hle hrest (by simp)]
  simp [hr, maxRtcpParts]

theorem fillRtcp_compound {s : UInt32} {ps : List (List UInt8)} (h : Compound s ps)
    (hr : r.parts = []) : fillRtcp r ps.flatten =
      some { r with bytes := ps.flatten.length, senderSsrc := s,
                    parts := (ps.map part).take maxRtcpParts } := by
  obtain ⟨p, rest, rfl, -, height, rfl⟩ := h.first
  have hd : (p :: rest).flatten.drop 0 = p ++ rest.flatten := rfl
  have hlong : 8 ≤ (p :: rest).flatten.length := by
    rw [List.flatten_cons, List.length_append]
    omega
  rw [fillRtcp, if_pos hlong, ssrcField_eq hd height, Option.map_some, Option.bind_some]
  exact fillParts_compound h hr

end Webrtc

/-- On a buffer that the validator accepts, all three walkers record the sender
and the packets up to their own limit.  On any buffer none reads outside, and the
two `FillRtcpRow`s record the same. -/
theorem walkers_agree (d : List UInt8) :
    (∀ s, isValidRtcpCompoundFrom d s = some true → ∃ ps, d = ps.flatten ∧ Compound s ps ∧
      (∀ dir mono wall,
        Gstreamer.fillRtcpRow d dir mono wall =
          some ⟨mono, wall, dir, d.length, s, (ps.map part).take Gstreamer.maxRtcpParts⟩ ∧
        Ffmpeg.fillRtcpRow d dir mono wall =
          some ⟨mono, wall, dir, d.length, s, (ps.map part).take Ffmpeg.maxRtcpParts⟩) ∧
      ∀ r : RtcpRow, r.parts = [] → Webrtc.fillRtcp r d =
        some { r with bytes := d.length, senderSsrc := s,
                      parts := (ps.map part).take Webrtc.maxRtcpParts }) ∧
      (∀ dir mono wall, Gstreamer.fillRtcpRow d dir mono wall ≠ none ∧
        Ffmpeg.fillRtcpRow d dir mono wall ≠ none) ∧
      (∀ r, Webrtc.fillRtcp r d ≠ none) ∧
      ∀ dir mono wall dir' mono' wall',
        (Gstreamer.fillRtcpRow d dir mono wall).map RtcpRow.walked =
          (Ffmpeg.fillRtcpRow d dir' mono' wall').map RtcpRow.walked := by
  refine ⟨fun s hvalid => ?_, fun dir mono wall => ⟨?_, ?_⟩, fun r => ?_, ?_⟩
  · obtain ⟨b, hb, hiff⟩ := isValid_eq d s
    rw [hb, Option.some_inj] at hvalid
    obtain ⟨ps, rfl, hps⟩ := hiff.mp hvalid
    exact ⟨ps, rfl, hps,
      fun dir mono wall => ⟨fillRtcpRow_compound hps (by decide) dir mono wall,
        fillRtcpRow_compound hps (by decide) dir mono wall⟩,
      fun r hr => Webrtc.fillRtcp_compound hps hr⟩
  · exact Option.isSome_iff_ne_none.mp (fillParts_isSome _ _ _ _)
  · exact Option.isSome_iff_ne_none.mp (fillParts_isSome _ _ _ _)
  · exact Option.isSome_iff_ne_none.mp (Webrtc.fillRtcp_isSome r d)
  · intro dir mono wall dir' mono' wall'
    exact fillParts_congr _ d 0 rfl

def reportAndBye : List UInt8 := [0x80, 201, 0, 1, 0, 0, 0, 7, 0x81, 203, 0, 1, 0, 0, 0, 7]

theorem walkers_agree_reportAndBye :
    ∃ ps, reportAndBye = ps.flatten ∧ Compound 7 ps ∧
      (∀ dir mono wall,
        Gstreamer.fillRtcpRow reportAndBye dir mono wall =
          some ⟨mono, wall, dir, 16, 7, (ps.map part).take 8⟩ ∧
        Ffmpeg.fillRtcpRow reportAndBye dir mono wall =
          some ⟨mono, wall, dir, 16, 7, (ps.map part).take 8⟩) ∧
      ∀ r : RtcpRow, r.parts = [] → Webrtc.fillRtcp r reportAndBye =
        some { r with bytes := 16, senderSsrc := 7, parts := (ps.map part).take 6 } :=
  (walkers_agree reportAndBye).1 7 (by decide +kernel)

end Rtcp
end P5G
