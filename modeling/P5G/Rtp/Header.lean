import Mathlib

/-!
# RTP and RTCP headers

`ParseRtp` and `IsRtcp` of rtp_util.h.  A read of a datagram is `byte`, which
the source only makes below the length it has checked.
-/

namespace P5G

def byte (d : List UInt8) (i : Nat) : UInt8 := d.getD i 0

def be16 (a b : UInt8) : UInt16 := a.toUInt16 <<< 8 ||| b.toUInt16

def be32 (a b c d : UInt8) : UInt32 :=
  a.toUInt32 <<< 24 ||| b.toUInt32 <<< 16 ||| c.toUInt32 <<< 8 ||| d.toUInt32

theorem be16_toNat (a b : UInt8) : (be16 a b).toNat = a.toNat * 256 + b.toNat := by
  have ha := a.toNat_lt
  have hlt : a.toNat <<< 8 < 2 ^ 16 := by rw [Nat.shiftLeft_eq]; omega
  have hshift : (a.toUInt16 <<< 8).toNat = a.toNat <<< 8 := by
    rw [UInt16.toNat_shiftLeft, UInt8.toNat_toUInt16]
    exact Nat.mod_eq_of_lt hlt
  rw [be16, UInt16.toNat_or, hshift, UInt8.toNat_toUInt16,
    ← Nat.shiftLeft_add_eq_or_of_lt b.toNat_lt, Nat.shiftLeft_eq]

structure RtpHeader where
  pt : UInt8
  marker : UInt8
  cc : UInt8
  x : UInt8
  p : UInt8
  seq : UInt16
  ts : UInt32
  ssrc : UInt32
  hdrLen : Nat
  padLen : Nat
  payload : List UInt8
  deriving DecidableEq

/-- The length of the header with its CSRC list and extension, `none` where the
extension's own header does not fit. -/
def rtpHdrLen (d : List UInt8) : Option Nat :=
  let len := 12 + 4 * (byte d 0 &&& 0x0f).toNat
  if byte d 0 >>> 4 &&& 1 = 0 then some len
  else if d.length < len + 4 then none
  else some (len + 4 + 4 * (be16 (byte d (len + 2)) (byte d (len + 3))).toNat)

def rtpPadLen (d : List UInt8) : Nat :=
  if byte d 0 >>> 5 &&& 1 = 0 then 0 else (byte d (d.length - 1)).toNat

/-- `ParseRtp`, `none` where it returns false. -/
def parseRtp (d : List UInt8) : Option RtpHeader :=
  if d.length < 12 ∨ byte d 0 >>> 6 ≠ 2 then none
  else
    (rtpHdrLen d).bind fun len =>
      if d.length < len ∨ d.length - len < rtpPadLen d then none
      else
        some
          { pt := byte d 1 &&& 0x7f
            marker := byte d 1 >>> 7
            cc := byte d 0 &&& 0x0f
            x := byte d 0 >>> 4 &&& 1
            p := byte d 0 >>> 5 &&& 1
            seq := be16 (byte d 2) (byte d 3)
            ts := be32 (byte d 4) (byte d 5) (byte d 6) (byte d 7)
            ssrc := be32 (byte d 8) (byte d 9) (byte d 10) (byte d 11)
            hdrLen := len
            padLen := rtpPadLen d
            payload := (d.drop len).take (d.length - len - rtpPadLen d) }

def isRtcp (d : List UInt8) : Bool :=
  4 ≤ d.length ∧ byte d 0 >>> 6 = 2 ∧ 200 ≤ byte d 1 ∧ byte d 1 ≤ 206

/-- What an accepted datagram says in its fixed header. -/
theorem parseRtp_fixed {d : List UInt8} {h : RtpHeader} (hp : parseRtp d = some h) :
    12 ≤ d.length ∧ byte d 0 >>> 6 = 2 ∧ h.pt = byte d 1 &&& 0x7f ∧ h.marker = byte d 1 >>> 7 ∧
      h.seq = be16 (byte d 2) (byte d 3) ∧
      h.ts = be32 (byte d 4) (byte d 5) (byte d 6) (byte d 7) ∧
      h.ssrc = be32 (byte d 8) (byte d 9) (byte d 10) (byte d 11) := by
  rw [parseRtp] at hp
  split at hp
  · cases hp
  · next hfirst =>
    rw [not_or, Nat.not_lt, not_not] at hfirst
    obtain ⟨len, -, hp⟩ := Option.bind_eq_some_iff.mp hp
    split at hp
    · cases hp
    · cases hp
      exact ⟨hfirst.1, hfirst.2, rfl, rfl, rfl, rfl, rfl⟩

/-- Header, payload and padding tile an accepted datagram. -/
theorem parseRtp_length {d : List UInt8} {h : RtpHeader} (hp : parseRtp d = some h) :
    h.hdrLen + h.payload.length + h.padLen = d.length := by
  rw [parseRtp] at hp
  split at hp
  · cases hp
  · obtain ⟨len, -, hp⟩ := Option.bind_eq_some_iff.mp hp
    split at hp
    · cases hp
    · cases hp
      simp only [List.length_take, List.length_drop]
      omega

end P5G
