import P5G.Rtp.Header

/-!
# Compound RTCP packets

`IsValidRtcpCompoundFrom` of the gstreamer tree's gst_util.h, and the three
tolerant walkers that fill a trace row: `FillRtcpRow` of the gstreamer and of the
ffmpeg tree, `FillRtcp` of the webrtc tree.  A read outside the buffer is `none`,
so that a result is a proof that there was none.
-/

namespace P5G
namespace Rtcp

def load (d : List UInt8) (i : Nat) : Option UInt8 := d[i]?

def lengthField (d : List UInt8) (off : Nat) : Option Nat :=
  (load d (off + 2)).bind fun a => (load d (off + 3)).map fun b => (be16 a b).toNat

def ssrcField (d : List UInt8) (off : Nat) : Option UInt32 :=
  (load d (off + 4)).bind fun a => (load d (off + 5)).bind fun b =>
    (load d (off + 6)).bind fun c => (load d (off + 7)).map fun e => be32 a b c e

def rtcpMinBody (pt : UInt8) (count : Nat) : Nat :=
  if pt = 200 then 28 + 24 * count
  else if pt = 201 then 8 + 24 * count
  else if pt = 202 then 4 + 8 * count
  else if pt = 203 then 4 + 4 * count
  else if pt = 204 ∨ pt = 205 ∨ pt = 206 then 12
  else 0

/-- The padding octets of a packet, `some none` where the loop breaks. -/
def padding (d : List UInt8) (off len : Nat) (padded : Bool) : Option (Option Nat) :=
  if padded then
    if off + len ≠ d.length then some none
    else
      (load d (off + len - 1)).map fun pad =>
        if pad = 0 ∨ len - 4 < pad.toNat then none else some pad.toNat
  else some (some 0)

def leads (d : List UInt8) (ssrc : UInt32) (off idx : Nat) (pt : UInt8) : Option Bool :=
  if idx ≠ 0 then some true
  else if pt ≠ 200 ∧ pt ≠ 201 then some false
  else (ssrcField d off).map fun s => s = ssrc

/-- One turn of the loop: the length field of a packet that passes, `some none`
where the loop breaks. -/
def checkPacket (d : List UInt8) (ssrc : UInt32) (off idx : Nat) : Option (Option Nat) :=
  (load d off).bind fun p0 =>
    if p0 >>> 6 ≠ 2 then some none
    else
      (load d (off + 1)).bind fun pt => (lengthField d off).bind fun words =>
        let len := (words + 1) * 4
        if len < 4 ∨ d.length < off + len then some none
        else
          (padding d off len (p0 &&& 0x20 ≠ 0)).bind fun
            | none => some none
            | some pad =>
              let body := len - pad
              let minBody := rtcpMinBody pt (p0 &&& 0x1f).toNat
              if minBody = 0 ∨ body < minBody then some none
              else if (pt = 200 ∨ pt = 201) ∧ body ≠ minBody then some none
              else (leads d ssrc off idx pt).map fun ok => if ok then some words else none

/-- The loop of `IsValidRtcpCompoundFrom` from `off` on, at packet `idx`. -/
def validFrom (d : List UInt8) (ssrc : UInt32) (off idx : Nat) (ok : Bool) : Option Bool :=
  if off + 4 ≤ d.length then
    match checkPacket d ssrc off idx with
    | none => none
    | some none => some false
    | some (some words) => validFrom d ssrc (off + (words + 1) * 4) (idx + 1) (idx = 0 || ok)
  else some (if off ≠ d.length then false else ok)
termination_by d.length - off
decreasing_by omega

def isValidRtcpCompoundFrom (d : List UInt8) (ssrc : UInt32) : Option Bool :=
  validFrom d ssrc 0 0 false

/-- A row of a tx-rtcp or rx-rtcp trace.  `parts` is what the first `num_parts`
entries of `pt` and `fmt` hold. -/
structure RtcpRow where
  logMonoNs : Int
  logWallNs : Int
  dir : UInt8
  bytes : Nat
  senderSsrc : UInt32
  parts : List (UInt8 × UInt8)
  deriving DecidableEq

/-- The loop of both `FillRtcpRow`s from `off` on. -/
def fillParts (max : Nat) (d : List UInt8) (off : Nat) (r : RtcpRow) : Option RtcpRow :=
  if off + 4 ≤ d.length ∧ r.parts.length < max then
    (load d off).bind fun p0 =>
      if p0 >>> 6 ≠ 2 then some r
      else
        (load d (off + 1)).bind fun pt =>
          match lengthField d off with
          | none => none
          | some words =>
            if d.length < off + (words + 1) * 4 then some r
            else
              (if r.parts = [] ∧ 8 ≤ (words + 1) * 4 then
                (ssrcField d off).map fun s => { r with senderSsrc := s }
              else some r).bind fun r =>
                fillParts max d (off + (words + 1) * 4)
                  { r with parts := r.parts ++ [(pt, p0 &&& 0x1f)] }
  else some r
termination_by d.length - off
decreasing_by omega

def fillRtcpRow (max : Nat) (d : List UInt8) (dir : UInt8) (mono wall : Int) : Option RtcpRow :=
  fillParts max d 0 ⟨mono, wall, dir, d.length, 0, []⟩

namespace Gstreamer

def maxRtcpParts : Nat := 8

def fillRtcpRow (d : List UInt8) (dir : UInt8) (mono wall : Int) : Option RtcpRow :=
  Rtcp.fillRtcpRow maxRtcpParts d dir mono wall

end Gstreamer

namespace Ffmpeg

def maxRtcpParts : Nat := 8

def fillRtcpRow (d : List UInt8) (dir : UInt8) (mono wall : Int) : Option RtcpRow :=
  Rtcp.fillRtcpRow maxRtcpParts d dir mono wall

end Ffmpeg

namespace Webrtc

def maxRtcpParts : Nat := 6

/-- The loop of `FillRtcp` from `off` on.  It has no test of the version, and
none that the packet ends inside the buffer. -/
def fillParts (d : List UInt8) (off : Nat) (r : RtcpRow) : Option RtcpRow :=
  if off + 4 ≤ d.length ∧ r.parts.length < maxRtcpParts then
    (load d off).bind fun p0 => (load d (off + 1)).bind fun pt =>
      match lengthField d off with
      | none => none
      | some words =>
        fillParts d (off + (words * 4 + 4)) { r with parts := r.parts ++ [(pt, p0 &&& 0x1f)] }
  else some r
termination_by d.length - off
decreasing_by omega

def fillRtcp (r : RtcpRow) (d : List UInt8) : Option RtcpRow :=
  (if 8 ≤ d.length then
    (ssrcField d 0).map fun s => { r with bytes := d.length, senderSsrc := s }
  else some { r with bytes := d.length }).bind (fillParts d 0)

end Webrtc

end Rtcp
end P5G
