import P5G.Rtp.AccessUnits

/-!
# The rungs of the ffmpeg sender

`LoadRungs` of video_sender.cc with what it has checked kept as fields, and the
content timeline: which frame a slot carries and where it sits in the file.
Opening and mapping a file are left out, and so is the trial decode.
-/

namespace P5G
namespace Sender

open AnnexB

/-- An item of `--source` with the bytes of its file. -/
structure Source where
  path : String
  kbps : Int
  data : List UInt8

/-- A rung whose first access unit is an IDR. -/
structure Rung where
  path : String
  kbps : Int
  aus : List AccessUnit
  idr : (aus.head?.any AccessUnit.isIdr) = true

def Rung.idrs (r : Rung) : List Bool := r.aus.map AccessUnit.isIdr

theorem Rung.length_pos (r : Rung) : 0 < r.aus.length := by
  apply List.length_pos_of_ne_nil
  intro hnil
  have hidr := r.idr
  rw [hnil] at hidr
  cases hidr

/-! ## `LoadRungs` -/

/-- The first loop of `LoadRungs`, for one rung. -/
def readRung (f : Source) : Option (Except String Rung) :=
  if f.data = [] then some (.error ("fstat " ++ f.path))
  else
    (indexAccessUnits f.data).map fun
      | .error err => .error (f.path ++ ": " ++ err)
      | .ok aus =>
        if h : (aus.head?.any AccessUnit.isIdr) = true then .ok ⟨f.path, f.kbps, aus, h⟩
        else .error (f.path ++ ": the first access unit is not an IDR")

def readRungs : List Source → Option (Except String (List Rung))
  | [] => some (.ok [])
  | f :: fs =>
    (readRung f).bind fun
      | .error e => some (.error e)
      | .ok r => (readRungs fs).map fun rs => rs.map (r :: ·)

/-- The second loop: what the first rung out of step with rung 0 is told. -/
def misaligned (a0 : Rung) : List Rung → Option String
  | [] => none
  | r :: rs =>
    if r.aus.length ≠ a0.aus.length then
      some ("rung " ++ r.path ++ " has " ++ toString r.aus.length ++ " AUs, rung 0 has " ++
        toString a0.aus.length)
    else
      match (r.aus.zip a0.aus).findIdx? fun p => p.1.isIdr ≠ p.2.isIdr with
      | some i =>
        some ("rung " ++ r.path ++ ": IDR positions differ from rung 0 at AU " ++ toString i)
      | none => misaligned a0 rs

theorem idrs_eq {r a0 : List AccessUnit} (hlen : r.length = a0.length)
    (h : (r.zip a0).findIdx? (fun p => decide (p.1.isIdr ≠ p.2.isIdr)) = none) :
    r.map AccessUnit.isIdr = a0.map AccessUnit.isIdr := by
  induction r generalizing a0 with
  | nil =>
    rw [List.length_eq_zero_iff.mp hlen.symm]
  | cons x r ih =>
    cases a0 with
    | nil => cases hlen
    | cons y a0 =>
      rw [List.zip_cons_cons, List.findIdx?_eq_none_iff] at h
      have hxy := h (x, y) List.mem_cons_self
      have htail := ih (Nat.succ.inj hlen)
        (List.findIdx?_eq_none_iff.mpr fun p hp => h p (List.mem_cons_of_mem _ hp))
      rw [List.map_cons, List.map_cons, htail]
      simpa using hxy

theorem misaligned_eq_none {a0 : Rung} {rs : List Rung} (h : misaligned a0 rs = none) :
    ∀ r ∈ rs, r.idrs = a0.idrs := by
  induction rs with
  | nil => intro r hr; cases hr
  | cons x rs ih =>
    rw [misaligned] at h
    by_cases hlen : x.aus.length = a0.aus.length
    · rw [if_neg (not_not.mpr hlen)] at h
      split at h
      · cases h
      · next hidx =>
        intro r hr
        rcases List.mem_cons.mp hr with rfl | hr
        · exact idrs_eq hlen hidx
        · exact ih h r hr
    · rw [if_pos hlen] at h
      cases h

/-- The last rung with this bitrate, as the search of `LoadRungs` and of a profile
leaves it in `idx`. -/
def rungOf (kbps : Int) : List Rung → Nat → Option Nat → Option Nat
  | [], _, idx => idx
  | r :: rs, k, idx => rungOf kbps rs (k + 1) (if r.kbps = kbps then some k else idx)

theorem rungOf_lt {kbps : Int} {rs : List Rung} {k i : Nat} {idx : Option Nat}
    (h : rungOf kbps rs k idx = some i) (hidx : ∀ j ∈ idx, j < k) : i < k + rs.length := by
  induction rs generalizing k idx with
  | nil => exact hidx i h
  | cons r rs ih =>
    have hlt := ih h fun j hj => by
      split at hj
      · cases hj
        exact Nat.lt_succ_self k
      · exact Nat.lt_succ_of_lt (hidx j hj)
    rw [List.length_cons]
    omega

/-- What `LoadRungs` accepts: rung 0, the others, the rung to start with and the
content origin. -/
structure Loaded where
  first : Rung
  others : List Rung
  aligned : ∀ r ∈ others, r.idrs = first.idrs
  start : Nat
  start_lt : start < (first :: others).length
  origin : Int
  origin_nonneg : 0 ≤ origin
  origin_lt : origin < first.aus.length

def Loaded.rungs (l : Loaded) : List Rung := l.first :: l.others

/-- `LoadRungs` behind its first loop. -/
def accept (startKbps origin : Int) (first : Rung) (others : List Rung) : Except String Loaded :=
  match ha : misaligned first others with
  | some e => .error e
  | none =>
    match hs : (if 0 < startKbps then rungOf startKbps (first :: others) 0 none else some 0) with
    | none => .error ("--bitrate-kbps " ++ toString startKbps ++ " is not one of the rungs")
    | some start =>
      if ho : 0 ≤ origin ∧ origin < first.aus.length then
        .ok
          { first := first
            others := others
            aligned := misaligned_eq_none ha
            start := start
            start_lt := by
              split at hs
              · have := rungOf_lt hs (by simp)
                omega
              · cases hs
                exact Nat.succ_pos _
            origin := origin
            origin_nonneg := ho.1
            origin_lt := ho.2 }
      else
        .error ("--content-origin " ++ toString origin ++ " outside 0.." ++
          toString (first.aus.length - 1))

def loadRungs (startKbps origin : Int) (files : List Source) : Option (Except String Loaded) :=
  (readRungs files).map fun
    | .error e => .error e
    | .ok [] => .error "--source a.h264@kbps[,b.h264@kbps] required"
    | .ok (first :: others) => accept startKbps origin first others

theorem exists_readRung (f : Source) : ∃ r, readRung f = some r := by
  obtain ⟨ns, hns⟩ := exists_nals f.data 0
  rw [readRung, indexAccessUnits_eq hns]
  split
  · exact ⟨_, rfl⟩
  · exact ⟨_, rfl⟩

theorem exists_readRungs (files : List Source) : ∃ r, readRungs files = some r := by
  induction files with
  | nil => exact ⟨_, rfl⟩
  | cons f fs ih =>
    obtain ⟨r, hr⟩ := exists_readRung f
    obtain ⟨rs, hrs⟩ := ih
    rw [readRungs, hr, hrs]
    cases r with
    | error e => exact ⟨_, rfl⟩
    | ok r => exact ⟨_, rfl⟩

/-- No file is read outside its bytes. -/
theorem exists_loadRungs (startKbps origin : Int) (files : List Source) :
    ∃ r, loadRungs startKbps origin files = some r := by
  obtain ⟨rs, hrs⟩ := exists_readRungs files
  rw [loadRungs, hrs]
  exact ⟨_, rfl⟩

/-! ## The content timeline -/

/-- What the sender is started with: the rungs, and its part of `SenderConfig`. -/
structure Camera extends Loaded where
  fps : Nat
  fps_pos : 0 < fps
  startWallNs : Int
  phaseSlots : Int
  width : Int
  height : Int

namespace Camera

variable (c : Camera)

def intervalUs : Int := 1000000 / c.fps

def nSrc : Int := c.first.aus.length

def srcOf (slot : Int) : Int := ((slot + c.phaseSlots).tmod c.nSrc + c.nSrc).tmod c.nSrc

def fileIdx (slot : Int) : Int := ((c.srcOf slot - c.origin).tmod c.nSrc + c.nSrc).tmod c.nSrc

def isIdr (slot : Int) : Bool := (c.first.aus[(c.fileIdx slot).toNat]?).any AccessUnit.isIdr

/-- `while (!g_cfg.rungs[0].aus[FileIdx(slot)].is_idr) ++slot`, given up after `fuel` turns. -/
def idrFrom (slot : Int) : Nat → Option Int
  | 0 => none
  | fuel + 1 => if c.isIdr slot then some slot else idrFrom (slot + 1) fuel

def firstIdrSlot : Option Int := c.idrFrom 0 c.first.aus.length

def au (rung : Nat) (pos : Int) : Option AccessUnit :=
  (c.rungs[rung]?).bind fun r => r.aus[pos.toNat]?

variable {c}

theorem intervalUs_nonneg : 0 ≤ c.intervalUs :=
  Int.ediv_nonneg (by decide) (Int.natCast_nonneg _)

theorem nSrc_pos : 0 < c.nSrc := Int.natCast_pos.mpr c.first.length_pos

/-- The sign of C's remainder does not matter once `n` is added. -/
theorem tmod_add_tmod {a n : Int} (hn : 0 < n) : (a.tmod n + n).tmod n = a % n := by
  have hgt := Int.lt_tmod_of_pos a hn
  rw [Int.tmod_eq_emod_of_nonneg (by omega), Int.add_emod_right]
  calc a.tmod n % n = (a.tmod n + a.tdiv n * n) % n := (Int.add_mul_emod_self_right _ _ _).symm
    _ = a % n := by rw [Int.tmod_add_tdiv_mul]

theorem srcOf_eq (slot : Int) : c.srcOf slot = (slot + c.phaseSlots) % c.nSrc :=
  tmod_add_tmod nSrc_pos

theorem fileIdx_eq (slot : Int) :
    c.fileIdx slot = (slot + c.phaseSlots - c.origin) % c.nSrc := by
  rw [fileIdx, tmod_add_tmod nSrc_pos, srcOf_eq, Int.sub_emod, Int.emod_emod, ← Int.sub_emod]

theorem fileIdx_range (slot : Int) : 0 ≤ c.fileIdx slot ∧ c.fileIdx slot < c.nSrc := by
  rw [fileIdx_eq]
  exact ⟨Int.emod_nonneg _ (Int.ne_of_gt nSrc_pos), Int.emod_lt_of_pos _ nSrc_pos⟩

theorem fileIdx_lt (slot : Int) : (c.fileIdx slot).toNat < c.first.aus.length := by
  obtain ⟨hnonneg, hlt⟩ := fileIdx_range (c := c) slot
  rw [nSrc] at hlt
  omega

/-- The search stops at the first IDR, if there is one within its turns. -/
theorem idrFrom_eq_of_isIdr {slot : Int} {fuel k : Nat} (hk : k < fuel)
    (h : c.isIdr (slot + k) = true) :
    ∃ j, j ≤ k ∧ c.idrFrom slot fuel = some (slot + j) ∧ c.isIdr (slot + j) = true ∧
      ∀ i : Nat, i < j → c.isIdr (slot + i) = false := by
  induction fuel generalizing slot k with
  | zero => cases hk
  | succ fuel ih =>
    rw [idrFrom]
    by_cases hslot : c.isIdr slot = true
    · rw [if_pos hslot]
      refine ⟨0, Nat.zero_le k, ?_, ?_, fun i hi => absurd hi (Nat.not_lt_zero i)⟩
      · simp
      · simpa using hslot
    · rw [if_neg hslot]
      cases k with
      | zero =>
        rw [Int.natCast_zero, Int.add_zero] at h
        exact absurd h hslot
      | succ k =>
        have hnext (i : Nat) : slot + ((i + 1 : Nat) : Int) = slot + 1 + i := by omega
        rw [hnext] at h
        obtain ⟨j, hj, heq, hidr, hbefore⟩ := ih (Nat.lt_of_succ_lt_succ hk) h
        refine ⟨j + 1, Nat.succ_le_succ hj, ?_, ?_, fun i hi => ?_⟩
        · rw [heq, hnext]
        · rw [hnext]
          exact hidr
        · cases i with
          | zero => simpa using hslot
          | succ i =>
            rw [hnext]
            exact hbefore i (Nat.lt_of_succ_lt_succ hi)

/-- Among any `n` slots in a row one carries the file's first access unit. -/
theorem exists_isIdr (c : Camera) (slot : Int) :
    ∃ k : Nat, k < c.first.aus.length ∧ c.isIdr (slot + k) = true := by
  have hpos := nSrc_pos (c := c)
  have hnonneg := Int.emod_nonneg (c.origin - c.phaseSlots - slot) (Int.ne_of_gt hpos)
  have hlt := Int.emod_lt_of_pos (c.origin - c.phaseSlots - slot) hpos
  obtain ⟨k, hk⟩ := Int.eq_ofNat_of_zero_le hnonneg
  refine ⟨k, ?_, ?_⟩
  · rw [hk, nSrc] at hlt
    exact Int.ofNat_lt.mp hlt
  · have hzero : c.fileIdx (slot + k) = 0 := by
      rw [fileIdx_eq]
      have hsum : slot + k + c.phaseSlots - c.origin =
          (c.origin - c.phaseSlots - slot) % c.nSrc - (c.origin - c.phaseSlots - slot) := by
        rw [hk]
        omega
      rw [hsum, Int.sub_emod, Int.emod_emod, Int.sub_self, Int.zero_emod]
    rw [isIdr, hzero]
    simpa [List.head?_eq_getElem?] using c.first.idr

/-- The search always finds an IDR. -/
theorem exists_idrFrom (c : Camera) (slot : Int) :
    ∃ found, c.idrFrom slot c.first.aus.length = some found ∧ slot ≤ found ∧
      c.isIdr found = true := by
  obtain ⟨k, hk, h⟩ := exists_isIdr c slot
  obtain ⟨j, -, heq, hidr, -⟩ := idrFrom_eq_of_isIdr hk h
  exact ⟨slot + j, heq, by omega, hidr⟩

theorem idrFrom_some {slot found : Int} (h : c.idrFrom slot c.first.aus.length = some found) :
    slot ≤ found ∧ c.isIdr found = true := by
  obtain ⟨found', heq, hle, hidr⟩ := exists_idrFrom c slot
  rw [h] at heq
  cases heq
  exact ⟨hle, hidr⟩

theorem srcOf_range (slot : Int) : 0 ≤ c.srcOf slot ∧ c.srcOf slot < c.nSrc := by
  rw [srcOf_eq]
  exact ⟨Int.emod_nonneg _ (Int.ne_of_gt nSrc_pos), Int.emod_lt_of_pos _ nSrc_pos⟩

/-- The rotation of the file by its origin is undone. -/
theorem fileIdx_add_origin (slot : Int) :
    (c.fileIdx slot + c.origin) % c.nSrc = c.srcOf slot := by
  rw [fileIdx_eq, srcOf_eq, Int.emod_add_emod, Int.sub_add_cancel]

/-- However long it is let run, the search ends at the first IDR, less than a
whole file away. -/
theorem idrFrom_least (c : Camera) (slot : Int) :
    ∃ k : Nat, k < c.first.aus.length ∧ c.isIdr (slot + k) = true ∧
      (∀ i : Nat, i < k → c.isIdr (slot + i) = false) ∧
      ∀ fuel : Nat, k < fuel → c.idrFrom slot fuel = some (slot + k) := by
  obtain ⟨far, hfar, hfarIdr⟩ := exists_isIdr c slot
  obtain ⟨k, hk, -, hidr, hbefore⟩ := idrFrom_eq_of_isIdr hfar hfarIdr
  refine ⟨k, Nat.lt_of_le_of_lt hk hfar, hidr, hbefore, fun fuel hfuel => ?_⟩
  obtain ⟨j, hj, heq, hjIdr, -⟩ := idrFrom_eq_of_isIdr hfuel hidr
  -- the same search with other fuel cannot stop before `k`
  have hjk : j = k := by
    rcases Nat.lt_or_eq_of_le hj with hlt | heq
    · rw [hbefore j hlt] at hjIdr
      cases hjIdr
    · exact heq
  rw [heq, hjk]

/-- The content timeline of a camera: positions are in range, the rotations cancel,
a camera of the same length and phase shows the same frame in each slot, and both
searches for an IDR end within a file's length. -/
theorem content_timeline (c : Camera) :
    (∀ slot : Int,
      (0 ≤ c.srcOf slot ∧ c.srcOf slot < c.nSrc) ∧
      (0 ≤ c.fileIdx slot ∧ c.fileIdx slot < c.nSrc) ∧
      (c.fileIdx slot + c.origin) % c.nSrc = c.srcOf slot ∧
      c.srcOf slot = (slot + c.phaseSlots) % c.nSrc) ∧
    (∀ c' : Camera, c'.nSrc = c.nSrc → c'.phaseSlots = c.phaseSlots → ∀ slot : Int,
      c'.srcOf slot = c.srcOf slot ∧
      (c'.fileIdx slot + c'.origin) % c'.nSrc = (c.fileIdx slot + c.origin) % c.nSrc) ∧
    (∀ slot : Int, ∃ k : Nat, k < c.first.aus.length ∧ c.isIdr (slot + k) = true ∧
      (∀ i : Nat, i < k → c.isIdr (slot + i) = false) ∧
      ∀ fuel : Nat, k < fuel → c.idrFrom slot fuel = some (slot + k)) ∧
    ∃ k : Nat, k < c.first.aus.length ∧ c.firstIdrSlot = some (k : Int) ∧
      c.isIdr k = true ∧ ∀ i : Nat, i < k → c.isIdr i = false := by
  refine ⟨fun slot => ?_, fun c' hlen hphase slot => ?_, idrFrom_least c, ?_⟩
  · exact ⟨srcOf_range slot, fileIdx_range slot, fileIdx_add_origin slot, srcOf_eq slot⟩
  · have hsrc : c'.srcOf slot = c.srcOf slot := by
      rw [srcOf_eq, srcOf_eq, hlen, hphase]
    refine ⟨hsrc, ?_⟩
    rw [fileIdx_add_origin, fileIdx_add_origin]
    exact hsrc
  · obtain ⟨k, hk, hidr, hbefore, hfuel⟩ := idrFrom_least c 0
    have hfound := hfuel c.first.aus.length hk
    rw [Int.zero_add] at hidr hfound
    refine ⟨k, hk, hfound, hidr, fun i hi => ?_⟩
    have hnot := hbefore i hi
    rw [Int.zero_add] at hnot
    exact hnot

theorem idrs_of_mem {r : Rung} (h : r ∈ c.rungs) : r.idrs = c.first.idrs := by
  rcases List.mem_cons.mp h with rfl | h
  · rfl
  · exact c.aligned r h

/-- Every rung has an access unit where rung 0 has one, and an IDR where it has one. -/
theorem exists_au {rung : Nat} (hrung : rung < c.rungs.length) (slot : Int) :
    ∃ au, c.au rung (c.fileIdx slot) = some au ∧ au.isIdr = c.isIdr slot := by
  have hget := List.getElem?_eq_getElem hrung
  have hidrs := idrs_of_mem (List.mem_of_getElem? hget)
  have hpos := fileIdx_lt (c := c) slot
  have hat := congrArg (fun l => l[(c.fileIdx slot).toNat]?) hidrs
  simp only [Rung.idrs, List.getElem?_map, List.getElem?_eq_getElem hpos, Option.map_some] at hat
  obtain ⟨au, hau, hidr⟩ := Option.map_eq_some_iff.mp hat
  refine ⟨au, ?_, ?_⟩
  · rw [Camera.au, hget, Option.bind_some, hau]
  · rw [hidr, isIdr, List.getElem?_eq_getElem hpos, Option.any_some]

end Camera

def twoFrameRung (kbps : Int) : Rung :=
  ⟨"a.h264", kbps, [⟨0, 14, true⟩, ⟨14, 11, false⟩], rfl⟩

def twoFrames : Camera where
  first := twoFrameRung 2500
  others := [twoFrameRung 1000]
  aligned := by decide
  start := 0
  start_lt := by decide
  origin := 0
  origin_nonneg := by decide
  origin_lt := by decide
  fps := 30
  fps_pos := by decide
  startWallNs := 0
  phaseSlots := 0
  width := 1280
  height := 720

/-- The same frames in a file that begins with the other one. -/
def turned : Camera :=
  { twoFrames with
    origin := 1
    origin_nonneg := by decide
    origin_lt := by decide }

theorem content_timeline_turned :
    turned.srcOf 5 = twoFrames.srcOf 5 ∧ turned.fileIdx 5 = 0 ∧ twoFrames.fileIdx 5 = 1 :=
  ⟨((Camera.content_timeline twoFrames).2.1 turned rfl rfl 5).1, by decide, by decide⟩

end Sender
end P5G
