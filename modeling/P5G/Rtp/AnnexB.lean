import P5G.Rtp.Header

/-!
# Access units of an Annex B stream

`NextStartCode` and `IndexAccessUnits` of rtp_util.h.  A read outside the buffer
is `none`, as for the RTCP walkers.  The stream's NAL units are what successive
start codes begin, and an access unit runs from one access unit delimiter to the
next.
-/

namespace P5G
namespace AnnexB

/-- The length of the start code at `i`, `some none` where there is none. -/
def startCode (d : List UInt8) (i : Nat) : Option (Option Nat) :=
  d[i]?.bind fun a => d[i + 1]?.bind fun b =>
    if a = 0 ∧ b = 0 then
      d[i + 2]?.bind fun c =>
        if c = 1 then some (some 3)
        else if i + 4 ≤ d.length ∧ c = 0 then
          d[i + 3]?.map fun e => if e = 1 then some 4 else none
        else some none
    else some none

structure Nal where
  code : Nat
  pos : Nat
  deriving DecidableEq

/-- `NextStartCode`, `some none` where it returns -1. -/
def nextStartCode (d : List UInt8) (i : Nat) : Option (Option Nal) :=
  if i + 3 ≤ d.length then
    match startCode d i with
    | none => none
    | some (some len) => if d.length ≤ i + len then some none else some (some ⟨i, i + len⟩)
    | some none => nextStartCode d (i + 1)
  else some none
termination_by d.length - i

def CodeAt (d : List UInt8) (i len : Nat) : Prop :=
  ∃ code ∈ ([[0, 0, 1], [0, 0, 0, 1]] : List (List UInt8)), code <+: d.drop i ∧ code.length = len

/-- The first start code from `i` on that a byte follows. -/
structure Next (d : List UInt8) (i : Nat) (x : Nal) : Prop where
  code : ∃ len, CodeAt d x.code len ∧ x.pos = x.code + len
  follows : x.pos < d.length
  le : i ≤ x.code
  first : ∀ j len, i ≤ j → j < x.code → CodeAt d j len → d.length ≤ j + len

inductive Nals (d : List UInt8) : Nat → List Nal → Prop
  | none {i : Nat} : (∀ j len, i ≤ j → CodeAt d j len → d.length ≤ j + len) → Nals d i []
  | next {i : Nat} {x : Nal} {ns : List Nal} : Next d i x → Nals d x.pos ns → Nals d i (x :: ns)

/-- `NalType` -/
def kind (d : List UInt8) (x : Nal) : UInt8 := byte d x.pos &&& 0x1f

variable {d : List UInt8} {i len : Nat}

theorem CodeAt.bounds (h : CodeAt d i len) : (len = 3 ∨ len = 4) ∧ i + len ≤ d.length := by
  obtain ⟨code, hcode, hprefix, rfl⟩ := h
  have hle := hprefix.length_le
  rw [List.length_drop] at hle
  have hlen : code.length = 3 ∨ code.length = 4 := by
    rcases List.mem_cons.mp hcode with rfl | hcode
    · exact .inl rfl
    · rw [List.mem_singleton.mp hcode]
      exact .inr rfl
  exact ⟨hlen, by omega⟩

/-- Three bytes at `i`. -/
theorem exists_three (h : i + 3 ≤ d.length) : ∃ a b c t, d.drop i = a :: b :: c :: t := by
  have hlen : (d.drop i).length = d.length - i := List.length_drop
  match hd : d.drop i with
  | a :: b :: c :: t => exact ⟨a, b, c, t, rfl⟩
  | [] | [_] | [_, _] =>
    rw [hd] at hlen
    simp at hlen
    omega

theorem getElem?_of_drop {t : List UInt8} (hd : d.drop i = t) (k : Nat) : d[i + k]? = t[k]? := by
  rw [← hd, List.getElem?_drop]

theorem startCode_eq (h : i + 3 ≤ d.length) :
    ∃ r, startCode d i = some r ∧ ∀ len, r = some len ↔ CodeAt d i len := by
  obtain ⟨a, b, c, t, hd⟩ := exists_three h
  have hcode (len : Nat) : CodeAt d i len ↔ (a = 0 ∧ b = 0 ∧ c = 1 ∧ len = 3) ∨
      (a = 0 ∧ b = 0 ∧ c = 0 ∧ t.head? = some 1 ∧ len = 4) := by
    rw [CodeAt, hd]
    cases t with
    | nil =>
      simp [List.cons_prefix_cons, eq_comm, and_assoc]
    | cons e t =>
      simp [List.cons_prefix_cons, eq_comm, and_assoc]
  have h0 : d[i]? = some a := by simpa using getElem?_of_drop hd 0
  have h1 : d[i + 1]? = some b := by simpa using getElem?_of_drop hd 1
  have h2 : d[i + 2]? = some c := by simpa using getElem?_of_drop hd 2
  have h3 : d[i + 3]? = t.head? := by
    rw [getElem?_of_drop hd 3]
    cases t <;> rfl
  have hlen : i + 4 ≤ d.length ↔ t ≠ [] := by
    have hlen := congrArg List.length hd
    rw [List.length_drop] at hlen
    rw [← List.length_pos_iff]
    simp at hlen
    omega
  rw [startCode, h0, h1, h2, h3]
  simp only [Option.bind_some, hcode, hlen]
  by_cases hab : a = 0 ∧ b = 0
  · rw [if_pos hab]
    by_cases hc : c = 1
    · exact ⟨some 3, if_pos hc, fun len => by simp [hab, hc, eq_comm]⟩
    · rw [if_neg hc]
      by_cases ht : t ≠ [] ∧ c = 0
      · obtain ⟨e, t, rfl⟩ := List.exists_cons_of_ne_nil ht.1
        rw [if_pos ht]
        by_cases he : e = 1
        · exact ⟨some 4, by simp [he], fun len => by simp [hab, ht.2, he, eq_comm]⟩
        · exact ⟨none, by simp [he], fun len => by simp [hc, he]⟩
      · rw [if_neg ht]
        refine ⟨none, rfl, fun len => ?_⟩
        simp only [reduceCtorEq, false_iff]
        rintro (⟨-, -, hone, -⟩ | ⟨-, -, hzero, hhead, -⟩)
        · exact hc hone
        · refine ht ⟨?_, hzero⟩
          rintro rfl
          cases hhead
  · rw [if_neg hab]
    refine ⟨none, rfl, fun len => ?_⟩
    simp only [reduceCtorEq, false_iff]
    rintro (⟨ha, hb, -⟩ | ⟨ha, hb, -⟩) <;> exact hab ⟨ha, hb⟩

/-- What the search answers: the next start code with its byte, or nothing
where every code from `i` on ends the buffer. -/
theorem nextStartCode_eq (d : List UInt8) (i : Nat) :
    ∃ r, nextStartCode d i = some r ∧ (∀ x, r = some x → Next d i x) ∧
      (r = none → ∀ j len, i ≤ j → CodeAt d j len → d.length ≤ j + len) := by
  fun_induction nextStartCode d i with
  | case1 i h hnone =>
    obtain ⟨r, hr, -⟩ := startCode_eq h
    rw [hr] at hnone
    cases hnone
  | case2 i h len hcode hend =>
    obtain ⟨r, hr, hat⟩ := startCode_eq h
    have hlen := (hat len).mp (Option.some.inj (hr.symm.trans hcode))
    refine ⟨none, rfl, (fun x hx => nomatch hx), fun _ j len' hj hcode' => ?_⟩
    -- a code after `i` is too close to the end to be followed by a byte
    have hb := hlen.bounds
    have hb' := hcode'.bounds
    rcases Nat.eq_or_lt_of_le hj with rfl | hlt
    · have hsame := (hat len').mpr hcode'
      rw [(hat len).mpr hlen] at hsame
      cases hsame
      exact hend
    · omega
  | case3 i h len hcode hend =>
    obtain ⟨r, hr, hat⟩ := startCode_eq h
    have hlen := (hat len).mp (Option.some.inj (hr.symm.trans hcode))
    refine ⟨_, rfl, fun x hx => ?_, fun hx => nomatch hx⟩
    cases hx
    have hfollows : i + len < d.length := by omega
    exact ⟨⟨len, hlen, rfl⟩, hfollows, Nat.le_refl i,
      fun j len' hj hlt => absurd hlt (Nat.not_lt.mpr hj)⟩
  | case4 i h hcode ih =>
    obtain ⟨r, hr, hat⟩ := startCode_eq h
    have hno (len : Nat) : ¬ CodeAt d i len := by
      intro hlen
      have hsome := (hat len).mpr hlen
      rw [Option.some.inj (hr.symm.trans hcode)] at hsome
      cases hsome
    obtain ⟨r', hr', hsome, hnone⟩ := ih
    refine ⟨r', hr', fun x hx => ?_, fun hx j len hj hcode' => ?_⟩
    · have hnext := hsome x hx
      refine ⟨hnext.code, hnext.follows, by have := hnext.le; omega, fun j len hj hlt hcode' => ?_⟩
      apply hnext.first j len _ hlt hcode'
      rcases Nat.eq_or_lt_of_le hj with rfl | hgt
      · exact absurd hcode' (hno len)
      · exact hgt
    · apply hnone hx j len _ hcode'
      rcases Nat.eq_or_lt_of_le hj with rfl | hgt
      · exact absurd hcode' (hno len)
      · exact hgt
  | case5 i h =>
    refine ⟨none, rfl, (fun x hx => nomatch hx), fun _ j len hj hcode => ?_⟩
    have hb := hcode.bounds
    omega

theorem Next.pos_gt {x : Nal} (h : Next d i x) : x.code < x.pos := by
  obtain ⟨len, hcode, hpos⟩ := h.code
  have hb := hcode.bounds
  omega

theorem CodeAt.unique {len' : Nat} (h : CodeAt d i len) (h' : CodeAt d i len') : len = len' := by
  have hb := h.bounds
  obtain ⟨r, -, hat⟩ := startCode_eq (d := d) (i := i) (by omega)
  exact Option.some.inj (((hat len).mpr h).symm.trans ((hat len').mpr h'))

theorem Next.unique {x y : Nal} (hx : Next d i x) (hy : Next d i y) : x = y := by
  obtain ⟨len, hcode, hpos⟩ := hx.code
  obtain ⟨len', hcode', hpos'⟩ := hy.code
  have hfx := hx.follows
  have hfy := hy.follows
  have hcodes : x.code = y.code := by
    rcases Nat.lt_trichotomy x.code y.code with hlt | heq | hgt
    · have := hy.first x.code len hx.le hlt hcode
      omega
    · exact heq
    · have := hx.first y.code len' hy.le hgt hcode'
      omega
  rw [hcodes] at hcode hpos
  have hlen := hcode.unique hcode'
  cases x
  cases y
  simp only [Nal.mk.injEq] at *
  omega

theorem nextStartCode_next {x : Nal} (h : Next d i x) : nextStartCode d i = some (some x) := by
  obtain ⟨r, hr, hsome, hnone⟩ := nextStartCode_eq d i
  cases r with
  | none =>
    obtain ⟨len, hcode, hpos⟩ := h.code
    have hend := hnone rfl x.code len h.le hcode
    have hfollows := h.follows
    omega
  | some y => rw [hr, h.unique (hsome y rfl)]

theorem nextStartCode_none (h : ∀ j len, i ≤ j → CodeAt d j len → d.length ≤ j + len) :
    nextStartCode d i = some none := by
  obtain ⟨r, hr, hsome, -⟩ := nextStartCode_eq d i
  cases r with
  | none => exact hr
  | some x =>
    obtain ⟨len, hcode, hpos⟩ := (hsome x rfl).code
    have hend := h x.code len (hsome x rfl).le hcode
    have hfollows := (hsome x rfl).follows
    omega

theorem nextStartCode_pos {x : Nal} (h : nextStartCode d i = some (some x)) :
    i < x.pos ∧ x.pos < d.length := by
  obtain ⟨r, hr, hsome, -⟩ := nextStartCode_eq d i
  have hx := hsome x (Option.some.inj (hr.symm.trans h))
  exact ⟨Nat.lt_of_le_of_lt hx.le hx.pos_gt, hx.follows⟩

structure AccessUnit where
  start : Nat
  bytes : Int32
  isIdr : Bool
  deriving DecidableEq

/-- The locals of `IndexAccessUnits`; `auBegin` is `none` where it is -1. -/
structure Scan where
  aus : List AccessUnit
  auBegin : Option Nat
  idr : Bool

def Scan.close (s : Scan) (stop : Nat) : List AccessUnit :=
  match s.auBegin with
  | some a => s.aus ++ [⟨a, Int32.ofInt (stop - a), s.idr⟩]
  | none => s.aus

/-- One turn of the loop, up to the next search. -/
def Scan.nal (s : Scan) (code : Nat) (type : UInt8) : Except String Scan :=
  if type = 9 then .ok ⟨s.close code, some code, false⟩
  else if s.auBegin = none then
    .error "stream does not start with an AUD (encode with x264 aud=1)"
  else if type = 5 then .ok { s with idr := true }
  else .ok s

def Scan.finish (s : Scan) (stop : Nat) : Except String (List AccessUnit) :=
  if s.close stop = [] then .error "no access units" else .ok (s.close stop)

/-- The loop of `IndexAccessUnits` at the NAL `x`. -/
def indexFrom (d : List UInt8) (x : Nal) (s : Scan) :
    Option (Except String (List AccessUnit)) :=
  d[x.pos]?.bind fun b =>
    match s.nal x.code (b &&& 0x1f) with
    | .error e => some (.error e)
    | .ok s =>
      match _h : nextStartCode d x.pos with
      | none => none
      | some none => some (s.finish d.length)
      | some (some y) => indexFrom d y s
termination_by d.length - x.pos
decreasing_by
  have := nextStartCode_pos _h
  omega

/-- `IndexAccessUnits`, an error being its message. -/
def indexAccessUnits (d : List UInt8) : Option (Except String (List AccessUnit)) :=
  match nextStartCode d 0 with
  | none => none
  | some none => some (.error "no start code")
  | some (some x) => indexFrom d x ⟨[], none, false⟩

def index (d : List UInt8) (s : Scan) (ns : List Nal) : Except String (List AccessUnit) :=
  (ns.foldlM (fun (s : Scan) x => s.nal x.code (kind d x)) s).bind fun s => s.finish d.length

theorem getElem?_pos {x : Nal} (h : x.pos < d.length) : d[x.pos]? = some (byte d x.pos) := by
  rw [byte, List.getD_eq_getElem?_getD, List.getElem?_eq_getElem h, Option.getD_some]

/-- Every buffer has its NAL units. -/
theorem exists_nals (d : List UInt8) (i : Nat) : ∃ ns, Nals d i ns := by
  obtain ⟨r, -, hsome, hnone⟩ := nextStartCode_eq d i
  cases hr : r with
  | none => exact ⟨[], .none (hnone hr)⟩
  | some x =>
    have hx := hsome x hr
    have hlt := hx.pos_gt
    have hfollows := hx.follows
    have hle := hx.le
    obtain ⟨ns, hns⟩ := exists_nals d x.pos
    exact ⟨x :: ns, .next hx hns⟩
termination_by d.length - i

theorem index_cons (d : List UInt8) (s : Scan) (x : Nal) (ns : List Nal) :
    index d s (x :: ns) = (s.nal x.code (kind d x)).bind fun s => index d s ns := by
  rw [index, List.foldlM_cons]
  cases s.nal x.code (kind d x) <;> rfl

theorem indexFrom_eq {x : Nal} {ns : List Nal} (h : Nals d x.pos ns) (hx : x.pos < d.length)
    (s : Scan) : indexFrom d x s = some (index d s (x :: ns)) := by
  induction ns generalizing x s with
  | nil =>
    cases h with
    | none hnone =>
      rw [indexFrom, getElem?_pos hx, nextStartCode_none hnone, index_cons, kind, Option.bind_some]
      cases s.nal x.code (byte d x.pos &&& 0x1f) <;> rfl
  | cons y ns ih =>
    cases h with
    | next hnext hns =>
      rw [indexFrom, getElem?_pos hx, nextStartCode_next hnext, index_cons, kind, Option.bind_some]
      cases s.nal x.code (byte d x.pos &&& 0x1f) with
      | error e => rfl
      | ok s => exact ih hns hnext.follows s

end AnnexB
end P5G
