import P5G.Rtp.AnnexB

/-!
# The access units of a stream

What `IndexAccessUnits` returns, over the NAL units of the buffer.  The units are
first cut as lists of NAL units; the bytes of one of them have the same NAL units
again, but for a last one that is empty.
-/

namespace P5G
namespace AnnexB

variable {d : List UInt8} {ns : List Nal} {i : Nat}

/-- An access unit as its NAL units, the delimiter first. -/
structure Seg where
  aud : Nal
  rest : List Nal
  stop : Nat

def Seg.unit (d : List UInt8) (s : Seg) : AccessUnit :=
  ⟨s.aud.code, Int32.ofInt (s.stop - s.aud.code), s.rest.any fun x => kind d x = 5⟩

/-- The access units from the delimiter `aud` on, `acc` being what has been read
after it. -/
def split (d : List UInt8) (aud : Nal) (acc : List Nal) : List Nal → List Seg
  | [] => [⟨aud, acc, d.length⟩]
  | x :: ns =>
    if kind d x = 9 then ⟨aud, acc, x.code⟩ :: split d x [] ns
    else split d aud (acc ++ [x]) ns

theorem index_split (d : List UInt8) (aus : List AccessUnit) (aud : Nal) (acc ns : List Nal) :
    index d ⟨aus, some aud.code, acc.any fun x => kind d x = 5⟩ ns =
      .ok (aus ++ (split d aud acc ns).map (Seg.unit d)) := by
  induction ns generalizing aus aud acc with
  | nil =>
    rw [split, List.map_singleton]
    exact if_neg (List.append_ne_nil_of_right_ne_nil _ (List.cons_ne_nil _ _))
  | cons x ns ih =>
    rw [index_cons, split]
    by_cases haud : kind d x = 9
    · rw [Scan.nal, if_pos haud, if_pos haud, List.map_cons, List.append_cons]
      exact ih _ x []
    · rw [Scan.nal, if_neg haud, if_neg haud, if_neg (Option.some_ne_none _), ← ih]
      by_cases hidr : kind d x = 5
      · simp [hidr, Except.bind]
      · simp [hidr, Except.bind]

/-- What the index of a buffer is, from its NAL units. -/
theorem indexAccessUnits_eq (h : Nals d 0 ns) :
    indexAccessUnits d = some
      (match ns with
      | [] => .error "no start code"
      | x :: ns =>
        if kind d x = 9 then .ok ((split d x [] ns).map (Seg.unit d))
        else .error "stream does not start with an AUD (encode with x264 aud=1)") := by
  cases h with
  | none hnone => rw [indexAccessUnits, nextStartCode_none hnone]
  | @next _ x ns hx hns =>
    rw [indexAccessUnits, nextStartCode_next hx]
    simp only [indexFrom_eq hns hx.follows, index_cons]
    by_cases haud : kind d x = 9
    · rw [Scan.nal, if_pos haud, if_pos haud]
      exact congrArg some (index_split d [] x [] ns)
    · rw [Scan.nal, if_neg haud, if_neg haud]
      rfl

theorem Nals.bounds (h : Nals d i ns) :
    ∀ x ∈ ns, i ≤ x.code ∧ x.code < x.pos ∧ x.pos < d.length := by
  induction h with
  | none => intro x hx; cases hx
  | @next i x ns hx _ ih =>
    intro y hy
    have hlt := hx.pos_gt
    have hle := hx.le
    rcases List.mem_cons.mp hy with rfl | hy
    · exact ⟨hx.le, hlt, hx.follows⟩
    · have := ih y hy
      omega

theorem Nals.pairwise (h : Nals d i ns) : ns.Pairwise fun x y => x.pos ≤ y.code := by
  induction h with
  | none => exact .nil
  | next _ hns ih => exact .cons (fun y hy => (hns.bounds y hy).1) ih

/-- The NAL units after an initial part of them. -/
theorem Nals.append_right {before after : List Nal} (h : Nals d i (before ++ after)) :
    ∃ j, i ≤ j ∧ Nals d j after := by
  induction before generalizing i with
  | nil => exact ⟨i, Nat.le_refl i, h⟩
  | cons x before ih =>
    cases h with
    | next hx hns =>
      obtain ⟨j, hj, hafter⟩ := ih hns
      have hlt := hx.pos_gt
      have hle := hx.le
      exact ⟨j, by omega, hafter⟩

/-- An access unit ends where the next one begins, or with the buffer. -/
def EndsAt (d : List UInt8) (after : List Nal) (stop : Nat) : Prop :=
  stop = (after.head?.map Nal.code).getD d.length

/-- Where a cut unit lies among the NAL units. -/
theorem mem_split {aud : Nal} {acc : List Nal} {s : Seg} (h : s ∈ split d aud acc ns)
    (haud : kind d aud = 9) (hacc : ∀ x ∈ acc, kind d x ≠ 9) :
    kind d s.aud = 9 ∧ (∀ x ∈ s.rest, kind d x ≠ 9) ∧
      ∃ before after, aud :: (acc ++ ns) = before ++ s.aud :: (s.rest ++ after) ∧
        EndsAt d after s.stop := by
  induction ns generalizing aud acc with
  | nil =>
    cases List.mem_singleton.mp h
    exact ⟨haud, hacc, [], [], rfl, rfl⟩
  | cons x ns ih =>
    rw [split] at h
    by_cases hx : kind d x = 9
    · rw [if_pos hx] at h
      rcases List.mem_cons.mp h with rfl | h
      · exact ⟨haud, hacc, [], x :: ns, rfl, rfl⟩
      · obtain ⟨hs, hrest, before, after, heq, hstop⟩ := ih h hx (fun y hy => nomatch hy)
        refine ⟨hs, hrest, aud :: acc ++ before, after, ?_, hstop⟩
        rw [List.append_assoc, ← heq]
        rfl
    · rw [if_neg hx] at h
      have hacc' : ∀ y ∈ acc ++ [x], kind d y ≠ 9 := by
        intro y hy
        rcases List.mem_append.mp hy with hy | hy
        · exact hacc y hy
        · rwa [List.mem_singleton.mp hy]
      obtain ⟨hs, hrest, before, after, heq, hstop⟩ := ih h haud hacc'
      refine ⟨hs, hrest, before, after, ?_, hstop⟩
      rw [← heq, List.append_assoc]
      rfl

/-! ## The bytes of one unit -/

def slice (d : List UInt8) (start stop : Nat) : List UInt8 := (d.drop start).take (stop - start)

variable {start stop : Nat}

theorem length_slice (h : stop ≤ d.length) : (slice d start stop).length = stop - start := by
  rw [slice, List.length_take, List.length_drop]
  omega

theorem codeAt_slice {k len : Nat} :
    CodeAt (slice d start stop) k len ↔ CodeAt d (start + k) len ∧ k + len ≤ stop - start := by
  have hdrop : (slice d start stop).drop k = (d.drop (start + k)).take (stop - start - k) := by
    rw [slice, List.drop_take, List.drop_drop]
  rw [CodeAt, CodeAt, hdrop]
  constructor
  · rintro ⟨code, hcode, hpre, rfl⟩
    obtain ⟨hd, hlen⟩ := List.prefix_take_iff.mp hpre
    have hb := CodeAt.bounds (d := code) (i := 0) ⟨code, hcode, List.prefix_refl _, rfl⟩
    exact ⟨⟨code, hcode, hd, rfl⟩, by omega⟩
  · rintro ⟨⟨code, hcode, hd, rfl⟩, hle⟩
    exact ⟨code, hcode, List.prefix_take_iff.mpr ⟨hd, by omega⟩, rfl⟩

theorem byte_slice {k : Nat} (h : start + k < stop) :
    byte (slice d start stop) k = byte d (start + k) := by
  rw [byte, byte, slice, List.getD_eq_getElem?_getD, List.getD_eq_getElem?_getD,
    List.getElem?_take_of_lt (by omega), List.getElem?_drop]

theorem kind_slice {x : Nal} (hle : start ≤ x.pos) (hpos : x.pos < stop) :
    kind (slice d start stop) ⟨x.code - start, x.pos - start⟩ = kind d x := by
  have hadd : start + (x.pos - start) = x.pos := Nat.add_sub_cancel' hle
  rw [kind, kind, byte_slice (hadd.symm ▸ hpos), hadd]

/-- The first start code of the bytes is that of the buffer. -/
theorem Next.slice {x : Nal} (h : Next d i x) (hi : start ≤ i) (hpos : x.pos < stop)
    (hstop : stop ≤ d.length) :
    Next (slice d start stop) (i - start) ⟨x.code - start, x.pos - start⟩ := by
  have hle := h.le
  have hlt := h.pos_gt
  obtain ⟨len, hcode, hlen⟩ := h.code
  refine ⟨⟨len, codeAt_slice.mpr ⟨?_, ?_⟩, ?_⟩, ?_, ?_, fun j len' hj hlt' hcode' => ?_⟩
  · rwa [Nat.add_sub_cancel' (by omega)]
  · simp only
    omega
  · simp only
    omega
  · rw [length_slice hstop]
    simp only
    omega
  · simp only
    omega
  · obtain ⟨hcode', hle'⟩ := codeAt_slice.mp hcode'
    simp only at hlt'
    have hend := h.first (start + j) len' (by omega) (by omega) hcode'
    rw [length_slice hstop]
    omega

/-- The byte a start code begins with. -/
theorem CodeAt.byte_eq {len : Nat} (h : CodeAt d i len) : byte d i = 0 := by
  obtain ⟨code, hcode, ⟨t, ht⟩, -⟩ := h
  have hhead : d[i]? = some 0 := by
    rw [← List.head?_drop, ← ht]
    rcases List.mem_cons.mp hcode with rfl | hcode
    · rfl
    · rw [List.mem_singleton.mp hcode]
      rfl
  rw [byte, List.getD_eq_getElem?_getD, hhead, Option.getD_some]

theorem EndsAt.le {after : List Nal} (hend : EndsAt d after stop) (h : Nals d i after) :
    stop ≤ d.length := by
  rw [EndsAt] at hend
  cases after with
  | nil => exact Nat.le_of_eq hend
  | cons y after =>
    have hy := h.bounds y List.mem_cons_self
    rw [hend, List.head?_cons, Option.map_some, Option.getD_some]
    omega

/-- No start code of the bytes is followed where the buffer has none before `stop`. -/
theorem nals_slice_nil {after : List Nal} (h : Nals d i after) (hend : EndsAt d after stop)
    (hi : start ≤ i) : Nals (slice d start stop) (i - start) [] := by
  have hstop := hend.le h
  refine .none fun j len hj hcode => ?_
  obtain ⟨hcode, hle⟩ := codeAt_slice.mp hcode
  rw [length_slice hstop]
  have hb := hcode.bounds
  cases h with
  | none hnone =>
    have := hnone (start + j) len (by omega) hcode
    omega
  | @next _ y after hy hns =>
    have hfollows := hy.follows
    have hlt := hy.pos_gt
    have hstop' : stop = y.code := hend
    have := hy.first (start + j) len (by omega) (by omega) hcode
    omega

theorem EndsAt.pos_le {rest after : List Nal} (hend : EndsAt d after stop)
    (h : Nals d i (rest ++ after)) : ∀ z ∈ rest, z.pos ≤ stop := by
  intro z hz
  rw [EndsAt] at hend
  cases after with
  | nil =>
    have hlt := h.bounds z (List.mem_append_left _ hz)
    rw [List.head?_nil, Option.map_none, Option.getD_none] at hend
    omega
  | cons y after =>
    rw [hend]
    exact (List.pairwise_append.mp h.pairwise).2.2 z hz y List.mem_cons_self

theorem EndsAt.le_code {after : List Nal} (hend : EndsAt d after stop) (h : Nals d i after) :
    ∀ x ∈ after, stop ≤ x.code := by
  intro x hx
  cases after with
  | nil => cases hx
  | cons y after =>
    have hstop : stop = y.code := hend
    rcases List.mem_cons.mp hx with rfl | hx
    · exact Nat.le_of_eq hstop
    · have hy := h.bounds y List.mem_cons_self
      have hyx := (List.pairwise_cons.mp h.pairwise).1 x hx
      omega

/-- Nothing of a unit lies behind its end. -/
theorem EndsAt.rest_eq_nil {rest after : List Nal} (hend : EndsAt d after stop)
    (h : Nals d i (rest ++ after)) (hi : stop ≤ i) : rest = [] := by
  cases rest with
  | nil => rfl
  | cons w rest =>
    have hw := hend.pos_le h w List.mem_cons_self
    have hb := h.bounds w List.mem_cons_self
    omega

/-- A NAL unit the boundary leaves no byte: the bytes do not have it, and in the
buffer its type is that of a start code's first byte. -/
theorem Next.empty {z : Nal} {after : List Nal} (hz : Next d i z) (h : Nals d z.pos after)
    (hend : EndsAt d after stop) (hpos : z.pos = stop) (hi : start ≤ i) :
    kind d z = 0 ∧ Nals (AnnexB.slice d start stop) (i - start) [] := by
  have hstop := hend.le h
  constructor
  · cases h with
    | none =>
      have hfollows := hz.follows
      have : stop = d.length := hend
      omega
    | @next _ y after hy _ =>
      obtain ⟨len, hcode, -⟩ := hy.code
      have hstop' : stop = y.code := hend
      rw [kind, hpos, hstop', hcode.byte_eq]
      rfl
  · refine .none fun j len hj hcode => ?_
    obtain ⟨hcode, hle⟩ := codeAt_slice.mp hcode
    obtain ⟨len', hcode', hpos'⟩ := hz.code
    have hb := hcode.bounds
    have hb' := hcode'.bounds
    rw [length_slice hstop]
    rcases Nat.lt_trichotomy (start + j) z.code with hlt | heq | hgt
    · have := hz.first (start + j) len (by omega) hlt hcode
      omega
    · rw [heq] at hcode
      have := hcode.unique hcode'
      omega
    · omega

/-- The NAL units of the bytes are those of the buffer; only a last one without
a byte of its own goes, and its type in the buffer is 0. -/
theorem Nals.slice {rest after : List Nal} (h : Nals d i (rest ++ after))
    (hend : EndsAt d after stop) (hi : start ≤ i) :
    ∃ ns, Nals (slice d start stop) (i - start) ns ∧
      ∀ k, k ≠ 0 → (ns.any fun x => kind (slice d start stop) x = k) =
        rest.any fun x => kind d x = k := by
  induction rest generalizing i with
  | nil => exact ⟨[], nals_slice_nil h hend hi, fun _ _ => rfl⟩
  | cons z rest ih =>
    have hle := hend.pos_le h
    rw [List.cons_append] at h
    cases h with
    | next hz hns =>
      have hlt := hz.pos_gt
      have hzi := hz.le
      rcases Nat.lt_or_eq_of_le (hle z List.mem_cons_self) with hpos | hpos
      · obtain ⟨j, -, hafter⟩ := hns.append_right
        obtain ⟨ns, hns', hany⟩ := ih hns (by omega)
        refine ⟨_, .next (hz.slice hi hpos (hend.le hafter)) hns', fun k hk => ?_⟩
        rw [List.any_cons, List.any_cons, hany k hk, kind_slice (by omega) hpos]
      · have hrest := hend.rest_eq_nil hns (Nat.le_of_eq hpos.symm)
        subst hrest
        obtain ⟨hkind, hnil⟩ := hz.empty hns hend hpos hi
        refine ⟨[], hnil, fun k hk => ?_⟩
        rw [List.any_cons, hkind]
        simp [hk.symm]

theorem split_of_forall_ne {aud : Nal} {acc : List Nal} (h : ∀ x ∈ ns, kind d x ≠ 9) :
    split d aud acc ns = [⟨aud, acc ++ ns, d.length⟩] := by
  induction ns generalizing acc with
  | nil => rw [split, List.append_nil]
  | cons x ns ih =>
    rw [split, if_neg (h x List.mem_cons_self), ih (fun y hy => h y (List.mem_cons_of_mem x hy)),
      List.append_assoc]
    rfl

/-- The bytes of a unit index to that unit alone. -/
theorem indexAccessUnits_slice {s : Seg} {after : List Nal}
    (h : Nals d i (s.aud :: (s.rest ++ after))) (haud : kind d s.aud = 9)
    (hrest : ∀ x ∈ s.rest, kind d x ≠ 9) (hend : EndsAt d after s.stop) :
    indexAccessUnits (slice d s.aud.code s.stop) =
      some (.ok [⟨0, (s.unit d).bytes, (s.unit d).isIdr⟩]) := by
  have hlt := h.bounds s.aud List.mem_cons_self
  have htail : Nals d i ((s.aud :: s.rest) ++ after) := h
  have hle := hend.pos_le htail s.aud List.mem_cons_self
  cases h with
  | next hz hns =>
    obtain ⟨j, -, hafter⟩ := hns.append_right
    have hstop := hend.le hafter
    have hnext : Next d s.aud.code s.aud :=
      ⟨hz.code, hz.follows, Nat.le_refl _, fun j len hj hlt => absurd hlt (Nat.not_lt.mpr hj)⟩
    have hpos : s.aud.pos < s.stop := by
      apply Nat.lt_of_le_of_ne hle
      intro heq
      rw [hend.rest_eq_nil hns (Nat.le_of_eq heq.symm)] at hns
      have hzero := (hnext.empty hns hend heq (Nat.le_refl _)).1
      rw [haud] at hzero
      cases hzero
    obtain ⟨ns, hns', hany⟩ := hns.slice hend (Nat.le_of_lt hlt.2.1)
    have hnals := Nals.next (hnext.slice (Nat.le_refl _) hpos hstop) hns'
    have hkind := (kind_slice (Nat.le_of_lt hlt.2.1) hpos).trans haud
    rw [Nat.sub_self] at hnals hkind
    have hno : ∀ x ∈ ns, kind (slice d s.aud.code s.stop) x ≠ 9 := by
      intro x hx hnine
      have hall : s.rest.any (fun x => kind d x = 9) = true := by
        rw [← hany 9 (by decide)]
        exact List.any_eq_true.mpr ⟨x, hx, decide_eq_true hnine⟩
      obtain ⟨y, hy, hnine'⟩ := List.any_eq_true.mp hall
      exact hrest y hy (of_decide_eq_true hnine')
    have hcast : ((s.stop - s.aud.code : Nat) : Int) = s.stop - s.aud.code := by omega
    have hunit : Seg.unit (slice d s.aud.code s.stop)
        ⟨⟨0, s.aud.pos - s.aud.code⟩, ns, s.stop - s.aud.code⟩ =
        ⟨0, (s.unit d).bytes, (s.unit d).isIdr⟩ := by
      simp only [Seg.unit, hany 5 (by decide), hcast, Int.natCast_zero, Int.sub_zero]
    rw [indexAccessUnits_eq hnals]
    simp only [hkind, if_true, split_of_forall_ne hno, List.nil_append, List.map_singleton,
      length_slice hstop, hunit]

/-! ## Tiling -/

def AccessUnit.size (au : AccessUnit) : Nat := au.bytes.toInt.toNat

def AccessUnit.limit (au : AccessUnit) : Nat := au.start + au.size

def Tiles : Nat → Nat → List AccessUnit → Prop
  | lo, hi, [] => lo = hi
  | lo, hi, au :: aus => au.start = lo ∧ 0 < au.bytes.toInt ∧ Tiles au.limit hi aus

/-- The NAL units whose start code lies in the bytes of `au`. -/
def AccessUnit.nals (au : AccessUnit) (ns : List Nal) : List Nal :=
  ns.filter fun x => au.start ≤ x.code ∧ x.code < au.limit

/-- No access unit has 2^31 bytes: from one delimiter to the next, or to the end. -/
def Short (d : List UInt8) (ns : List Nal) : Prop :=
  (((ns.filter fun x => kind d x = 9).map Nal.code) ++ [d.length]).IsChain
    fun a b => b < a + 2 ^ 31

instance : Decidable (Short d ns) := inferInstanceAs (Decidable (List.IsChain _ _))

structure Indexed (d : List UInt8) (ns : List Nal) (aus : List AccessUnit) : Prop where
  tiles : ∃ x ∈ ns.head?, Tiles x.code d.length aus
  count : aus.length = (ns.filter fun x => kind d x = 9).length
  begins : ∀ au ∈ aus, ∃ x ∈ ns, x.code = au.start ∧ kind d x = 9
  single : ∀ au ∈ aus, ((au.nals ns).filter fun x => kind d x = 9).length = 1
  idr : ∀ au ∈ aus, au.isIdr = true ↔ ∃ x ∈ au.nals ns, kind d x = 5
  again : ∀ au ∈ aus,
    indexAccessUnits ((d.drop au.start).take au.size) = some (.ok [⟨0, au.bytes, au.isIdr⟩])

/-- What the sizes of the units cut from `aud` on come to. -/
theorem split_short {aud : Nal} {acc : List Nal}
    (horder : (aud :: ns).Pairwise fun x y => x.code < y.code)
    (hlen : ∀ x ∈ aud :: ns, x.code < d.length)
    (hshort : (aud.code :: ((ns.filter fun x => kind d x = 9).map Nal.code ++ [d.length])).IsChain
      fun a b => b < a + 2 ^ 31) :
    ∀ s ∈ split d aud acc ns, s.aud.code < s.stop ∧ s.stop < s.aud.code + 2 ^ 31 := by
  induction ns generalizing aud acc with
  | nil =>
    intro s hs
    cases List.mem_singleton.mp hs
    exact ⟨hlen aud List.mem_cons_self, (List.isChain_cons_cons.mp hshort).1⟩
  | cons x ns ih =>
    intro s hs
    obtain ⟨haud, hns⟩ := List.pairwise_cons.mp horder
    rw [split] at hs
    by_cases hx : kind d x = 9
    · rw [List.filter_cons_of_pos (by simpa using hx), List.map_cons, List.cons_append] at hshort
      obtain ⟨hfirst, hshort⟩ := List.isChain_cons_cons.mp hshort
      rw [if_pos hx] at hs
      rcases List.mem_cons.mp hs with rfl | hs
      · exact ⟨haud x List.mem_cons_self, hfirst⟩
      · exact ih hns (fun y hy => hlen y (List.mem_cons_of_mem aud hy)) hshort s hs
    · rw [List.filter_cons_of_neg (by simpa using hx)] at hshort
      rw [if_neg hx] at hs
      apply ih _ _ hshort s hs
      · exact List.pairwise_cons.mpr ⟨fun y hy => haud y (List.mem_cons_of_mem x hy),
          (List.pairwise_cons.mp hns).2⟩
      · intro y hy
        rcases List.mem_cons.mp hy with rfl | hy
        · exact hlen y List.mem_cons_self
        · exact hlen y (List.mem_cons_of_mem aud (List.mem_cons_of_mem x hy))

theorem Seg.toInt_bytes {s : Seg} (h : s.aud.code < s.stop ∧ s.stop < s.aud.code + 2 ^ 31) :
    (s.unit d).bytes.toInt = s.stop - s.aud.code :=
  Int32.toInt_ofInt_of_le (by omega) (by omega)

theorem Seg.limit_unit {s : Seg} (h : s.aud.code < s.stop ∧ s.stop < s.aud.code + 2 ^ 31) :
    (s.unit d).limit = s.stop := by
  have hstart : (s.unit d).start = s.aud.code := rfl
  rw [AccessUnit.limit, AccessUnit.size, Seg.toInt_bytes h, hstart]
  omega

theorem tiles_split {aud : Nal} {acc : List Nal}
    (h : ∀ s ∈ split d aud acc ns, s.aud.code < s.stop ∧ s.stop < s.aud.code + 2 ^ 31) :
    Tiles aud.code d.length ((split d aud acc ns).map (Seg.unit d)) := by
  induction ns generalizing aud acc with
  | nil =>
    have hs := h _ List.mem_cons_self
    refine ⟨rfl, ?_, Seg.limit_unit hs⟩
    rw [Seg.toInt_bytes hs]
    omega
  | cons x ns ih =>
    rw [split] at h ⊢
    by_cases hx : kind d x = 9
    · rw [if_pos hx] at h ⊢
      have hs := h _ List.mem_cons_self
      refine ⟨rfl, ?_, ?_⟩
      · rw [Seg.toInt_bytes hs]
        omega
      · rw [Seg.limit_unit hs]
        exact ih fun s hmem => h s (List.mem_cons_of_mem _ hmem)
    · rw [if_neg hx] at h ⊢
      exact ih h

theorem length_split (d : List UInt8) (aud : Nal) (acc ns : List Nal) :
    (split d aud acc ns).length = (ns.filter fun x => kind d x = 9).length + 1 := by
  induction ns generalizing aud acc with
  | nil => rfl
  | cons x ns ih =>
    rw [split]
    by_cases hx : kind d x = 9
    · rw [if_pos hx, List.filter_cons_of_pos (by simpa using hx), List.length_cons, List.length_cons,
        ih]
    · rw [if_neg hx, List.filter_cons_of_neg (by simpa using hx), ih]

/-- The NAL units inside a unit are those it was cut with. -/
theorem Seg.nals_unit {s : Seg} {before after : List Nal}
    (h : Nals d 0 (before ++ s.aud :: (s.rest ++ after))) (hend : EndsAt d after s.stop)
    (hshort : s.aud.code < s.stop ∧ s.stop < s.aud.code + 2 ^ 31) :
    (s.unit d).nals (before ++ s.aud :: (s.rest ++ after)) = s.aud :: s.rest := by
  obtain ⟨-, hin, hbefore⟩ := List.pairwise_append.mp h.pairwise
  obtain ⟨haud, hin⟩ := List.pairwise_cons.mp hin
  have htail : Nals d 0 ((before ++ s.aud :: s.rest) ++ after) := by simpa using h
  have hle := hend.pos_le htail
  have hpos (x : Nal) (hx : x ∈ before ++ s.aud :: (s.rest ++ after)) : x.code < x.pos :=
    (h.bounds x hx).2.1
  have hbefore' : before.filter (fun x => s.aud.code ≤ x.code ∧ x.code < s.stop) = [] := by
    apply List.filter_eq_nil_iff.mpr
    intro x hx
    have hlt := hbefore x hx s.aud List.mem_cons_self
    have := hpos x (List.mem_append_left _ hx)
    rw [decide_eq_true_iff]
    omega
  have hin' : (s.aud :: s.rest).filter (fun x => s.aud.code ≤ x.code ∧ x.code < s.stop) =
      s.aud :: s.rest := by
    apply List.filter_eq_self.mpr
    intro x hx
    have hstop := hle x (List.mem_append_right _ hx)
    have hlt := hpos x (by simp at hx ⊢; tauto)
    have haudpos := hpos s.aud (by simp)
    rw [decide_eq_true_iff]
    rcases List.mem_cons.mp hx with rfl | hx
    · omega
    · have := haud x (List.mem_append_left _ hx)
      omega
  have hafter : after.filter (fun x => s.aud.code ≤ x.code ∧ x.code < s.stop) = [] := by
    obtain ⟨j, -, hafter⟩ := htail.append_right
    apply List.filter_eq_nil_iff.mpr
    intro x hx
    have := hend.le_code hafter x hx
    rw [decide_eq_true_iff]
    omega
  rw [AccessUnit.nals, Seg.limit_unit hshort, List.filter_append, ← List.cons_append,
    List.filter_append]
  exact (congrArg₂ _ hbefore' (congrArg₂ _ hin' hafter)).trans (by simp)

/-- In a buffer of less than 2^31 bytes every access unit is short. -/
theorem short_of_length (h : Nals d i ns) (hlen : d.length < 2 ^ 31) : Short d ns := by
  apply List.Pairwise.isChain
  apply List.pairwise_of_forall_mem_list
  intro a _ b hb
  rcases List.mem_append.mp hb with hb | hb
  · obtain ⟨x, hx, rfl⟩ := List.mem_map.mp hb
    have := h.bounds x (List.mem_of_mem_filter hx)
    omega
  · rw [List.mem_singleton.mp hb]
    omega

theorem Nals.codes_lt (h : Nals d i ns) : ns.Pairwise fun x y => x.code < y.code := by
  apply List.Pairwise.imp_of_mem _ h.pairwise
  intro x y hx _ hle
  have := h.bounds x hx
  omega

theorem indexed_split {aud : Nal} (h : Nals d 0 (aud :: ns)) (haud : kind d aud = 9)
    (hshort : Short d (aud :: ns)) :
    Indexed d (aud :: ns) ((split d aud [] ns).map (Seg.unit d)) := by
  have hlen : ∀ x ∈ aud :: ns, x.code < d.length := by
    intro x hx
    have := h.bounds x hx
    omega
  rw [Short, List.filter_cons_of_pos (by simpa using haud), List.map_cons, List.cons_append]
    at hshort
  have hsizes : ∀ s ∈ split d aud [] ns, s.aud.code < s.stop ∧ s.stop < s.aud.code + 2 ^ 31 :=
    split_short h.codes_lt hlen hshort
  have hcut (au : AccessUnit) (hau : au ∈ (split d aud [] ns).map (Seg.unit d)) :
      ∃ (s : Seg) (before after : List Nal), au = s.unit d ∧
        aud :: ns = before ++ s.aud :: (s.rest ++ after) ∧ kind d s.aud = 9 ∧
        (∀ x ∈ s.rest, kind d x ≠ 9) ∧ EndsAt d after s.stop ∧
        s.aud.code < s.stop ∧ s.stop < s.aud.code + 2 ^ 31 := by
    obtain ⟨s, hs, rfl⟩ := List.mem_map.mp hau
    obtain ⟨hkind, hrest, before, after, heq, hend⟩ := mem_split hs haud (fun x hx => nomatch hx)
    exact ⟨s, before, after, rfl, heq, hkind, hrest, hend, hsizes s hs⟩
  refine ⟨⟨aud, rfl, tiles_split hsizes⟩, ?_, fun au hau => ?_, fun au hau => ?_,
    fun au hau => ?_, fun au hau => ?_⟩
  · rw [List.length_map, length_split, List.filter_cons_of_pos (by simpa using haud),
      List.length_cons]
  · obtain ⟨s, before, after, rfl, heq, hkind, -⟩ := hcut au hau
    exact ⟨s.aud, by rw [heq]; simp, rfl, hkind⟩
  · obtain ⟨s, before, after, rfl, heq, hkind, hrest, hend, hsize⟩ := hcut au hau
    rw [heq] at h ⊢
    rw [Seg.nals_unit h hend hsize, List.filter_cons_of_pos (by simpa using hkind),
      List.filter_eq_nil_iff.mpr (by simpa using hrest)]
    rfl
  · obtain ⟨s, before, after, rfl, heq, hkind, -, hend, hsize⟩ := hcut au hau
    rw [heq] at h ⊢
    rw [Seg.nals_unit h hend hsize]
    simp [Seg.unit, hkind]
  · obtain ⟨s, before, after, rfl, heq, hkind, hrest, hend, hsize⟩ := hcut au hau
    rw [heq] at h
    obtain ⟨j, -, hunit⟩ := h.append_right
    have hbytes : (d.drop (s.unit d).start).take (s.unit d).size = slice d s.aud.code s.stop := by
      have hstart : (s.unit d).start = s.aud.code := rfl
      rw [slice, AccessUnit.size, Seg.toInt_bytes hsize, hstart]
      congr 1
      omega
    rw [hbytes]
    exact indexAccessUnits_slice hunit hkind hrest hend

/-- The index of any buffer.  No read lies outside it; an error says that there is
no NAL unit or that the first is no delimiter; otherwise the access units tile the
buffer from its first start code, one for each delimiter. -/
theorem indexAccessUnits_indexed (d : List UInt8) :
    ∃ ns r, Nals d 0 ns ∧ indexAccessUnits d = some r ∧
      ((∃ e, r = .error e) ↔ ∀ x ∈ ns.head?, kind d x ≠ 9) ∧
      (Short d ns → ∀ aus, r = .ok aus → Indexed d ns aus) := by
  obtain ⟨ns, h⟩ := exists_nals d 0
  refine ⟨ns, _, h, indexAccessUnits_eq h, ?_, ?_⟩
  · cases ns with
    | nil => simp
    | cons x ns =>
      by_cases hx : kind d x = 9
      · simp [hx]
      · simp [hx]
  · intro hshort aus haus
    cases ns with
    | nil => cases haus
    | cons x ns =>
      by_cases hx : kind d x = 9
      · simp only [hx, if_true] at haus
        cases haus
        exact indexed_split h hx hshort
      · simp only [hx, if_false] at haus
        cases haus

def twoUnits : List UInt8 :=
  [0, 0, 0, 1, 0x09, 0xf0, 0, 0, 1, 0x65, 7, 0, 0, 1, 0, 0, 0, 1, 0x09, 0xf0, 0, 0, 1, 0x41, 7]

theorem indexAccessUnits_indexed_twoUnits :
    ∃ ns, Indexed twoUnits ns [⟨0, 14, true⟩, ⟨14, 11, false⟩] := by
  obtain ⟨ns, r, hnals, hr, -, hok⟩ := indexAccessUnits_indexed twoUnits
  have heq : indexAccessUnits twoUnits = some (.ok [⟨0, 14, true⟩, ⟨14, 11, false⟩]) := by
    decide +kernel
  exact ⟨ns, hok (short_of_length hnals (by decide)) _ (Option.some.inj (hr.symm.trans heq))⟩

end AnnexB
end P5G
