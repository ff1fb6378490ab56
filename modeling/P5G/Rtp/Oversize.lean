import P5G.Rtp.Fragmentation

/-!
# Access units larger than the buffer

`Append` refuses a chunk that does not fit and goes on with the next, and a NAL
unit is several chunks: a start code, a header, fragments.  What is left of an
access unit that arrives without losses is what its chunks leave, and each of
its NAL units is in it whole or not at all exactly where the fill level is
right for each.
-/

namespace P5G

/-! ## Chunks and a capacity -/

section Packed

variable {cap : Nat}

/-- What is written of the chunks that come after `f` bytes. -/
def packed (cap : Nat) : Nat → List (List UInt8) → List UInt8
  | _, [] => []
  | f, c :: cs => if f + c.length ≤ cap then c ++ packed cap (f + c.length) cs else packed cap f cs

theorem packed_append (f : Nat) (as bs : List (List UInt8)) :
    packed cap f (as ++ bs) = packed cap f as ++ packed cap (f + (packed cap f as).length) bs := by
  induction as generalizing f with
  | nil => rfl
  | cons a as ih =>
    rw [List.cons_append, packed, packed]
    by_cases h : f + a.length ≤ cap
    · rw [if_pos h, if_pos h, ih, List.append_assoc, List.length_append, Nat.add_assoc]
    · rw [if_neg h, if_neg h, ih]

theorem packed_le {f : Nat} (hf : f ≤ cap) (cs : List (List UInt8)) :
    f + (packed cap f cs).length ≤ cap := by
  induction cs generalizing f with
  | nil => exact hf
  | cons c cs ih =>
    rw [packed]
    by_cases h : f + c.length ≤ cap
    · have hrest := ih h
      rw [if_pos h, List.length_append]
      omega
    · rw [if_neg h]
      exact ih hf

theorem packed_length_le (f : Nat) (cs : List (List UInt8)) :
    (packed cap f cs).length ≤ cs.flatten.length := by
  induction cs generalizing f with
  | nil => exact Nat.le_refl _
  | cons c cs ih =>
    rw [packed, List.flatten_cons, List.length_append]
    by_cases h : f + c.length ≤ cap
    · have hrest := ih (f + c.length)
      rw [if_pos h, List.length_append]
      omega
    · have hrest := ih f
      rw [if_neg h]
      omega

theorem packed_all {f : Nat} {cs : List (List UInt8)} (h : f + cs.flatten.length ≤ cap) :
    packed cap f cs = cs.flatten := by
  induction cs generalizing f with
  | nil => rfl
  | cons c cs ih =>
    rw [List.flatten_cons, List.length_append] at h
    rw [packed, if_pos (by omega), List.flatten_cons, ih (by omega)]

theorem packed_eq_nil {f : Nat} {cs : List (List UInt8)} :
    packed cap f cs = [] ↔ ∀ c ∈ cs, c ≠ [] → cap < f + c.length := by
  induction cs with
  | nil => simp [packed]
  | cons c cs ih =>
    rw [packed]
    by_cases h : f + c.length ≤ cap
    · rw [if_pos h, List.append_eq_nil_iff]
      constructor
      · rintro ⟨rfl, hrest⟩ d hd hne
        rcases List.mem_cons.mp hd with rfl | hd
        · exact absurd rfl hne
        · exact ih.mp hrest d hd hne
      · intro hall
        have hnil : c = [] := by
          by_contra hne
          have hlt := hall c List.mem_cons_self hne
          omega
        subst hnil
        exact ⟨rfl, ih.mpr fun d hd => hall d (List.mem_cons_of_mem _ hd)⟩
    · rw [if_neg h, ih]
      constructor
      · intro hrest d hd hne
        rcases List.mem_cons.mp hd with rfl | hd
        · omega
        · exact hrest d hd hne
      · exact fun hall d hd => hall d (List.mem_cons_of_mem c hd)

/-- The chunks of one NAL unit after `f` bytes: all of them, or none. -/
theorem packed_whole {f : Nat} (hf : f ≤ cap) (cs : List (List UInt8)) :
    packed cap f cs = cs.flatten ↔ f + cs.flatten.length ≤ cap := by
  constructor
  · intro h
    have hle := packed_le hf cs
    rwa [h] at hle
  · exact packed_all

def contributions (cap : Nat) : Nat → List (Nal × List (List UInt8)) → List (Nal × List UInt8)
  | _, [] => []
  | f, (n, cs) :: ls => (n, packed cap f cs) :: contributions cap (f + (packed cap f cs).length) ls

theorem contributions_packed (f : Nat) (ls : List (Nal × List (List UInt8))) :
    (contributions cap f ls).flatMap Prod.snd = packed cap f (ls.flatMap Prod.snd) := by
  induction ls generalizing f with
  | nil => rfl
  | cons l ls ih =>
    rw [contributions, List.flatMap_cons, List.flatMap_cons, packed_append, ih]

/-- At every NAL unit there is room for all of it, or for none of its chunks. -/
def Tidy (cap : Nat) : Nat → List (Nal × List (List UInt8)) → Prop
  | _, [] => True
  | f, (n, cs) :: ls =>
    f + n.annexB.length ≤ cap ∧ Tidy cap (f + n.annexB.length) ls ∨
      (∀ c ∈ cs, c ≠ [] → cap < f + c.length) ∧ Tidy cap f ls

theorem tidy_iff (ls : List (Nal × List (List UInt8)))
    (hls : ∀ l ∈ ls, l.2.flatten = l.1.annexB) {f : Nat} (hf : f ≤ cap) :
    (∀ c ∈ contributions cap f ls, c.2 = [] ∨ c.2 = c.1.annexB) ↔ Tidy cap f ls := by
  induction ls generalizing f with
  | nil => simp [contributions, Tidy]
  | cons l ls ih =>
    obtain ⟨n, cs⟩ := l
    have hflat : cs.flatten = n.annexB := hls (n, cs) List.mem_cons_self
    have hrest := fun {k : Nat} (hk : k ≤ cap) =>
      ih (fun l hl => hls l (List.mem_cons_of_mem _ hl)) hk
    have hwhole := packed_whole hf cs
    have hnone := @packed_eq_nil cap f cs
    rw [hflat] at hwhole
    rw [contributions, Tidy, List.forall_mem_cons]
    constructor
    · rintro ⟨hnil | hall, htail⟩
      · have hnil : packed cap f cs = [] := hnil
        rw [hnil] at htail
        exact .inr ⟨hnone.mp hnil, (hrest hf).mp htail⟩
      · have hall : packed cap f cs = n.annexB := hall
        rw [hall] at htail
        exact .inl ⟨hwhole.mp hall, (hrest (hwhole.mp hall)).mp htail⟩
    · rintro (⟨hroom, htail⟩ | ⟨hrefused, htail⟩)
      · have hall := hwhole.mpr hroom
        rw [hall]
        exact ⟨.inr rfl, (hrest hroom).mpr htail⟩
      · have hnil := hnone.mpr hrefused
        rw [hnil]
        exact ⟨.inl rfl, (hrest hf).mpr htail⟩

/-- Contributions that are whole or nothing spell some of the NAL units, in order. -/
theorem sublist_of_contributions (ls : List (Nal × List (List UInt8))) {f : Nat}
    (h : ∀ c ∈ contributions cap f ls, c.2 = [] ∨ c.2 = c.1.annexB) :
    ∃ ns, ns.Sublist (ls.map Prod.fst) ∧ (contributions cap f ls).flatMap Prod.snd = annexB ns := by
  induction ls generalizing f with
  | nil => exact ⟨[], List.Sublist.slnil, rfl⟩
  | cons l ls ih =>
    obtain ⟨n, cs⟩ := l
    rw [contributions, List.forall_mem_cons] at h
    obtain ⟨ns, hns, hdata⟩ := ih h.2
    rw [contributions, List.flatMap_cons, hdata, List.map_cons]
    rcases h.1 with hnil | hall
    · exact ⟨ns, hns.cons n, congrArg (· ++ annexB ns) hnil⟩
    · refine ⟨n :: ns, hns.cons_cons n, ?_⟩
      rw [annexB_cons]
      exact congrArg (· ++ annexB ns) hall

end Packed

def nalChunks (n : Nal) : List (List UInt8) := [startCode, n.bytes]

/-- The chunks that `Push` appends for a packet. -/
def Piece.chunks : Piece → List (List UInt8)
  | single n => nalChunks n
  | stapA a => a.nals.flatMap nalChunks
  | fuA n start _ fragment => (if start then [startCode, [n.hdr]] else []) ++ [fragment]

/-- The NAL units, each with the chunks that it arrives in. -/
def Packing.ledger : Packing → List (Nal × List (List UInt8))
  | single n => [(n, nalChunks n)]
  | stapA a => a.nals.map fun n => (n, nalChunks n)
  | fuA f => [(f.nal, startCode :: [f.nal.hdr] :: f.first :: (f.middle ++ [f.last]))]

def SentAu.ledger (au : SentAu) : List (Nal × List (List UInt8)) :=
  au.units.flatMap fun u => u.packing.ledger

theorem Packing.ledger_chunks (k : Packing) :
    k.ledger.flatMap Prod.snd = k.pieces.flatMap Piece.chunks := by
  cases k with
  | single n => rfl
  | stapA a => simp [ledger, pieces, Piece.chunks, List.flatMap_map]
  | fuA f =>
    have hmiddle : (f.middle.map (Piece.fuA f.nal false false)).flatMap Piece.chunks = f.middle := by
      induction f.middle with
      | nil => rfl
      | cons x middle ih => rw [List.map_cons, List.flatMap_cons, ih]; rfl
    rw [pieces, List.flatMap_cons, List.flatMap_append, hmiddle]
    simp [ledger, Piece.chunks]

theorem Packing.ledger_nals (k : Packing) : k.ledger.map Prod.fst = k.nals := by
  cases k with
  | single n => rfl
  | stapA a => simp [ledger, nals, Function.comp_def]
  | fuA f => rfl

theorem Packing.ledger_flatten (k : Packing) : ∀ l ∈ k.ledger, l.2.flatten = l.1.annexB := by
  cases k with
  | single n => simp [ledger, nalChunks, Nal.annexB]
  | stapA a => simp [ledger, nalChunks, Nal.annexB]
  | fuA f =>
    have hbody := f.whole
    simp only [ledger, List.mem_singleton, forall_eq, List.flatten_cons, List.flatten_append,
      List.flatten_nil, List.append_nil, Nal.annexB, Nal.bytes, List.cons_append, List.nil_append]
    rw [← hbody, List.append_assoc]

theorem SentAu.ledger_chunks (au : SentAu) :
    au.ledger.flatMap Prod.snd = (au.packets.map Sent.piece).flatMap Piece.chunks := by
  rw [ledger, packets]
  induction au.units with
  | nil => rfl
  | cons u us ih =>
    rw [List.flatMap_cons, List.flatMap_cons, List.flatMap_append, List.map_append,
      List.flatMap_append, ih, u.packing.ledger_chunks, u.cut]

theorem SentAu.ledger_nals (au : SentAu) : au.ledger.map Prod.fst = au.nals := by
  rw [ledger, nals, List.map_flatMap]
  exact List.flatMap_congr fun u _ => u.packing.ledger_nals

theorem SentAu.ledger_flatten (au : SentAu) : ∀ l ∈ au.ledger, l.2.flatten = l.1.annexB := by
  intro l hl
  obtain ⟨u, -, hu⟩ := List.mem_flatMap.mp hl
  exact u.packing.ledger_flatten l hu

/-- The chunks of an access unit are its Annex B form. -/
theorem SentAu.chunks_flatten (au : SentAu) :
    ((au.packets.map Sent.piece).flatMap Piece.chunks).flatten = annexB au.nals := by
  rw [← au.ledger_chunks, ← au.ledger_nals, annexB]
  have hall := au.ledger_flatten
  generalize au.ledger = ls at hall
  induction ls with
  | nil => rfl
  | cons l ls ih =>
    rw [List.flatMap_cons, List.flatten_append, List.map_cons, List.flatMap_cons,
      hall l List.mem_cons_self, ih fun m hm => hall m (List.mem_cons_of_mem l hm)]

/-! ## Pieces in order -/

def Piece.opens : Piece → Bool
  | fuA _ _ last _ => !last
  | _ => false

/-- Where an FU-A unit is open the piece goes on with it. -/
def Piece.follows (p : Piece) (opened : Bool) : Bool :=
  match p with
  | fuA _ start _ _ => start != opened
  | _ => !opened

def opened (ps : List Piece) : Bool := ps.getLast?.any Piece.opens

def Ordered (ps : List Piece) : Prop :=
  ∀ pre p post, ps = pre ++ p :: post → p.follows (opened pre) = true

theorem ordered_concat {ps : List Piece} {p : Piece} (h : Ordered (ps ++ [p])) :
    Ordered ps ∧ p.follows (opened ps) = true := by
  refine ⟨fun pre q post hps => h pre q (post ++ [p]) (by rw [hps]; simp), h ps p [] rfl⟩

theorem opened_concat (ps : List Piece) (p : Piece) : opened (ps ++ [p]) = p.opens := by
  simp [opened]

theorem ordered_append {ps qs : List Piece} (hps : Ordered ps) (hclosed : opened ps = false)
    (hqs : Ordered qs) : Ordered (ps ++ qs) := by
  intro pre p post hsplit
  rcases List.append_eq_append_iff.mp hsplit with ⟨front, rfl, hback⟩ | ⟨back, rfl, hback⟩
  · have hfollows := hqs front p post hback
    rcases List.eq_nil_or_concat front with rfl | ⟨front, x, rfl⟩
    · rw [List.append_nil, hclosed]
      exact hfollows
    · rw [List.concat_eq_append, opened_concat] at hfollows
      rw [List.concat_eq_append, ← List.append_assoc, opened_concat]
      exact hfollows
  · cases back with
    | nil =>
      rw [List.append_nil] at hclosed
      rw [hclosed]
      exact hqs [] p post hback.symm
    | cons x back =>
      obtain ⟨rfl, -⟩ := List.cons_eq_cons.mp hback
      exact hps pre p back rfl

theorem opened_of_all {ps : List Piece} (hne : ps ≠ []) (h : ∀ p ∈ ps, p.opens = true) :
    opened ps = true := by
  rw [opened, List.getLast?_eq_some_getLast hne]
  exact h _ (List.getLast_mem hne)

/-- The pieces of a unit are in order, and leave nothing open. -/
theorem ordered_pieces (k : Packing) : Ordered k.pieces ∧ opened k.pieces = false := by
  have hone : ∀ p : Piece, p.follows false = true → Ordered [p] := by
    intro p hp pre q post hsplit
    cases pre with
    | nil =>
      obtain ⟨rfl, -⟩ := List.cons_eq_cons.mp hsplit
      exact hp
    | cons x pre => simp at hsplit
  cases k with
  | single n => exact ⟨hone _ rfl, rfl⟩
  | stapA a => exact ⟨hone _ rfl, rfl⟩
  | fuA f =>
    refine ⟨?_, opened_concat (.fuA f.nal true false f.first ::
      f.middle.map (.fuA f.nal false false)) (.fuA f.nal false true f.last)⟩
    intro pre p post hsplit
    cases pre with
    | nil =>
      obtain ⟨rfl, -⟩ := List.cons_eq_cons.mp hsplit
      rfl
    | cons x pre =>
      obtain ⟨rfl, hrest⟩ := List.cons_eq_cons.mp hsplit
      have hrest : f.middle.map (Piece.fuA f.nal false false) ++ [.fuA f.nal false true f.last] =
          pre ++ p :: post := hrest
      have hp : p ∈ f.middle.map (Piece.fuA f.nal false false) ++
          [.fuA f.nal false true f.last] := by
        rw [hrest]
        simp
      have hfront := congrArg List.dropLast hrest
      rw [List.dropLast_concat, List.dropLast_append_of_ne_nil (List.cons_ne_nil p post)] at hfront
      have hopen : opened (Piece.fuA f.nal true false f.first :: pre) = true := by
        refine opened_of_all (List.cons_ne_nil _ _) fun q hq => ?_
        rcases List.mem_cons.mp hq with rfl | hq
        · rfl
        · have hmiddle : q ∈ f.middle.map (Piece.fuA f.nal false false) := by
            rw [hfront]
            exact List.mem_append_left _ hq
          obtain ⟨fragment, -, rfl⟩ := List.mem_map.mp hmiddle
          rfl
      rw [hopen]
      rcases List.mem_append.mp hp with hp | hp
      · obtain ⟨fragment, -, rfl⟩ := List.mem_map.mp hp
        rfl
      · obtain rfl := List.mem_singleton.mp hp
        rfl

theorem opened_append {ps qs : List Piece} (hps : opened ps = false) (hqs : opened qs = false) :
    opened (ps ++ qs) = false := by
  rcases List.eq_nil_or_concat qs with rfl | ⟨qs, q, rfl⟩
  · rwa [List.append_nil]
  · rw [List.concat_eq_append, opened_concat] at hqs
    rw [List.concat_eq_append, ← List.append_assoc, opened_concat]
    exact hqs

theorem ordered_au (au : SentAu) :
    Ordered (au.packets.map Sent.piece) ∧ opened (au.packets.map Sent.piece) = false := by
  rw [SentAu.packets]
  induction au.units with
  | nil => exact ⟨fun pre p post h => by simp at h, rfl⟩
  | cons u us ih =>
    obtain ⟨hordered, hclosed⟩ := ordered_pieces u.packing
    rw [List.flatMap_cons, List.map_append, u.cut]
    exact ⟨ordered_append hordered hclosed ih.1, opened_append hclosed ih.2⟩

/-! ## The depacketizer's buffer -/

namespace Depacketizer

variable {cap : Nat}

/-- The unit being assembled is what the capacity leaves of these chunks. -/
structure Filled (d : Depacketizer cap) (cs : List (List UInt8)) (o : Bool) : Prop where
  bytes : (d.buf.bytes d.cur).take d.len = packed cap 0 cs
  len : d.len = (packed cap 0 cs).length
  damaged : d.damaged = false ↔ packed cap 0 cs = cs.flatten
  fuOpen : d.fuOpen = o
  lostFrag : d.lostFrag = 0

namespace Filled

variable {d : Depacketizer cap} {cs : List (List UInt8)} {o : Bool}

theorem reset (d : Depacketizer cap) (ts : UInt32) : Filled (d.reset ts) [] false where
  bytes := rfl
  len := rfl
  damaged := ⟨fun _ => rfl, fun _ => rfl⟩
  fuOpen := rfl
  lostFrag := rfl

theorem append (h : Filled d cs o) (p : List UInt8) : Filled (d.append p) (cs ++ [p]) o := by
  have hpacked := @packed_append cap 0 cs [p]
  rw [Nat.zero_add, ← h.len, packed, packed, List.append_nil] at hpacked
  have hflat : (cs ++ [p]).flatten = cs.flatten ++ p := by simp
  by_cases hroom : d.len + p.length ≤ cap
  · rw [if_pos hroom] at hpacked
    rw [Depacketizer.append, dif_pos hroom]
    refine ⟨?_, ?_, ?_, h.fuOpen, h.lostFrag⟩
    · rw [hpacked, ← h.bytes]
      exact AuBuffers.write_take hroom
    · rw [hpacked, List.length_append, ← h.len]
    · rw [hpacked, hflat, List.append_left_inj]
      exact h.damaged
  · rw [if_neg hroom, packed, List.append_nil] at hpacked
    rw [Depacketizer.append, dif_neg hroom]
    refine ⟨?_, ?_, ?_, h.fuOpen, h.lostFrag⟩
    · rw [hpacked]
      exact h.bytes
    · rw [hpacked]
      exact h.len
    · rw [hpacked, hflat]
      constructor
      · intro hn
        cases hn
      intro hn
      have hlen := congrArg List.length hn
      have hle := @packed_length_le cap 0 cs
      have hcap := packed_le (Nat.zero_le cap) cs
      have hd := h.len
      rw [List.length_append] at hlen
      omega

theorem appendNal (h : Filled d cs o) (n : Nal) :
    Filled (d.appendNal n.bytes) (cs ++ nalChunks n) o := by
  have htwo : Filled (d.appendStartCode.append n.bytes) (cs ++ nalChunks n) o := by
    have happ := (h.append startCode).append n.bytes
    rwa [List.append_assoc] at happ
  rw [Depacketizer.appendNal]
  split
  · exact { htwo with }
  · exact htwo

theorem stapA (ns : List Nal) (hsizes : ∀ n ∈ ns, n.bytes.length < 2 ^ 16) {fuel : Nat}
    (hfuel : (ns.flatMap stapUnit).length ≤ fuel) (h : Filled d cs o) :
    Filled (Depacketizer.stapA fuel d (ns.flatMap stapUnit)) (cs ++ ns.flatMap nalChunks) o := by
  induction ns generalizing d cs fuel with
  | nil =>
    rw [List.flatMap_nil, List.flatMap_nil, List.append_nil]
    cases fuel with
    | zero => exact h
    | succ fuel => exact h
  | cons n ns ih =>
    have hunit : (n :: ns).flatMap stapUnit = UInt8.ofNat (n.bytes.length / 256) ::
        UInt8.ofNat n.bytes.length :: (n.bytes ++ ns.flatMap stapUnit) := rfl
    rw [hunit] at hfuel ⊢
    cases fuel with
    | zero => simp at hfuel
    | succ fuel =>
      have hpos : n.bytes.length ≠ 0 := by simp [Nal.bytes]
      rw [Depacketizer.stapA]
      simp only [be16_size (hsizes n List.mem_cons_self), hpos, List.length_append, false_or,
        Nat.not_lt.mpr (Nat.le_add_right _ _), ↓reduceIte, List.take_left, List.drop_left]
      rw [List.flatMap_cons, ← List.append_assoc]
      refine ih (fun m hm => hsizes m (List.mem_cons_of_mem n hm)) ?_ (h.appendNal n)
      simp only [List.length_cons, List.length_append] at hfuel
      omega

theorem continueFu (h : Filled d cs true) (last : Bool) (fragment : List UInt8) :
    Filled (d.continueFu last fragment) (cs ++ [fragment]) (!last) := by
  rw [Depacketizer.continueFu, if_pos h.fuOpen]
  exact { h.append fragment with fuOpen := rfl }

theorem startFu (h : Filled d cs false) (n : Nal) (last : Bool) :
    Filled (d.startFu (fuIndicator n) (fuHeader n true last))
      (cs ++ [startCode, [n.hdr]]) true := by
  have hclosed : d.closeFu = d := if_neg (by rw [h.fuOpen]; exact Bool.false_ne_true)
  have hhdr : fuIndicator n &&& 0xe0 ||| fuHeader n true last &&& 0x1f = n.hdr := by
    rw [fuHeader_type, fuIndicator_hdr]
  have hstart : Filled { d with fuStart := d.len, orphan := false } cs false := { h with }
  have happ := (hstart.append startCode).append [n.hdr]
  rw [List.append_assoc] at happ
  rw [Depacketizer.startFu, hclosed, hhdr]
  exact { happ with fuOpen := rfl }

/-- One payload that follows what is open. -/
theorem payload (h : Filled d cs o) {p : Piece} (hp : p.follows o = true) :
    Filled (d.payload p.payload) (cs ++ p.chunks) p.opens := by
  cases p with
  | single n =>
    obtain rfl : o = false := by simpa [Piece.follows] using hp
    simp only [Piece.payload, Nal.bytes, Depacketizer.payload, n.type_pos, n.type_le, and_self,
      ↓reduceIte]
    exact { h.appendNal n with }
  | stapA g =>
    obtain rfl : o = false := by simpa [Piece.follows] using hp
    have hdec : ¬(1 ≤ (24 : UInt8) ∧ (24 : UInt8) ≤ 23) := by decide
    have hd : Filled { d with orphan := false } cs false := { h with }
    simp only [Piece.payload, Depacketizer.payload, g.stapA, hdec, ↓reduceIte]
    exact hd.stapA g.nals g.sizes (Nat.le_refl _)
  | fuA n start last fragment =>
    have hdec : ¬(1 ≤ (28 : UInt8) ∧ (28 : UInt8) ≤ 23) := by decide
    have hne : (28 : UInt8) ≠ 24 := by decide
    simp only [Piece.payload, Depacketizer.payload, nalType_fuIndicator, hdec, hne, ↓reduceIte]
    rw [Depacketizer.fuA, fuHeader_last]
    cases start with
    | false =>
      obtain rfl : o = true := by simpa [Piece.follows] using hp
      rw [if_pos ((fuHeader_start n false last).mpr rfl)]
      exact h.continueFu last fragment
    | true =>
      obtain rfl : o = false := by simpa [Piece.follows] using hp
      have hchunks : cs ++ (Piece.fuA n true last fragment).chunks =
          cs ++ [startCode, [n.hdr]] ++ [fragment] := by simp [Piece.chunks]
      rw [if_neg (by simp [fuHeader_start]), hchunks]
      exact (h.startFu n last).continueFu last fragment

end Filled

def Fills (d : Depacketizer cap) (es : List Entry) : Prop :=
  Counts d es ∧ ∀ ps : List Piece, es.map (fun x => x.packet.payload) = ps.map Piece.payload →
    (∀ x ∈ es, x.gap = 0) → Ordered ps → Filled d (ps.flatMap Piece.chunks) (opened ps)

theorem fills_content : @Content cap Fills where
  packets h := h.1.packets
  outside := by
    rintro d es a b c e f g k l ⟨hcounts, hfilled⟩
    refine ⟨counts_content.outside a b c e f g k l hcounts, fun ps hps hgaps hordered => ?_⟩
    exact { hfilled ps hps hgaps hordered with }
  reset := by
    intro d ts
    refine ⟨counts_content.reset d ts, fun ps hps _ _ => ?_⟩
    obtain rfl : ps = [] := by simpa using hps.symm
    exact Filled.reset d ts
  take := by
    rintro d es x ⟨hcounts, hfilled⟩ hts hcur hgap
    refine ⟨counts_content.take hcounts hts hcur hgap, fun ps hps hgaps hordered => ?_⟩
    rw [List.map_append] at hps
    obtain ⟨qs, rs, rfl, hqs, hrs⟩ := List.map_eq_append_iff.mp hps.symm
    obtain ⟨p, rfl, hp⟩ : ∃ p, rs = [p] ∧ p.payload = x.packet.payload := by
      simpa [List.map_eq_singleton_iff] using hrs
    obtain ⟨hfront, hfollows⟩ := ordered_concat hordered
    have hzero : d.pendingGap = 0 := hgap.trans (hgaps x (by simp))
    have hd : Filled d (qs.flatMap Piece.chunks) (opened qs) :=
      hfilled qs hqs.symm (fun y hy => hgaps y (List.mem_append_left [x] hy)) hfront
    have hnogap : (d.stamp x.arrival).countGap = d.stamp x.arrival := if_pos hzero
    have hd' : Filled { d.stamp x.arrival with packets := (d.stamp x.arrival).packets + 1 }
        (qs.flatMap Piece.chunks) (opened qs) := { hd with }
    rw [Depacketizer.take, enter_same hts hcur, hnogap, ← hp, List.flatMap_append,
      opened_concat]
    have hpay := hd'.payload hfollows
    simpa using hpay

/-! ## Events -/

theorem replay_lossless {ps : List Sent} (h : ∀ p ∈ ps, p.lost = false) :
    (replay 0 ps).map (fun x => x.packet.payload) = (ps.map Sent.piece).map Piece.payload ∧
      ∀ x ∈ replay 0 ps, x.gap = 0 := by
  induction ps with
  | nil => exact ⟨rfl, by simp [replay]⟩
  | cons p ps ih =>
    obtain ⟨hpayloads, hgaps⟩ := ih fun q hq => h q (List.mem_cons_of_mem p hq)
    have hp := h p List.mem_cons_self
    cases hf : p.fate with
    | none =>
      rw [Sent.lost_none hf] at hp
      cases hp
    | some r =>
      rw [replay_some hf, List.map_cons, List.map_cons, List.map_cons, hpayloads, p.carries]
      refine ⟨rfl, fun x hx => ?_⟩
      rcases List.mem_cons.mp hx with rfl | hx
      · rfl
      · exact hgaps x hx

theorem gaps_eq_zero {es : List Entry} (h : ∀ x ∈ es, x.gap = 0) : gaps es = 0 := by
  rw [gaps, List.sum_eq_zero_iff]
  intro n hn
  obtain ⟨x, hx, rfl⟩ := List.mem_map.mp hn
  exact h x hx

/-- The bytes of an access unit that arrived without losses, and whether it is
reported as complete. -/
structure Leaves (cap : Nat) (au : SentAu) (x : AuEvent × List UInt8) : Prop where
  rtpTs : x.1.rtpTs = au.ts
  data : x.2 = (contributions cap 0 au.ledger).flatMap Prod.snd
  complete : x.1.complete = true ↔ (annexB au.nals).length ≤ cap

theorem leaves_of_tells {au : SentAu} (hall : ∀ p ∈ au.packets, p.lost = false)
    {x : AuEvent × List UInt8}
    (h : @Tells cap Fills ⟨au.ts, replay 0 au.packets, 0, true⟩ x) : Leaves cap au x := by
  obtain ⟨d, ⟨hcounts, hfills⟩, hts, -, hx, hdata⟩ := h
  obtain ⟨hpayloads, hgaps⟩ := replay_lossless hall
  obtain ⟨hordered, hclosed⟩ := ordered_au au
  have hd := hfills _ hpayloads hgaps hordered
  rw [hclosed] at hd
  have hclose : d.closeFu = d := if_neg (by rw [hd.fuOpen]; exact Bool.false_ne_true)
  rw [closeFu_lost, hclose] at hx
  rw [hclose, hd.bytes, ← au.ledger_chunks, ← contributions_packed] at hdata
  have hlost : d.lost = 0 := hcounts.lost.trans (gaps_eq_zero hgaps)
  refine ⟨?_, hdata, ?_⟩
  · exact (congrArg AuEvent.rtpTs hx).trans hts
  · have hcomplete := congrArg AuEvent.complete hx
    have hwhole := @packed_whole cap 0 (Nat.zero_le _)
      ((au.packets.map Sent.piece).flatMap Piece.chunks)
    rw [au.chunks_flatten, Nat.zero_add] at hwhole
    have hdamaged := hd.damaged
    rw [au.chunks_flatten, hwhole] at hdamaged
    rw [hcomplete]
    simp only [event, hlost, hd.lostFrag, Nat.add_zero, Bool.true_and, beq_self_eq_true,
      Bool.and_eq_true, Bool.not_eq_true', decide_eq_true_eq, hdamaged]
    constructor
    · exact fun hn => hn.1
    · intro hfit
      refine ⟨hfit, ?_⟩
      rw [hd.len, hwhole.mpr hfit]
      exact annexB_pos au

/-- Whole NAL units of the access unit and nothing else, in order, each of them
whole or left out, and complete exactly if all of them fit. -/
structure YieldsWhole (cap : Nat) (au : SentAu) (x : AuEvent × List UInt8) : Prop where
  nals : ∃ ns, ns.Sublist au.nals ∧ x.2 = annexB ns
  whole : ∀ c ∈ contributions cap 0 au.ledger, c.2 = [] ∨ c.2 = c.1.annexB
  complete : x.1.complete = true ↔ (annexB au.nals).length ≤ cap

/-- One event for each access unit of a lossless stream.  Its bytes are what
`Append` accepts, and they are whole NAL units exactly if at each of them there
is room for all of it or for no chunk of it. -/
theorem oversize_whole (bufs : AuBuffers cap) (s : SentStream)
    (hall : ∀ p ∈ s.packets, p.lost = false) :
    List.Forall₂ (fun au x => x.1.rtpTs = au.ts ∧
        x.2 = (contributions cap 0 au.ledger).flatMap Prod.snd ∧
          (YieldsWhole cap au x ↔ Tidy cap 0 au.ledger))
      s.aus (({ buf := bufs } : Depacketizer cap).receiveAll s.arrivals).2 := by
  have hgroups := Grouping.receiveAll_lossless s.aus (r := {}) (.inl rfl) rfl hall s.consecutive
  have htells := ((follows_fresh fills_content bufs).receiveAll fills_content s.arrivals).2
  rw [SentStream.arrivals, SentStream.packets, hgroups, List.forall₂_map_left_iff] at htells
  have hboth := (List.forall₂_and_left _ _).mpr ⟨fun au hau => hau, htells⟩
  refine hboth.imp fun au x h => ?_
  have hau : ∀ p ∈ au.packets, p.lost = false := fun p hp =>
    hall p (List.mem_flatMap.mpr ⟨au, h.1, hp⟩)
  have hleaves := leaves_of_tells hau h.2
  have htidy := tidy_iff au.ledger au.ledger_flatten (Nat.zero_le cap)
  refine ⟨hleaves.rtpTs, hleaves.data, ?_⟩
  constructor
  · exact fun hyields => htidy.mp hyields.whole
  · intro ht
    have hwhole := htidy.mpr ht
    obtain ⟨ns, hns, hdata⟩ := sublist_of_contributions au.ledger hwhole
    rw [au.ledger_nals] at hns
    exact ⟨⟨ns, hns, hleaves.data.trans hdata⟩, hwhole, hleaves.complete⟩

end Depacketizer

/-! Two slices of two bytes each, and ten bytes of buffer. -/

def twoSlices : SentAu where
  ts := 3000
  units :=
    [⟨.single sliceNal, [packet (.single sliceNal) 0 3000 0 (some 10)], rfl⟩,
      ⟨.single sliceNal, [packet (.single sliceNal) 1 3000 1 (some 20)], rfl⟩]
  nonempty := by decide
  stamped := by decide
  marked := by decide

def twoSliceStream : SentStream where
  aus := [twoSlices]
  seq := 0
  consecutive := by decide
  stamps := by decide

theorem oversize_whole_twoSlices :
    List.Forall₂ (fun au x => x.1.rtpTs = au.ts ∧
        x.2 = (contributions 10 0 au.ledger).flatMap Prod.snd ∧
          (Depacketizer.YieldsWhole 10 au x ↔ Tidy 10 0 au.ledger))
      [twoSlices] (({ buf := AuBuffers.zeroed 10 } : Depacketizer 10).receiveAll
        twoSliceStream.arrivals).2 :=
  Depacketizer.oversize_whole (AuBuffers.zeroed 10) twoSliceStream (by decide)

/-- The start code of the second slice fits, and the slice does not. -/
theorem start_code_without_nal :
    ¬∀ s : SentStream, (∀ p ∈ s.packets, p.lost = false) →
      List.Forall₂ (fun au x => (∃ ns, ns.Sublist au.nals ∧ x.2 = annexB ns) ∧
          (x.1.complete = true ↔ (annexB au.nals).length ≤ 10))
        s.aus (({ buf := AuBuffers.zeroed 10 } : Depacketizer 10).receiveAll s.arrivals).2 := by
  intro h
  have hevents := h twoSliceStream (by decide)
  obtain ⟨x, xs, ⟨⟨ns, hns, hx⟩, -⟩, -, heq⟩ := List.forall₂_cons_left_iff.mp hevents
  have hall : ∀ y ∈ (({ buf := AuBuffers.zeroed 10 } : Depacketizer 10).receiveAll
      twoSliceStream.arrivals).2, y.2 = startCode ++ [0x41, 7] ++ startCode := by
    decide +kernel
  rw [heq] at hall
  have hdata := hall x List.mem_cons_self
  have hnone : ∀ ns ∈ twoSlices.nals.sublists,
      annexB ns ≠ startCode ++ [0x41, 7] ++ startCode := by
    decide
  exact hnone ns (List.mem_sublists.mpr hns) (hx.symm.trans hdata)

end P5G
