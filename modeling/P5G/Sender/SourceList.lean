import P5G.Text.CliArgs

/-!
# The rungs of `--source`

`a.h264@2500,b.h264@1000`: the loop of the sender's `main` that cuts the items at the commas and
each item at its last `@`.
-/

namespace P5G
namespace SourceList

open CliArgs (Word atoi atoi_decimal)
open Numeral (decimal)

structure Item where
  path : Word
  kbps : Int
  deriving DecidableEq

/-- The two errors of the loop. -/
inductive Refusal where
  | notPair (item : Word)
  | badKbps (item : Word)
  deriving DecidableEq

def Refusal.message : Refusal → Word
  | notPair item => "--source item '".toList ++ item ++ "' must be path@kbps".toList
  | badKbps item => "--source item '".toList ++ item ++ "': bad kbps".toList

/-- How the loop ends early: with `P5G_FATAL`, or in a call of `atoi` for a number that no
`int` holds.  Such a call is undefined, and nothing is said of what the program does then. -/
inductive Stop where
  | fatal (e : Refusal)
  | undefined
  deriving DecidableEq

def rfindAt (item : Word) : Option Nat :=
  (item.reverse.findIdx? (· = '@')).map fun i => item.length - 1 - i

def parseItem (item : Word) : Except Stop Item :=
  match rfindAt item with
  | none => .error (.fatal (.notPair item))
  | some i =>
    match atoi (item.drop (i + 1)) with
    | none => .error .undefined
    | some kbps => if kbps ≤ 0 then .error (.fatal (.badKbps item)) else .ok ⟨item.take i, kbps⟩

/-- `s.find(',', pos)`, or the size -/
def findComma (s : Word) (pos : Nat) : Nat := pos + (s.drop pos).findIdx (· = ',')

/-- `while (pos <= s.size() && !s.empty())`, with the rungs so far. -/
def loop (s : Word) : Nat → Nat → List Item → Except Stop (List Item)
  | 0, _, rungs => .ok rungs
  | fuel + 1, pos, rungs =>
    if pos ≤ s.length ∧ s ≠ [] then
      let comma := findComma s pos
      match parseItem ((s.drop pos).take (comma - pos)) with
      | .error e => .error e
      | .ok r => loop s fuel (comma + 1) (rungs ++ [r])
    else .ok rungs

def parseSource (s : Word) : Except Stop (List Item) := loop s (s.length + 2) 0 []

/-- The items one after another, up to the first that stops the loop. -/
def parseItems : List Word → Except Stop (List Item)
  | [] => .ok []
  | item :: items =>
    match parseItem item with
    | .error e => .error e
    | .ok r => (parseItems items).map (r :: ·)

theorem findIdx_first {c : Char} {a : Word} (h : c ∉ a) (b : Word) :
    (a ++ c :: b).findIdx (· = c) = a.length := by
  have hnone : a.findIdx (· = c) = a.length :=
    List.findIdx_eq_length.mpr fun x hx => decide_eq_false fun hxc => h (hxc ▸ hx)
  rw [List.findIdx_append, hnone, if_neg (Nat.lt_irrefl _), List.findIdx_cons]
  simp

theorem loop_eq {s : Word} (hs : s ≠ []) {fuel pos : Nat} (hpos : pos ≤ s.length)
    (hfuel : s.length < fuel + pos) (rungs : List Item) :
    loop s (fuel + 1) pos rungs =
      (parseItems ((s.drop pos).splitOn ',')).map (rungs ++ ·) := by
  induction fuel generalizing pos rungs with
  | zero => omega
  | succ fuel ih =>
    have hlength : (s.drop pos).length = s.length - pos := List.length_drop
    rw [loop, if_pos ⟨hpos, hs⟩]
    dsimp only
    rw [findComma, Nat.add_sub_cancel_left]
    by_cases hcomma : ',' ∈ s.drop pos
    · obtain ⟨a, b, hab, ha⟩ := List.eq_append_cons_of_mem hcomma
      have hsize := congrArg List.length hab
      rw [hlength, List.length_append, List.length_cons] at hsize
      have hrest : s.drop (pos + a.length + 1) = b := by
        rw [Nat.add_assoc, ← List.drop_drop, hab, ← List.drop_drop, List.drop_left]
        rfl
      rw [hab, findIdx_first ha, List.take_left, List.splitOn_append_cons_self_of_not_mem ha,
        parseItems]
      cases parseItem a with
      | error e => rfl
      | ok r =>
        have hnext := ih (by omega : pos + a.length + 1 ≤ s.length) (by omega) (rungs ++ [r])
        rw [hrest] at hnext
        show loop s (fuel + 1) (pos + a.length + 1) (rungs ++ [r]) = _
        rw [hnext]
        cases parseItems (b.splitOn ',') with
        | error e => rfl
        | ok rs => exact congrArg Except.ok (List.append_assoc rungs [r] rs)
    · have hend : (s.drop pos).findIdx (· = ',') = (s.drop pos).length :=
        List.findIdx_eq_length.mpr fun c hc => decide_eq_false fun h => hcomma (h ▸ hc)
      rw [hend, List.take_length, List.splitOn_eq_singleton hcomma, parseItems]
      cases parseItem (s.drop pos) with
      | error e => rfl
      | ok r =>
        show loop s (fuel + 1) (pos + (s.drop pos).length + 1) (rungs ++ [r]) = _
        rw [loop, if_neg (by omega)]
        rfl

theorem parseSource_eq (s : Word) :
    parseSource s = if s = [] then .ok [] else parseItems (s.splitOn ',') := by
  rw [parseSource]
  by_cases hs : s = []
  · rw [if_pos hs, loop, if_neg fun h => h.2 hs]
  · rw [if_neg hs, loop_eq hs (Nat.zero_le _) (by omega), List.drop_zero]
    cases parseItems (s.splitOn ',') <;> rfl

/-- The item is a path, the last `@` and what `atoi` reads. -/
def Pair (item path digits : Word) : Prop := item = path ++ '@' :: digits ∧ '@' ∉ digits

theorem rfindAt_pair {item path digits : Word} (h : Pair item path digits) :
    rfindAt item = some path.length := by
  obtain ⟨rfl, hdigits⟩ := h
  have hreverse : (path ++ '@' :: digits).reverse = digits.reverse ++ '@' :: path.reverse := by
    simp
  have hidx : (path ++ '@' :: digits).reverse.findIdx? (· = '@') = some digits.length := by
    rw [hreverse, List.findIdx?_eq_some_iff_findIdx_eq,
      findIdx_first (fun hmem => hdigits (List.mem_reverse.mp hmem)), List.length_reverse,
      List.length_append, List.length_cons, List.length_reverse]
    exact ⟨by omega, rfl⟩
  rw [rfindAt, hidx, Option.map_some, List.length_append, List.length_cons]
  congr 1
  omega

theorem parseItem_pair {item path digits : Word} (h : Pair item path digits) :
    parseItem item = match atoi digits with
      | none => .error .undefined
      | some kbps =>
        if kbps ≤ 0 then .error (.fatal (.badKbps item)) else .ok ⟨path, kbps⟩ := by
  have hfind := rfindAt_pair h
  rw [parseItem, hfind]
  dsimp only
  have hdigits : item.drop (path.length + 1) = digits := by
    rw [h.1, ← List.drop_drop, List.drop_left]
    rfl
  have hpath : item.take path.length = path := by rw [h.1, List.take_left]
  rw [hdigits, hpath]

theorem pair_or_none (item : Word) : '@' ∉ item ∨ ∃ path digits, Pair item path digits := by
  by_cases hmem : '@' ∈ item
  · obtain ⟨a, b, hab, ha⟩ := List.eq_append_cons_of_mem (List.mem_reverse.mpr hmem)
    refine .inr ⟨b.reverse, a.reverse, ?_, fun h => ha (List.mem_reverse.mp h)⟩
    have hitem := congrArg List.reverse hab
    rw [List.reverse_reverse] at hitem
    rw [hitem]
    simp
  · exact .inl hmem

theorem parseItem_none {item : Word} (h : '@' ∉ item) :
    parseItem item = .error (.fatal (.notPair item)) := by
  have hidx : item.reverse.findIdx? (· = '@') = none :=
    List.findIdx?_eq_none_iff.mpr fun c hc =>
      decide_eq_false fun hat => h (hat ▸ List.mem_reverse.mp hc)
  rw [parseItem, rfindAt, hidx]
  rfl

def Spells (item : Word) (r : Item) : Prop :=
  ∃ digits, Pair item r.path digits ∧ atoi digits = some r.kbps ∧ 0 < r.kbps

def Stops (item : Word) : Stop → Prop
  | .fatal (.notPair i) => i = item ∧ '@' ∉ item
  | .fatal (.badKbps i) => i = item ∧ ∃ path digits kbps, Pair item path digits ∧
      atoi digits = some kbps ∧ kbps ≤ 0
  | .undefined => ∃ path digits, Pair item path digits ∧ atoi digits = none

theorem parseItem_ok (item : Word) (r : Item) : parseItem item = .ok r ↔ Spells item r := by
  constructor
  · intro hok
    cases pair_or_none item with
    | inl hnone =>
      rw [parseItem_none hnone] at hok
      cases hok
    | inr hpair =>
      obtain ⟨path, digits, h⟩ := hpair
      rw [parseItem_pair h] at hok
      cases hatoi : atoi digits with
      | none =>
        rw [hatoi] at hok
        cases hok
      | some kbps =>
        rw [hatoi] at hok
        dsimp only at hok
        split at hok
        · cases hok
        · next hle =>
          cases hok
          exact ⟨digits, h, hatoi, Int.not_le.mp hle⟩
  · rintro ⟨digits, h, hatoi, hpos⟩
    rw [parseItem_pair h, hatoi]
    exact if_neg (by omega)

theorem parseItem_error (item : Word) (e : Stop) :
    parseItem item = .error e ↔ Stops item e := by
  constructor
  · intro herror
    cases pair_or_none item with
    | inl hnone =>
      rw [parseItem_none hnone] at herror
      cases herror
      exact ⟨rfl, hnone⟩
    | inr hpair =>
      obtain ⟨path, digits, h⟩ := hpair
      rw [parseItem_pair h] at herror
      cases hatoi : atoi digits with
      | none =>
        rw [hatoi] at herror
        cases herror
        exact ⟨path, digits, h, hatoi⟩
      | some kbps =>
        rw [hatoi] at herror
        dsimp only at herror
        split at herror
        · next hle =>
          cases herror
          exact ⟨rfl, path, digits, kbps, h, hatoi, hle⟩
        · cases herror
  · intro hstops
    cases e with
    | fatal e =>
      cases e with
      | notPair i =>
        obtain ⟨rfl, hnone⟩ := hstops
        exact parseItem_none hnone
      | badKbps i =>
        obtain ⟨rfl, path, digits, kbps, h, hatoi, hle⟩ := hstops
        rw [parseItem_pair h, hatoi]
        exact if_pos hle
    | undefined =>
      obtain ⟨path, digits, h, hatoi⟩ := hstops
      rw [parseItem_pair h, hatoi]

theorem parseItems_ok (items : List Word) (rs : List Item) :
    parseItems items = .ok rs ↔ List.Forall₂ Spells items rs := by
  induction items generalizing rs with
  | nil =>
    rw [parseItems, List.forall₂_nil_left_iff]
    exact ⟨fun h => by cases h; rfl, fun h => by rw [h]⟩
  | cons item items ih =>
    rw [parseItems, List.forall₂_cons_left_iff]
    constructor
    · intro hok
      cases hitem : parseItem item with
      | error e =>
        rw [hitem] at hok
        cases hok
      | ok r =>
        rw [hitem] at hok
        cases hitems : parseItems items with
        | error e =>
          rw [hitems] at hok
          cases hok
        | ok rest =>
          rw [hitems] at hok
          cases hok
          exact ⟨r, rest, (parseItem_ok item r).mp hitem, (ih rest).mp hitems, rfl⟩
    · rintro ⟨r, rest, hr, hrest, rfl⟩
      rw [(parseItem_ok item r).mpr hr, (ih rest).mpr hrest]
      rfl

/-- The first item that spells nothing is the one that stops the loop. -/
theorem parseItems_error (items : List Word) (e : Stop) :
    parseItems items = .error e ↔ ∃ before item after, items = before ++ item :: after ∧
      (∀ i ∈ before, ∃ r, Spells i r) ∧ Stops item e := by
  induction items with
  | nil =>
    refine iff_of_false (fun h => by cases h) ?_
    rintro ⟨before, item, after, hitems, -⟩
    exact absurd hitems.symm (List.append_ne_nil_of_right_ne_nil _ (List.cons_ne_nil _ _))
  | cons i items ih =>
    rw [parseItems]
    cases hitem : parseItem i with
    | error e' =>
      have hstops := (parseItem_error i e').mp hitem
      constructor
      · intro h
        cases h
        exact ⟨[], i, items, rfl, List.forall_mem_nil _, hstops⟩
      · rintro ⟨before, item, after, hitems, hbefore, he⟩
        cases before with
        | nil =>
          cases hitems
          have hsame := (parseItem_error i e).mpr he
          rw [hitem] at hsame
          cases hsame
          rfl
        | cons b before =>
          cases hitems
          obtain ⟨r, hr⟩ := hbefore i List.mem_cons_self
          rw [(parseItem_ok i r).mpr hr] at hitem
          cases hitem
    | ok r =>
      have hspells := (parseItem_ok i r).mp hitem
      constructor
      · intro h
        cases hitems : parseItems items with
        | ok rest =>
          rw [hitems] at h
          cases h
        | error e' =>
          rw [hitems] at h
          cases h
          obtain ⟨before, item, after, rfl, hbefore, he⟩ := ih.mp hitems
          exact ⟨i :: before, item, after, rfl,
            List.forall_mem_cons.mpr ⟨⟨r, hspells⟩, hbefore⟩, he⟩
      · rintro ⟨before, item, after, hitems, hbefore, he⟩
        cases before with
        | nil =>
          cases hitems
          rw [(parseItem_error i e).mpr he] at hitem
          cases hitem
        | cons b before =>
          cases hitems
          rw [ih.mpr ⟨before, item, after, rfl,
            fun j hj => hbefore j (List.mem_cons_of_mem i hj), he⟩]
          rfl

theorem not_mem_decimal {c : Char} (hminus : c ≠ '-') (hdigit : c.isDigit = false) (i : Int) :
    c ∉ decimal i := by
  have hdigits (n : Nat) : c ∉ Nat.toDigits 10 n := fun hmem =>
    Bool.false_ne_true (hdigit.symm.trans (Numeral.isDigit_toDigits hmem))
  cases i with
  | ofNat n => exact hdigits n
  | negSucc n => exact List.not_mem_cons_of_ne_of_not_mem hminus (hdigits (n + 1))

def Item.spell (r : Item) : Word := r.path ++ '@' :: decimal r.kbps

theorem spells_spell {r : Item} (hlow : 0 < r.kbps) (hhigh : r.kbps < 2 ^ 31) :
    Spells r.spell r :=
  ⟨decimal r.kbps, ⟨rfl, not_mem_decimal (by decide) (by decide) _⟩,
    atoi_decimal (by omega) hhigh, hlow⟩

theorem comma_not_mem_spell {r : Item} (h : ',' ∉ r.path) : ',' ∉ r.spell := by
  rw [Item.spell, List.mem_append, List.mem_cons]
  rintro (hpath | hat | hdigits)
  · exact h hpath
  · exact absurd hat (by decide)
  · exact not_mem_decimal (by decide) (by decide) _ hdigits

/-- A list of rungs is read back as it was written. -/
theorem parseSource_spell {rs : List Item}
    (h : ∀ r ∈ rs, ',' ∉ r.path ∧ 0 < r.kbps ∧ r.kbps < 2 ^ 31) :
    parseSource ([','].intercalate (rs.map Item.spell)) = .ok rs := by
  rw [parseSource_eq]
  by_cases hrs : rs = []
  · rw [hrs]
    rfl
  · have hne : rs.map Item.spell ≠ [] := List.map_eq_nil_iff.not.mpr hrs
    have hcommas : ∀ item ∈ rs.map Item.spell, ',' ∉ item := by
      intro item hitem
      obtain ⟨r, hr, rfl⟩ := List.mem_map.mp hitem
      exact comma_not_mem_spell (h r hr).1
    have hsplit := List.splitOn_intercalate ',' hcommas hne
    have htext : [','].intercalate (rs.map Item.spell) ≠ [] := by
      intro hnil
      rw [hnil, List.splitOn_nil] at hsplit
      have hempty : ([] : Word) ∈ rs.map Item.spell := hsplit ▸ List.mem_cons_self
      obtain ⟨r, -, hr⟩ := List.mem_map.mp hempty
      exact List.append_ne_nil_of_right_ne_nil _ (List.cons_ne_nil _ _) hr
    rw [if_neg htext, hsplit, parseItems_ok, List.forall₂_map_left_iff]
    exact List.forall₂_same.mpr fun r hr => spells_spell (h r hr).2.1 (h r hr).2.2

/-- What the option is read as, and what stops the loop: nothing for no text; the rungs of the
items between the commas where each of them spells one; otherwise the first that does not, with
an error unless its number is one that no `int` holds.  A list of rungs whose paths have no
comma is read back. -/
theorem source_exact (s : Word) :
    (∀ rs, parseSource s = .ok rs ↔ s = [] ∧ rs = [] ∨
        s ≠ [] ∧ List.Forall₂ Spells (s.splitOn ',') rs) ∧
      (∀ e, parseSource s = .error e ↔ s ≠ [] ∧ ∃ before item after,
        s.splitOn ',' = before ++ item :: after ∧ (∀ i ∈ before, ∃ r, Spells i r) ∧
          Stops item e) ∧
      ∀ rs : List Item, (∀ r ∈ rs, ',' ∉ r.path ∧ 0 < r.kbps ∧ r.kbps < 2 ^ 31) →
        parseSource ([','].intercalate (rs.map Item.spell)) = .ok rs := by
  refine ⟨fun rs => ?_, fun e => ?_, fun rs => parseSource_spell⟩
  · rw [parseSource_eq]
    by_cases hs : s = []
    · rw [if_pos hs]
      simp [hs, eq_comm]
    · rw [if_neg hs, parseItems_ok]
      simp [hs]
  · rw [parseSource_eq]
    by_cases hs : s = []
    · rw [if_pos hs]
      simp [hs]
    · rw [if_neg hs, parseItems_error]
      simp only [ne_eq, hs, not_false_eq_true, true_and]

end SourceList
end P5G
