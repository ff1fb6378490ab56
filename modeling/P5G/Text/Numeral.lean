import Mathlib

/-!
# Decimal numerals

How C prints an integer, and what Python's `int` and `float` accept of a text.
The texts are ASCII, so a digit is one of `0` to `9`.
-/

namespace P5G
namespace Numeral

def decimal : Int → List Char
  | .ofNat n => Nat.toDigits 10 n
  | .negSucc n => '-' :: Nat.toDigits 10 (n + 1)

/-- The ASCII whitespace of `str.strip` and `str.split`. -/
def isSpace (c : Char) : Bool :=
  c = ' ' || (0x09 ≤ c.toNat && c.toNat ≤ 0x0d) || (0x1c ≤ c.toNat && c.toNat ≤ 0x1f)

def strip (cs : List Char) : List Char := (cs.dropWhile isSpace).rdropWhile isSpace

/-- Digits, with single underscores between two of them.  `after` says that the
last character was a digit, and `value` what has been read. -/
def digitPart : Bool → Nat → List Char → Option Nat
  | after, value, [] => if after then some value else none
  | after, value, c :: cs =>
    if c.isDigit then digitPart true (10 * value + (c.toNat - '0'.toNat)) cs
    else if c = '_' ∧ after then digitPart false value cs
    else none

def digits (cs : List Char) : Option Nat := digitPart false 0 cs

/-- Python's `int` of a string; `none` is a `ValueError`. -/
def int (cs : List Char) : Option Int :=
  match strip cs with
  | '-' :: ds => (digits ds).map fun n => -(n : Int)
  | '+' :: ds => (digits ds).map Int.ofNat
  | ds => (digits ds).map Int.ofNat

def unsigned : List Char → List Char
  | '-' :: cs => cs
  | '+' :: cs => cs
  | cs => cs

def optionalDigits (cs : List Char) : Bool := cs.isEmpty || (digits cs).isSome

/-- A number before its exponent: digits with at most one point among them. -/
def isMantissa (cs : List Char) : Bool :=
  match cs.splitOn '.' with
  | [whole] => (digits whole).isSome
  | [whole, fraction] =>
    optionalDigits whole && optionalDigits fraction && !(whole.isEmpty && fraction.isEmpty)
  | _ => false

def isExponent : List Char → Bool
  | [] => true
  | _ :: cs => (digits (unsigned cs)).isSome

def notE (c : Char) : Bool := c ≠ 'e' && c ≠ 'E'

/-- The words that `float` reads, in lower case. -/
def floatWords : List (List Char) := ["inf".toList, "infinity".toList, "nan".toList]

def isFloat (cs : List Char) : Bool :=
  let body := unsigned (strip cs)
  floatWords.contains (body.map Char.toLower) ||
    (isMantissa (body.takeWhile notE) && isExponent (body.dropWhile notE))

theorem strip_eq_self {cs : List Char} (h : ∀ c ∈ cs, isSpace c = false) : strip cs = cs := by
  have hdrop : cs.dropWhile isSpace = cs := by
    cases cs with
    | nil => rfl
    | cons c rest => rw [List.dropWhile_cons_of_neg (by simp [h c List.mem_cons_self])]
  rw [strip, hdrop, List.rdropWhile_eq_self_iff]
  intro hne
  simp [h _ (List.getLast_mem hne)]

theorem isSpace_of_isDigit {c : Char} (h : c.isDigit = true) : isSpace c = false := by
  have hlow : 48 ≤ c.toNat := (Char.isDigit_iff_toNat.mp h).1
  have hne : c ≠ ' ' := by
    rintro rfl
    exact absurd h (by decide)
  simp [isSpace, hne]
  omega

theorem isDigit_toDigits {n : Nat} {c : Char} (h : c ∈ Nat.toDigits 10 n) : c.isDigit = true :=
  Nat.isDigit_of_mem_toDigits (by decide) (by decide) h

theorem digitPart_of_isDigit {cs : List Char} (h : ∀ c ∈ cs, c.isDigit = true) (after : Bool)
    (value : Nat) (hne : cs ≠ [] ∨ after = true) :
    digitPart after value cs = some (Nat.ofDigitChars 10 cs value) := by
  induction cs generalizing after value with
  | nil =>
    obtain rfl := hne.resolve_left (fun hne => hne rfl)
    rfl
  | cons c cs ih =>
    rw [digitPart, if_pos (h c List.mem_cons_self), Nat.ofDigitChars_cons]
    exact ih (fun d hd => h d (List.mem_cons_of_mem _ hd)) true _ (.inr rfl)

theorem digits_toDigits (n : Nat) : digits (Nat.toDigits 10 n) = some n := by
  rw [digits, digitPart_of_isDigit (fun _ => isDigit_toDigits) false 0 (.inl Nat.toDigits_ne_nil),
    Nat.ofDigitChars_ten_toDigits]

/-- Nothing but digits and underscores is read. -/
theorem digitPart_none {cs : List Char} {c : Char} (hc : c ∈ cs) (hdigit : c.isDigit = false)
    (hunderscore : c ≠ '_') (after : Bool) (value : Nat) : digitPart after value cs = none := by
  induction cs generalizing after value with
  | nil => cases hc
  | cons d cs ih =>
    rw [digitPart]
    rcases List.mem_cons.mp hc with rfl | hc
    · rw [if_neg (by simp [hdigit]), if_neg (fun h => hunderscore h.1)]
    · split
      · exact ih hc _ _
      · split
        · exact ih hc _ _
        · rfl

theorem digits_none {cs : List Char} {c : Char} (hc : c ∈ cs) (hdigit : c.isDigit = false)
    (hunderscore : c ≠ '_') : digits cs = none :=
  digitPart_none hc hdigit hunderscore false 0

/-- A prefix of a numeral is a numeral, of no larger number. -/
theorem prefix_toDigits {cs : List Char} {n : Nat} (h : cs <+: Nat.toDigits 10 n) (hne : cs ≠ []) :
    ∃ m ≤ n, cs = Nat.toDigits 10 m := by
  induction n using Nat.strong_induction_on with
  | _ n ih =>
    by_cases hn : n < 10
    · rw [Nat.toDigits_of_lt_base hn] at h
      refine ⟨n, le_rfl, ?_⟩
      rw [Nat.toDigits_of_lt_base hn]
      rcases List.prefix_cons_iff.mp h with rfl | ⟨t, rfl, ht⟩
      · exact absurd rfl hne
      · rw [List.prefix_nil.mp ht]
    · have hsplit := Nat.toDigits_of_base_le (b := 10) (by decide) (by omega : 10 ≤ n)
      rw [hsplit] at h
      rcases List.prefix_concat_iff.mp h with rfl | h
      · exact ⟨n, le_rfl, hsplit.symm⟩
      · obtain ⟨m, hm, rfl⟩ := ih (n / 10) (by omega) h
        exact ⟨m, by omega, rfl⟩

theorem int_toDigits (n : Nat) : int (Nat.toDigits 10 n) = some (n : Int) := by
  have hstrip : strip (Nat.toDigits 10 n) = Nat.toDigits 10 n :=
    strip_eq_self fun _ hc => isSpace_of_isDigit (isDigit_toDigits hc)
  rw [int, hstrip]
  split
  · next ds h =>
    have hminus : '-' ∈ Nat.toDigits 10 n := by rw [h]; exact List.mem_cons_self
    exact absurd (isDigit_toDigits hminus) (by decide)
  · next ds h =>
    have hplus : '+' ∈ Nat.toDigits 10 n := by rw [h]; exact List.mem_cons_self
    exact absurd (isDigit_toDigits hplus) (by decide)
  · rw [digits_toDigits]
    rfl

theorem strip_minus_toDigits (cs : List Char) (h : ∀ c ∈ cs, c.isDigit = true) :
    strip ('-' :: cs) = '-' :: cs := by
  refine strip_eq_self fun c hc => ?_
  rcases List.mem_cons.mp hc with rfl | hc
  · rfl
  · exact isSpace_of_isDigit (h c hc)

theorem int_minus (cs : List Char) (h : ∀ c ∈ cs, c.isDigit = true) :
    int ('-' :: cs) = (digits cs).map fun n => -(n : Int) := by
  rw [int, strip_minus_toDigits cs h]
  rfl

/-- What `%d` prints, `int` reads. -/
theorem int_decimal (i : Int) : int (decimal i) = some i := by
  cases i with
  | ofNat n => exact int_toDigits n
  | negSucc n =>
    rw [decimal, int_minus _ (fun _ => isDigit_toDigits), digits_toDigits]
    rfl

/-- No shorter part of a numeral reads as its number. -/
theorem int_prefix_ne {cs : List Char} {i : Int} (h : cs <+: decimal i) (hne : cs ≠ decimal i) :
    int cs ≠ some i := by
  cases i with
  | ofNat n =>
    by_cases hnil : cs = []
    · subst hnil
      exact nofun
    · obtain ⟨m, -, rfl⟩ := prefix_toDigits h hnil
      rw [int_toDigits]
      rintro heq
      obtain rfl : m = n := by simpa using heq
      exact hne rfl
  | negSucc n =>
    rcases List.prefix_cons_iff.mp h with rfl | ⟨t, rfl, ht⟩
    · exact nofun
    · by_cases hnil : t = []
      · subst hnil
        exact nofun
      · obtain ⟨m, -, rfl⟩ := prefix_toDigits ht hnil
        rw [int_minus _ (fun _ => isDigit_toDigits), digits_toDigits]
        intro heq
        obtain rfl : m = n + 1 := by
          have hneg : -(m : Int) = Int.negSucc n := Option.some.inj heq
          omega
        exact hne rfl

theorem mem_strip {cs : List Char} {c : Char} (hc : c ∈ cs) (h : isSpace c = false) :
    c ∈ strip cs := by
  have hdrop : c ∈ cs.dropWhile isSpace := by
    rw [← List.takeWhile_append_dropWhile (p := isSpace) (l := cs), List.mem_append] at hc
    refine hc.resolve_left fun hc => ?_
    rw [List.mem_takeWhile_imp hc] at h
    cases h
  rw [strip]
  rw [← List.rdropWhile_append_rtakeWhile (p := isSpace) (l := cs.dropWhile isSpace),
    List.mem_append] at hdrop
  refine hdrop.resolve_right fun hc => ?_
  rw [List.mem_rtakeWhile_imp hc] at h
  cases h

theorem mem_unsigned {cs : List Char} {c : Char} (hc : c ∈ cs) (hminus : c ≠ '-')
    (hplus : c ≠ '+') : c ∈ unsigned cs := by
  unfold unsigned
  split
  · exact (List.mem_cons.mp hc).resolve_left hminus
  · exact (List.mem_cons.mp hc).resolve_left hplus
  · exact hc

/-- A character that stands in no number. -/
structure Foreign (c : Char) : Prop where
  space : isSpace c = false
  digit : c.isDigit = false
  sign : c ≠ '-' ∧ c ≠ '+'
  underscore : c ≠ '_'

theorem int_none {cs : List Char} {c : Char} (hc : c ∈ cs) (h : Foreign c) : int cs = none := by
  have hstrip := mem_strip hc h.space
  rw [int]
  split
  · next ds heq =>
    rw [heq] at hstrip
    rw [digits_none ((List.mem_cons.mp hstrip).resolve_left h.sign.1) h.digit h.underscore]
    rfl
  · next ds heq =>
    rw [heq] at hstrip
    rw [digits_none ((List.mem_cons.mp hstrip).resolve_left h.sign.2) h.digit h.underscore]
    rfl
  · rw [digits_none hstrip h.digit h.underscore]
    rfl

theorem optionalDigits_false {cs : List Char} {c : Char} (hc : c ∈ cs) (h : Foreign c) :
    optionalDigits cs = false := by
  have hne : cs ≠ [] := List.ne_nil_of_mem hc
  rw [optionalDigits, digits_none hc h.digit h.underscore]
  simp [hne]

theorem isMantissa_false {cs : List Char} {c : Char} (hc : c ∈ cs) (h : Foreign c)
    (hpoint : c ≠ '.') : isMantissa cs = false := by
  have hjoin : ['.'].intercalate (cs.splitOn '.') = cs := List.intercalate_splitOn '.'
  rw [← hjoin] at hc
  unfold isMantissa
  split
  · next whole heq =>
    rw [heq, List.intercalate_singleton] at hc
    rw [digits_none hc h.digit h.underscore]
    rfl
  · next whole fraction heq =>
    rw [heq, List.intercalate_cons_cons, List.intercalate_singleton, List.mem_append,
      List.mem_append, List.mem_singleton] at hc
    rcases hc with (hc | hc) | hc
    · rw [optionalDigits_false hc h]
      rfl
    · exact absurd hc hpoint
    · rw [optionalDigits_false hc h, Bool.and_false]
      rfl
  · rfl

theorem isMantissa_of_points {cs : List Char} (h : 2 < (cs.splitOn '.').length) :
    isMantissa cs = false := by
  unfold isMantissa
  split
  · next heq =>
    rw [heq] at h
    simp at h
  · next heq =>
    rw [heq] at h
    simp at h
  · rfl

theorem isExponent_false {cs : List Char} {c : Char} (hc : c ∈ cs.dropWhile notE) (h : Foreign c)
    (halpha : c.isAlpha = false) : isExponent (cs.dropWhile notE) = false := by
  cases hdrop : cs.dropWhile notE with
  | nil =>
    rw [hdrop] at hc
    cases hc
  | cons d rest =>
    have hd : d = 'e' ∨ d = 'E' := by
      have hhead := List.head_dropWhile_not notE (l := cs) (by simp [hdrop])
      simp only [hdrop, List.head_cons, notE, Bool.and_eq_false_iff, decide_eq_false_iff_not,
        not_not] at hhead
      exact hhead
    have hne : c ≠ d := by
      rintro rfl
      rcases hd with rfl | rfl <;> exact absurd halpha (by decide)
    rw [hdrop] at hc
    have hrest := mem_unsigned ((List.mem_cons.mp hc).resolve_left hne) h.sign.1 h.sign.2
    rw [isExponent, digits_none hrest h.digit h.underscore]
    rfl

theorem isAlpha_floatWords : ∀ word ∈ floatWords, word.all Char.isAlpha = true := by decide

/-- No word that `float` knows has a character that is not a letter. -/
theorem not_floatWord {cs : List Char} {c : Char} (hc : c ∈ cs) (halpha : c.isAlpha = false) :
    floatWords.contains (cs.map Char.toLower) = false := by
  rw [← Bool.not_eq_true, List.contains_iff_mem]
  intro hword
  have hletter := List.all_eq_true.mp (isAlpha_floatWords _ hword) _ (List.mem_map_of_mem hc)
  rw [Char.isAlpha_toLower_eq_isAlpha, halpha] at hletter
  cases hletter

/-- A foreign character keeps a text from being a float, unless it is a point
or a letter. -/
theorem isFloat_false {cs : List Char} {c : Char} (hc : c ∈ cs) (h : Foreign c)
    (hpoint : c ≠ '.') (halpha : c.isAlpha = false) : isFloat cs = false := by
  have hbody : c ∈ unsigned (strip cs) := mem_unsigned (mem_strip hc h.space) h.sign.1 h.sign.2
  dsimp only [isFloat]
  rw [not_floatWord hbody halpha, Bool.false_or]
  rw [← List.takeWhile_append_dropWhile (p := notE) (l := unsigned (strip cs)),
    List.mem_append] at hbody
  rcases hbody with hbody | hbody
  · rw [isMantissa_false hbody h hpoint, Bool.false_and]
  · rw [isExponent_false hbody h halpha, Bool.and_false]

/-- A word: no spaces, a first character that begins no number, and none of the
words that `float` reads. -/
def isWord : List Char → Bool
  | [] => false
  | c :: cs =>
    (c :: cs).all (fun d => !isSpace d) && !c.isDigit &&
      !List.contains ['-', '+', '_', '.', 'e', 'E'] c &&
      !floatWords.contains ((c :: cs).map Char.toLower)

theorem not_number_of_isWord {cs : List Char} (h : isWord cs = true) :
    int cs = none ∧ isFloat cs = false := by
  cases cs with
  | nil => cases h
  | cons c cs =>
    simp only [isWord, Bool.and_eq_true, Bool.not_eq_true', List.all_eq_true] at h
    obtain ⟨⟨⟨hspace, hdigit⟩, hother⟩, hword⟩ := h
    simp only [List.contains_eq_mem, decide_eq_false_iff_not, List.mem_cons, not_or] at hother
    obtain ⟨hminus, hplus, hunderscore, hpoint, he, hE, -⟩ := hother
    have hforeign : Foreign c :=
      ⟨hspace c List.mem_cons_self, hdigit, ⟨hminus, hplus⟩, hunderscore⟩
    have hunsigned : unsigned (c :: cs) = c :: cs := by
      unfold unsigned
      split
      · next heq => exact absurd (List.cons.inj heq).1 hminus
      · next heq => exact absurd (List.cons.inj heq).1 hplus
      · rfl
    have hbody : c ∈ (c :: cs).takeWhile notE := by
      rw [List.takeWhile_cons_of_pos (by simp [notE, he, hE])]
      exact List.mem_cons_self
    refine ⟨int_none List.mem_cons_self hforeign, ?_⟩
    dsimp only [isFloat]
    rw [strip_eq_self hspace, hunsigned, hword, isMantissa_false hbody hforeign hpoint]
    rfl

/-- Nor is a text of digits and more than one point a float. -/
theorem isFloat_of_points {cs : List Char} (hpoints : 2 < (cs.splitOn '.').length)
    (h : ∀ c ∈ cs, c.isDigit = true ∨ c = '.') : isFloat cs = false := by
  have hspace (c : Char) (hc : c ∈ cs) : isSpace c = false := by
    rcases h c hc with hdigit | rfl
    · exact isSpace_of_isDigit hdigit
    · rfl
  have hnot (d : Char) (hd : d.isDigit = false) (hne : d ≠ '.') : d ∉ cs := by
    intro hmem
    rcases h d hmem with hdigit | rfl
    · rw [hdigit] at hd
      cases hd
    · exact hne rfl
  have hunsigned : unsigned cs = cs := by
    unfold unsigned
    split
    · exact absurd List.mem_cons_self (hnot '-' rfl (by decide))
    · exact absurd List.mem_cons_self (hnot '+' rfl (by decide))
    · rfl
  have hmantissa : cs.takeWhile notE = cs := by
    refine List.takeWhile_eq_self_iff.mpr fun c hc => ?_
    have he : c ≠ 'e' := fun heq => hnot 'e' rfl (by decide) (heq ▸ hc)
    have hE : c ≠ 'E' := fun heq => hnot 'E' rfl (by decide) (heq ▸ hc)
    simp [notE, he, hE]
  have hpoint : '.' ∈ cs := by
    by_contra hno
    rw [List.splitOn_eq_singleton hno] at hpoints
    simp at hpoints
  dsimp only [isFloat]
  rw [strip_eq_self hspace, hunsigned, not_floatWord hpoint rfl, hmantissa, isMantissa_of_points hpoints]
  rfl

end Numeral
end P5G
