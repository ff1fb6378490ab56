import P5G.Dict
import P5G.Text.Numeral
import Mathlib.Data.List.TakeWhile

/-!
# The command line of the programs

`CliArgs` (the same in the three trees): `--key value`, `--key=value` or a bare
`--flag`.  What is accepted is exactly the command lines that such arguments
spell, each in one way only, and the table holds what was given last.
-/

namespace P5G
namespace CliArgs

abbrev Word := List Char

inductive Fatal where
  | unexpected (token : Word)
  | unknown (key : Word)
deriving DecidableEq

def Fatal.message : Fatal → Word
  | .unexpected k =>
      "unexpected argument '".toList ++ k ++ "' (flags are --key value); see --help".toList
  | .unknown k => "unknown flag --".toList ++ k ++ "; see --help".toList

def dashes : Word := ['-', '-']

/-- `rfind("--", 0) == 0` -/
def isFlag (token : Word) : Bool := dashes.isPrefixOf token

def isKeyChar (c : Char) : Bool := c ≠ '='

/-- What stands before the first `=`. -/
def keyOf (k : Word) : Word := k.takeWhile isKeyChar

def valueOf (k : Word) : Word := (k.dropWhile isKeyChar).tail

variable (known : List Word)

/-- One argument goes into the table, if the program knows its key. -/
def put (kv : Dict Word Word) (k v : Word) : Except Fatal (Dict Word Word) :=
  if known.any fun kn => k = kn then .ok (kv.set k v) else .error (.unknown k)

/-- The loop of the constructor, from one argument on. -/
def loop (kv : Dict Word Word) : List Word → Except Fatal (Dict Word Word)
  | [] => .ok kv
  | token :: rest =>
      if isFlag token then
        if '=' ∈ token.drop 2 then
          (put known kv (keyOf (token.drop 2)) (valueOf (token.drop 2))).bind fun kv => loop kv rest
        else
          match rest with
          | [] => put known kv (token.drop 2) ['1']
          | next :: rest =>
              if isFlag next then
                (put known kv (token.drop 2) ['1']).bind fun kv => loop kv (next :: rest)
              else (put known kv (token.drop 2) next).bind fun kv => loop kv rest
      else .error (.unexpected token)

/-- The constructor, without the program's own name. -/
def parse (argv : List Word) : Except Fatal (Dict Word Word) := loop known Dict.empty argv

def has (kv : Dict Word Word) (k : Word) : Bool := (kv.get? k).isSome

def get (kv : Dict Word Word) (k dflt : Word) : Word := (kv.get? k).getD dflt

/-- `isspace` in the C locale. -/
def isCSpace (c : Char) : Bool := c = ' ' || (0x09 ≤ c.toNat && c.toNat ≤ 0x0d)

def atoiDigits (cs : Word) : Nat := Nat.ofDigitChars 10 (cs.takeWhile Char.isDigit) 0

def signed : Word → Int
  | '-' :: ds => -atoiDigits ds
  | '+' :: ds => atoiDigits ds
  | ds => atoiDigits ds

/-- `std::atoi`, which is undefined where an `int` does not hold the number. -/
def atoi (s : Word) : Option Int :=
  let i := signed (s.dropWhile isCSpace)
  if -2 ^ 31 ≤ i ∧ i < 2 ^ 31 then some i else none

def getInt (kv : Dict Word Word) (k : Word) (dflt : Int) : Option Int :=
  (kv.get? k).elim (some dflt) atoi

inductive Arg where
  | joined (k v : Word)
  | spaced (k v : Word)
  | bare (k : Word)
deriving DecidableEq

namespace Arg

def key : Arg → Word
  | joined k _ => k
  | spaced k _ => k
  | bare k => k

def value : Arg → Word
  | joined _ v => v
  | spaced _ v => v
  | bare _ => ['1']

def spell : Arg → List Word
  | joined k v => [dashes ++ (k ++ '=' :: v)]
  | spaced k v => [dashes ++ k, v]
  | bare k => [dashes ++ k]

/-- A key has no `=`, and a value of its own word does not look like a flag. -/
def Formed : Arg → Prop
  | joined k _ => '=' ∉ k
  | spaced k v => '=' ∉ k ∧ isFlag v = false
  | bare k => '=' ∉ k

/-- The argument ends before `rest`: a bare flag would take a word that is none. -/
def Ends : Arg → List Word → Prop
  | bare _, next :: _ => isFlag next = true
  | _, _ => True

end Arg

variable {known} {kv : Dict Word Word} {a b : Arg} {rest rest' : List Word} {k v : Word}

@[simp] theorem isFlag_dashes (k : Word) : isFlag (dashes ++ k) = true := by
  simp [isFlag, dashes]

@[simp] theorem drop_dashes (k : Word) : (dashes ++ k).drop 2 = k := rfl

theorem dashes_of_isFlag {token : Word} (h : isFlag token = true) :
    token = dashes ++ token.drop 2 := by
  have hstarts : dashes <+: token := by simpa [isFlag] using h
  obtain ⟨k, rfl⟩ := hstarts
  rfl

theorem isKeyChar_of_mem (h : '=' ∉ k) : ∀ c ∈ k, isKeyChar c = true := by
  intro c hc
  rw [isKeyChar, decide_eq_true_iff]
  rintro rfl
  exact h hc

theorem not_mem_keyOf (k : Word) : '=' ∉ keyOf k := by
  intro hmem
  have heq := List.mem_takeWhile_imp hmem
  simp [isKeyChar] at heq

theorem keyOf_valueOf (h : '=' ∈ k) : keyOf k ++ '=' :: valueOf k = k := by
  have hjoin := List.takeWhile_append_dropWhile (p := isKeyChar) (l := k)
  cases hdrop : k.dropWhile isKeyChar with
  | nil =>
    rw [hdrop, List.append_nil] at hjoin
    have hmem : '=' ∈ k.takeWhile isKeyChar := hjoin.symm ▸ h
    exact absurd hmem (not_mem_keyOf k)
  | cons c rest =>
    have hc : isKeyChar c = false := by
      have hhead := List.head?_dropWhile_not isKeyChar k
      rw [hdrop] at hhead
      simpa using hhead
    have hc : c = '=' := by simpa [isKeyChar] using hc
    subst hc
    rw [keyOf, valueOf, hdrop, List.tail_cons, ← hdrop]
    exact hjoin

theorem keyOf_append (h : '=' ∉ k) : keyOf (k ++ '=' :: v) = k := by
  rw [keyOf, List.takeWhile_append_of_pos (isKeyChar_of_mem h), List.takeWhile_cons]
  exact List.append_nil k

theorem valueOf_append (h : '=' ∉ k) : valueOf (k ++ '=' :: v) = v := by
  rw [valueOf, List.dropWhile_append_of_pos (isKeyChar_of_mem h), List.dropWhile_cons]
  rfl

/-! ## One argument of the line -/

/-- Every flag starts an argument, which ends where it has to. -/
theorem exists_spell {token : Word} (h : isFlag token = true) (rest : List Word) :
    ∃ (a : Arg) (rest' : List Word),
      a.Formed ∧ token :: rest = a.spell ++ rest' ∧ a.Ends rest' := by
  have htoken := dashes_of_isFlag h
  by_cases hk : '=' ∈ token.drop 2
  · refine ⟨.joined (keyOf (token.drop 2)) (valueOf (token.drop 2)), rest, not_mem_keyOf _, ?_,
      trivial⟩
    show token :: rest = [dashes ++ _] ++ rest
    rw [keyOf_valueOf hk, ← htoken]
    rfl
  · cases rest with
    | nil =>
      refine ⟨.bare (token.drop 2), [], hk, ?_, trivial⟩
      show [token] = [dashes ++ token.drop 2] ++ []
      rw [← htoken]
      rfl
    | cons next rest =>
      cases hnext : isFlag next with
      | true =>
        refine ⟨.bare (token.drop 2), next :: rest, hk, ?_, hnext⟩
        show token :: next :: rest = [dashes ++ token.drop 2] ++ next :: rest
        rw [← htoken]
        rfl
      | false =>
        refine ⟨.spaced (token.drop 2) next, rest, ⟨hk, hnext⟩, ?_, trivial⟩
        show token :: next :: rest = [dashes ++ token.drop 2, next] ++ rest
        rw [← htoken]
        rfl

/-- The loop takes one argument at a time. -/
theorem loop_spell (ha : a.Formed) (hends : a.Ends rest) :
    loop known kv (a.spell ++ rest) =
      (put known kv a.key a.value).bind fun kv => loop known kv rest := by
  cases a with
  | joined k v =>
    show loop known kv ((dashes ++ (k ++ '=' :: v)) :: rest) = _
    have hmem : '=' ∈ k ++ '=' :: v := List.mem_append_right _ List.mem_cons_self
    conv_lhs => unfold loop
    rw [if_pos (isFlag_dashes _), drop_dashes, if_pos hmem, keyOf_append ha, valueOf_append ha]
    rfl
  | spaced k v =>
    show loop known kv ((dashes ++ k) :: v :: rest) = _
    rw [loop, if_pos (isFlag_dashes _), drop_dashes, if_neg ha.1]
    simp only [ha.2, Bool.false_eq_true, if_false]
    rfl
  | bare k =>
    show loop known kv ((dashes ++ k) :: rest) = _
    cases rest with
    | nil =>
      rw [loop, if_pos (isFlag_dashes _), drop_dashes, if_neg ha]
      show put known kv k ['1'] = (put known kv k ['1']).bind .ok
      cases put known kv k ['1'] with
      | ok kv => rfl
      | error e => rfl
    | cons next rest =>
      have hnext : isFlag next = true := hends
      rw [loop, if_pos (isFlag_dashes _), drop_dashes, if_neg ha]
      simp only [hnext, if_true]
      rfl

/-- Where an argument ends and which it is, the line alone decides. -/
theorem spell_inj (ha : a.Formed) (hb : b.Formed) (hends : a.Ends rest) (hends' : b.Ends rest')
    (h : a.spell ++ rest = b.spell ++ rest') : a = b ∧ rest = rest' := by
  have hjoined : ∀ k v : Word, '=' ∈ k ++ '=' :: v := fun k v =>
    List.mem_append_right _ List.mem_cons_self
  cases a with
  | joined k v =>
    cases b with
    | joined k' v' =>
      obtain ⟨hword, hrest⟩ := List.cons.inj h
      have hword : k ++ '=' :: v = k' ++ '=' :: v' := List.append_cancel_left hword
      have hkey := congrArg keyOf hword
      have hvalue := congrArg valueOf hword
      rw [keyOf_append ha, keyOf_append hb] at hkey
      rw [valueOf_append ha, valueOf_append hb] at hvalue
      rw [hkey, hvalue]
      exact ⟨rfl, hrest⟩
    | spaced k' v' =>
      have hword := List.append_cancel_left (List.cons.inj h).1
      exact absurd (hword ▸ hjoined k v) hb.1
    | bare k' =>
      have hword := List.append_cancel_left (List.cons.inj h).1
      exact absurd (hword ▸ hjoined k v) hb
  | spaced k v =>
    cases b with
    | joined k' v' =>
      have hword := List.append_cancel_left (List.cons.inj h).1
      exact absurd (hword ▸ hjoined k' v') ha.1
    | spaced k' v' =>
      obtain ⟨hword, hrest⟩ := List.cons.inj h
      obtain ⟨hvalue, hrest⟩ := List.cons.inj hrest
      rw [List.append_cancel_left hword, hvalue]
      exact ⟨rfl, hrest⟩
    | bare k' =>
      obtain ⟨-, hrest⟩ := List.cons.inj h
      have hrest : v :: rest = rest' := hrest
      rw [← hrest] at hends'
      exact absurd hends' (ne_true_of_eq_false ha.2)
  | bare k =>
    cases b with
    | joined k' v' =>
      have hword := List.append_cancel_left (List.cons.inj h).1
      exact absurd (hword ▸ hjoined k' v') ha
    | spaced k' v' =>
      obtain ⟨-, hrest⟩ := List.cons.inj h
      have hrest : rest = v' :: rest' := hrest
      rw [hrest] at hends
      exact absurd hends (ne_true_of_eq_false hb.2)
    | bare k' =>
      obtain ⟨hword, hrest⟩ := List.cons.inj h
      rw [List.append_cancel_left hword]
      exact ⟨rfl, hrest⟩

/-! ## The whole line -/

/-- Arguments in the program's grammar, with keys it knows. -/
def Accepted (known : List Word) (args : List Arg) : Prop := ∀ a ∈ args, a.Formed ∧ a.key ∈ known

def spellAll (args : List Arg) : List Word := args.flatMap Arg.spell

def table (args : List Arg) : Dict Word Word :=
  args.foldl (fun kv a => kv.set a.key a.value) Dict.empty

def EndsBefore (args : List Arg) (rest : List Word) : Prop := ∀ a ∈ args.getLast?, a.Ends rest

def Offends (known : List Word) (rest : List Word) : Fatal → Prop
  | .unexpected token => ∃ more, rest = token :: more ∧ isFlag token = false
  | .unknown k => ∃ (a : Arg) (more : List Word),
      a.Formed ∧ a.Ends more ∧ a.key = k ∧ k ∉ known ∧ rest = a.spell ++ more

theorem ends_spell (a b : Arg) (rest : List Word) : a.Ends (b.spell ++ rest) := by
  cases a with
  | joined k v => trivial
  | spaced k v => trivial
  | bare k =>
    cases b with
    | joined k' v' => exact isFlag_dashes _
    | spaced k' v' => exact isFlag_dashes _
    | bare k' => exact isFlag_dashes _

variable {args : List Arg}

/-- Inside the line, an argument ends where the next one starts. -/
theorem EndsBefore.head (h : EndsBefore (a :: args) rest) : a.Ends (spellAll args ++ rest) := by
  cases args with
  | nil => exact h a rfl
  | cons b args =>
    rw [spellAll, List.flatMap_cons, List.append_assoc]
    exact ends_spell a b _

theorem EndsBefore.tail (h : EndsBefore (a :: args) rest) : EndsBefore args rest := by
  cases args with
  | nil =>
    intro b hb
    cases hb
  | cons b args =>
    intro c hc
    apply h c
    rw [List.getLast?_cons_cons]
    exact hc

theorem EndsBefore.cons (h : EndsBefore args rest) (ha : a.Ends (spellAll args ++ rest)) :
    EndsBefore (a :: args) rest := by
  cases args with
  | nil =>
    intro b hb
    cases hb
    exact ha
  | cons b args =>
    intro c hc
    rw [List.getLast?_cons_cons] at hc
    exact h c hc

theorem endsBefore_nil (args : List Arg) : EndsBefore args [] := by
  intro a _
  cases a with
  | joined k v => trivial
  | spaced k v => trivial
  | bare k => trivial

theorem put_known (h : k ∈ known) : put known kv k v = .ok (kv.set k v) := by
  rw [put, List.any_eq_true.mpr ⟨k, h, decide_eq_true rfl⟩]
  rfl

theorem put_unknown (h : k ∉ known) : put known kv k v = .error (.unknown k) := by
  have hnone : (known.any fun kn => k = kn) = false := by
    rw [List.any_eq_false]
    intro kn hkn hk
    rw [decide_eq_true_iff] at hk
    exact h (hk ▸ hkn)
  rw [put, hnone]
  rfl

theorem loop_spellAll (kv : Dict Word Word) (h : Accepted known args) (hends : EndsBefore args rest) :
    loop known kv (spellAll args ++ rest) =
      loop known (args.foldl (fun kv a => kv.set a.key a.value) kv) rest := by
  induction args generalizing kv with
  | nil => rfl
  | cons a args ih =>
    obtain ⟨hformed, hknown⟩ := h a List.mem_cons_self
    have hargs : Accepted known args := fun b hb => h b (List.mem_cons_of_mem _ hb)
    rw [spellAll, List.flatMap_cons, List.append_assoc]
    show loop known kv (a.spell ++ (spellAll args ++ rest)) = _
    rw [loop_spell hformed hends.head, put_known hknown]
    exact ih (kv.set a.key a.value) hargs hends.tail

/-- Every line is accepted arguments up to its end or up to what offends. -/
theorem exists_spellAll (known : List Word) (argv : List Word) :
    ∃ args rest, Accepted known args ∧ argv = spellAll args ++ rest ∧ EndsBefore args rest ∧
      (rest = [] ∨ ∃ e, Offends known rest e) := by
  have hnone : Accepted known [] := List.forall_mem_nil _
  induction hlength : argv.length using Nat.strong_induction_on generalizing argv with
  | _ n ih =>
  cases argv with
  | nil => exact ⟨[], [], hnone, rfl, endsBefore_nil [], Or.inl rfl⟩
  | cons token more =>
    have hstart : EndsBefore [] (token :: more) := by
      intro b hb
      cases hb
    cases hflag : isFlag token with
    | false =>
      exact ⟨[], token :: more, hnone, rfl, hstart, .inr ⟨.unexpected token, more, rfl, hflag⟩⟩
    | true =>
      obtain ⟨a, rest, hformed, hspell, hends⟩ := exists_spell hflag more
      by_cases hknown : a.key ∈ known
      · -- the line that is left is shorter
        have hshorter : rest.length < n := by
          rw [← hlength, hspell, List.length_append]
          have hpos : 0 < a.spell.length := by cases a <;> exact Nat.succ_pos _
          omega
        obtain ⟨args, left, hargs, rfl, hlast, hleft⟩ := ih rest.length hshorter rest rfl
        refine ⟨a :: args, left, ?_, ?_, hlast.cons hends, hleft⟩
        · intro b hb
          rcases List.mem_cons.mp hb with rfl | hb
          · exact ⟨hformed, hknown⟩
          · exact hargs b hb
        · rw [hspell, spellAll, spellAll, List.flatMap_cons, List.append_assoc]
      · exact ⟨[], token :: more, hnone, rfl, hstart,
          .inr ⟨.unknown a.key, a, rest, hformed, hends, rfl, hknown, hspell⟩⟩

theorem loop_offends {e : Fatal} (h : Offends known rest e) : loop known kv rest = .error e := by
  cases e with
  | unexpected token =>
    obtain ⟨more, rfl, hflag⟩ := h
    conv_lhs => unfold loop
    rw [if_neg (ne_true_of_eq_false hflag)]
  | unknown k =>
    obtain ⟨a, more, hformed, hends, rfl, hknown, rfl⟩ := h
    rw [loop_spell hformed hends, put_unknown hknown]
    rfl

/-- No line can be read in two ways. -/
theorem spellAll_inj {args' : List Arg} (h : Accepted known args) (h' : Accepted known args')
    (heq : spellAll args = spellAll args') : args = args' := by
  have hpos : ∀ (a : Arg) (rest : List Word), a.spell ++ rest ≠ [] := by
    intro a rest
    cases a <;> exact List.cons_ne_nil _ _
  induction args generalizing args' with
  | nil =>
    cases args' with
    | nil => rfl
    | cons b args' => exact absurd heq.symm (hpos b _)
  | cons a args ih =>
    cases args' with
    | nil => exact absurd heq (hpos a _)
    | cons b args' =>
      have hends := (endsBefore_nil (a :: args)).head
      have hends' := (endsBefore_nil (b :: args')).head
      rw [List.append_nil] at hends hends'
      obtain ⟨rfl, hrest⟩ := spell_inj (h a List.mem_cons_self).1 (h' b List.mem_cons_self).1
        hends hends' heq
      rw [ih (fun c hc => h c (List.mem_cons_of_mem _ hc))
        (fun c hc => h' c (List.mem_cons_of_mem _ hc)) hrest]

theorem parse_spellAll (h : Accepted known args) :
    parse known (spellAll args) = .ok (table args) := by
  have hloop := loop_spellAll Dict.empty h (endsBefore_nil args)
  rw [List.append_nil] at hloop
  exact hloop

theorem parse_offends {e : Fatal} (h : Accepted known args) (hends : EndsBefore args rest)
    (he : Offends known rest e) : parse known (spellAll args ++ rest) = .error e := by
  rw [parse, loop_spellAll Dict.empty h hends, loop_offends he]

/-! ## What the program reads of it -/

theorem get?_table (args : List Arg) (k : Word) :
    (table args).get? k = (args.reverse.find? fun a => a.key = k).map Arg.value :=
  Dict.get?_foldl_set Arg.key Arg.value args k

theorem get?_table_last {before after : List Arg} (h : ∀ b ∈ after, b.key ≠ a.key) :
    (table (before ++ a :: after)).get? a.key = some a.value := by
  have hnone : after.reverse.find? (fun b => decide (b.key = a.key)) = none := by
    rw [List.find?_eq_none]
    intro b hb
    rw [decide_eq_true_iff]
    exact h b (List.mem_reverse.mp hb)
  rw [get?_table, List.reverse_append, List.reverse_cons, List.append_assoc, List.find?_append,
    hnone, List.singleton_append, List.find?_cons, decide_eq_true rfl]
  rfl

theorem get?_table_absent (h : ∀ a ∈ args, a.key ≠ k) : (table args).get? k = none := by
  rw [get?_table, Option.map_eq_none_iff, List.find?_eq_none]
  intro a ha
  rw [decide_eq_true_iff]
  exact h a (List.mem_reverse.mp ha)

theorem isCSpace_of_isDigit {c : Char} (h : c.isDigit = true) : isCSpace c = false := by
  have hlow : 48 ≤ c.toNat := (Char.isDigit_iff_toNat.mp h).1
  have hne : c ≠ ' ' := by
    rintro rfl
    exact absurd h (by decide)
  simp [isCSpace, hne]
  omega

theorem atoiDigits_toDigits (n : Nat) : atoiDigits (Nat.toDigits 10 n) = n := by
  have htake : (Nat.toDigits 10 n).takeWhile Char.isDigit = Nat.toDigits 10 n :=
    List.takeWhile_eq_self_iff.mpr fun _ => Numeral.isDigit_toDigits
  rw [atoiDigits, htake, Nat.ofDigitChars_ten_toDigits]

theorem signed_decimal (i : Int) : signed (Numeral.decimal i) = i := by
  cases i with
  | ofNat n =>
    have hdigit : ∀ c ∈ Nat.toDigits 10 n, c.isDigit = true := fun _ => Numeral.isDigit_toDigits
    rw [Numeral.decimal]
    unfold signed
    split
    · next ds h => exact absurd (hdigit '-' (h ▸ List.mem_cons_self)) (by decide)
    · next ds h => exact absurd (hdigit '+' (h ▸ List.mem_cons_self)) (by decide)
    · rw [atoiDigits_toDigits]
      rfl
  | negSucc n =>
    rw [Numeral.decimal, signed, atoiDigits_toDigits]
    rfl

theorem dropWhile_decimal (i : Int) :
    (Numeral.decimal i).dropWhile isCSpace = Numeral.decimal i := by
  rw [List.dropWhile_eq_self_iff]
  intro hlength
  cases i with
  | ofNat n =>
    have hdigit := isCSpace_of_isDigit (Numeral.isDigit_toDigits (List.getElem_mem hlength))
    exact ne_true_of_eq_false hdigit
  | negSucc n =>
    show ¬isCSpace '-' = true
    decide

/-- `atoi` reads back what `%d` prints. -/
theorem atoi_decimal {i : Int} (hlow : -2 ^ 31 ≤ i) (hhigh : i < 2 ^ 31) :
    atoi (Numeral.decimal i) = some i := by
  rw [atoi, dropWhile_decimal, signed_decimal]
  exact if_pos ⟨hlow, hhigh⟩

/-- What is accepted, what it means and what stops the program: a line is accepted exactly
where it is spelled by arguments with known keys, which it then determines; it is refused at the
first word that is part of none.  A key that was given has the value given last, whatever the
default, and only a key that was not given has its default. -/
theorem parse_exact (known argv : List Word) :
    (∀ kv, parse known argv = .ok kv ↔
      ∃ args, Accepted known args ∧ argv = spellAll args ∧ kv = table args) ∧
    (∀ e, parse known argv = .error e ↔ ∃ args rest, Accepted known args ∧
      argv = spellAll args ++ rest ∧ EndsBefore args rest ∧ Offends known rest e) ∧
    ∀ args, Accepted known args → argv = spellAll args →
      (∀ args', Accepted known args' → argv = spellAll args' → args' = args) ∧
      (∀ k dflt, (∀ a ∈ args, a.key ≠ k) → has (table args) k = false ∧
        get (table args) k dflt = dflt) ∧
      ∀ before a after, args = before ++ a :: after → (∀ b ∈ after, b.key ≠ a.key) →
        has (table args) a.key = true ∧ (∀ dflt, get (table args) a.key dflt = a.value) ∧
        ∀ i : Int, -2 ^ 31 ≤ i → i < 2 ^ 31 → a.value = Numeral.decimal i →
          ∀ dflt, getInt (table args) a.key dflt = some i := by
  obtain ⟨args, rest, hargs, rfl, hends, hrest⟩ := exists_spellAll known argv
  refine ⟨fun kv => ⟨fun hparse => ?_, ?_⟩, fun e => ⟨fun hparse => ?_, ?_⟩, ?_⟩
  · rcases hrest with rfl | ⟨e, he⟩
    · rw [List.append_nil, parse_spellAll hargs] at hparse
      cases hparse
      exact ⟨args, hargs, List.append_nil _, rfl⟩
    · rw [parse_offends hargs hends he] at hparse
      cases hparse
  · intro ⟨args', hargs', hline, hkv⟩
    rw [hline, parse_spellAll hargs', hkv]
  · rcases hrest with rfl | ⟨e', he'⟩
    · rw [List.append_nil, parse_spellAll hargs] at hparse
      cases hparse
    · rw [parse_offends hargs hends he'] at hparse
      cases hparse
      exact ⟨args, rest, hargs, rfl, hends, he'⟩
  · intro ⟨args', rest', hargs', hline, hends', he⟩
    rw [hline]
    exact parse_offends hargs' hends' he
  · intro given hgiven hline
    refine ⟨fun args' hargs' hline' => ?_, fun k dflt habsent => ?_, ?_⟩
    · exact spellAll_inj hargs' hgiven (hline'.symm.trans hline)
    · rw [has, get, get?_table_absent habsent]
      exact ⟨rfl, rfl⟩
    · intro before a after hsplit hlast
      have hvalue : (table given).get? a.key = some a.value := by
        rw [hsplit]
        exact get?_table_last hlast
      refine ⟨?_, fun dflt => ?_, fun i hlow hhigh hdecimal dflt => ?_⟩
      · rw [has, hvalue]
        rfl
      · rw [get, hvalue]
        rfl
      · rw [getInt, hvalue, hdecimal]
        exact atoi_decimal hlow hhigh

end CliArgs
end P5G
