import Mathlib

/-!
# JSON values as the control server handles them

A parsed message, the exceptions Python raises on one, and the keys a Python
dict takes from one.  Python compares keys by value, so `1`, `1.0` and `true`
are one key, and lists and objects are none.
-/

namespace P5G

/-- A parsed JSON value; a number is exact, and `1e999` is `inf`. -/
inductive Json where
  | null
  | bool (b : Bool)
  | num (q : Rat)
  | inf (negative : Bool)
  | str (s : String)
  | arr (items : List Json)
  | obj (fields : List (String × Json))

inductive PyError where
  | attributeError
  | keyError
  | typeError
  | valueError
  | overflowError
  /-- `RuntimeError`: the dict changed during iteration. -/
  | dictChanged
  /-- An `OSError` that is no `ConnectionError`, such as `TimeoutError`. -/
  | osError
  deriving DecidableEq

inductive Key where
  | none
  | num (q : Rat)
  | inf (negative : Bool)
  | str (s : String)
  deriving DecidableEq

abbrev Fields := List (String × Json)

namespace Json

/-- The key a value is in a dict. -/
def key : Json → Except PyError Key
  | .null => .ok .none
  | .bool b => .ok (.num (if b then 1 else 0))
  | .num q => .ok (.num q)
  | .inf n => .ok (.inf n)
  | .str s => .ok (.str s)
  | .arr _ | .obj _ => .error .typeError

/-- Python's `int`; `intOfStr` says which strings it reads. -/
def int (intOfStr : String → Option Int) : Json → Except PyError Int
  | .bool b => .ok (if b then 1 else 0)
  | .num q => .ok (q.num.tdiv q.den)
  | .inf _ => .error .overflowError
  | .str s => (intOfStr s).elim (.error .valueError) .ok
  | .null | .arr _ | .obj _ => .error .typeError

/-- Python's truth value. -/
def truthy : Json → Bool
  | .null => false
  | .bool b => b
  | .num q => q ≠ 0
  | .inf _ => true
  | .str s => s ≠ ""
  | .arr items => !items.isEmpty
  | .obj fields => !fields.isEmpty

/-- Python's `==` with a non-negative integer. -/
def eqNat (j : Json) (n : Nat) : Bool :=
  match j with
  | .bool b => n = if b then 1 else 0
  | .num q => q = n
  | _ => false

end Json

def Key.toJson : Key → Json
  | .none => .null
  | .num q => .num q
  | .inf n => .inf n
  | .str s => .str s

theorem Key.key_toJson (k : Key) : k.toJson.key = .ok k := by
  cases k <;> rfl

namespace Fields

/-- `msg.get(name)` -/
def get? (msg : Fields) (name : String) : Option Json := msg.lookup name

/-- `msg[name]` -/
def item (msg : Fields) (name : String) : Except PyError Json :=
  (msg.get? name).elim (.error .keyError) .ok

def itemKey (msg : Fields) (name : String) : Except PyError Key := (msg.item name).bind Json.key

def getKey (msg : Fields) (name : String) : Except PyError Key :=
  ((msg.get? name).getD .null).key

theorem type_unique {msg : Fields} {a b : String} (ha : msg.get? "type" = some (.str a))
    (hb : msg.get? "type" = some (.str b)) : a = b := by
  rw [ha] at hb
  exact Json.str.inj (Option.some.inj hb)

/-- `msg[name] = value` -/
def set (msg : Fields) (name : String) (value : Json) : Fields :=
  if (msg.get? name).isSome then msg.map fun f => if f.1 = name then (name, value) else f
  else msg ++ [(name, value)]

theorem lookup_replace (msg : Fields) (name other : String) (value : Json) :
    (msg.map fun f => if f.1 = name then (name, value) else f).lookup other =
      if other = name then (msg.lookup name).map fun _ => value else msg.lookup other := by
  induction msg with
  | nil => simp
  | cons f rest ih =>
    obtain ⟨k, v⟩ := f
    rw [List.map_cons]
    by_cases hk : k = name
    · subst hk
      by_cases ho : other = k
      · subst ho
        simp [List.lookup]
      · have hbeq : (other == k) = false := by simpa using ho
        rw [if_pos rfl, if_neg ho, List.lookup_cons, List.lookup_cons, hbeq, ih, if_neg ho]
    · rw [if_neg hk]
      by_cases ho : other = k
      · subst ho
        rw [if_neg hk, List.lookup_cons, List.lookup_cons, BEq.rfl]
      · have hbeq : (other == k) = false := by simpa using ho
        have hname : (name == k) = false := by simpa using Ne.symm hk
        rw [List.lookup_cons, hbeq, ih, List.lookup_cons, hname, List.lookup_cons, hbeq]

theorem get?_set_self (msg : Fields) (name : String) (value : Json) :
    (msg.set name value).get? name = some value := by
  unfold set get?
  split
  · next h =>
    rw [lookup_replace, if_pos rfl]
    obtain ⟨v, hv⟩ := Option.isSome_iff_exists.mp h
    rw [hv]
    rfl
  · next h =>
    rw [List.lookup_append, Option.not_isSome_iff_eq_none.mp h]
    simp

theorem get?_set_ne (msg : Fields) {name other : String} (value : Json) (h : other ≠ name) :
    (msg.set name value).get? other = msg.get? other := by
  unfold set get?
  split
  · rw [lookup_replace, if_neg h]
  · rw [List.lookup_append]
    have hbeq : (other == name) = false := by simpa using h
    simp [List.lookup, hbeq]

end Fields
end P5G
