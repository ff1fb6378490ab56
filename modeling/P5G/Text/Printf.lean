import P5G.Text.Numeral

/-!
# `fprintf`

The conversions `%d`, `%u`, `%lld`, `%zu` and `%s`.  An argument has the type it
has after the default promotions, and `%d` and `%u` read a 32-bit word as signed
and unsigned whatever it was.
-/

namespace P5G
namespace Printf

open Numeral

inductive Arg where
  | int (x : Int32)
  | uint (x : UInt32)
  | longLong (x : Int64)
  | size (n : Nat)
  | str (s : List Char)

inductive Directive where
  | lit (c : Char)
  | d
  | u
  | lld
  | zu
  | s
  deriving DecidableEq

def directives : List Char → List Directive
  | '%' :: 'l' :: 'l' :: 'd' :: fmt => .lld :: directives fmt
  | '%' :: 'z' :: 'u' :: fmt => .zu :: directives fmt
  | '%' :: 'd' :: fmt => .d :: directives fmt
  | '%' :: 'u' :: fmt => .u :: directives fmt
  | '%' :: 's' :: fmt => .s :: directives fmt
  | c :: fmt => .lit c :: directives fmt
  | [] => []

/-- What a directive prints of an argument.  C leaves the other pairs undefined. -/
def convert : Directive → Arg → List Char
  | .d, .int x => decimal x.toInt
  | .d, .uint x => decimal x.toInt32.toInt
  | .u, .int x => decimal x.toUInt32.toNat
  | .u, .uint x => decimal x.toNat
  | .lld, .longLong x => decimal x.toInt
  | .zu, .size n => decimal n
  | .s, .str s => s
  | _, _ => []

def render : List Directive → List Arg → List Char
  | [], _ => []
  | .lit c :: ds, args => c :: render ds args
  | spec :: ds, a :: args => convert spec a ++ render ds args
  | _ :: _, [] => []

def printf (fmt : String) (args : List Arg) : List Char := render (directives fmt.toList) args

def uint8 (x : UInt8) : Arg := .int (Int32.ofNat x.toNat)

def uint16 (x : UInt16) : Arg := .int (Int32.ofNat x.toNat)

@[simp] theorem convert_d (x : Int32) : convert .d (.int x) = decimal x.toInt := rfl

@[simp] theorem convert_u (x : UInt32) : convert .u (.uint x) = decimal x.toNat := rfl

@[simp] theorem convert_lld (x : Int64) : convert .lld (.longLong x) = decimal x.toInt := rfl

@[simp] theorem convert_zu (n : Nat) : convert .zu (.size n) = decimal n := rfl

@[simp] theorem convert_s (s : List Char) : convert .s (.str s) = s := rfl

theorem toUInt32_ofNat (n : Nat) (h : n < 2 ^ 31) : (Int32.ofNat n).toUInt32.toNat = n := by
  have hcast : (Int32.ofNat n).toUInt32 = UInt32.ofNat n := rfl
  rw [hcast, UInt32.toNat_ofNat_of_lt' (by simp [UInt32.size]; omega)]

@[simp] theorem convert_uint8 (x : UInt8) : convert .u (uint8 x) = decimal x.toNat := by
  have := x.toNat_lt
  rw [uint8, convert, toUInt32_ofNat _ (by omega)]

@[simp] theorem convert_uint16 (x : UInt16) : convert .u (uint16 x) = decimal x.toNat := by
  have := x.toNat_lt
  rw [uint16, convert, toUInt32_ofNat _ (by omega)]

end Printf
end P5G
