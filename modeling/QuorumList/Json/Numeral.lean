import QuorumList.Double

/-!
Numbers as a JSON text writes them.

A numeral keeps its digits; nothing is computed while it is read.  Only an integer numeral names an
integer: a fraction, an exponent or a minus sign before zero makes it something else, whatever its
value.  A numeral whose value is too large for a double is refused wherever it is looked at, so the
module also says which numerals those are, in exact arithmetic.
-/
namespace QuorumList.Json

/-- The largest number that an unsigned 64-bit field can hold. -/
def maxUnsigned : Nat := 0xffffffffffffffff

/-- The largest number that a signed 64-bit field can hold. -/
def maxSigned : Nat := 0x7fffffffffffffff

/-- A number as written: sign, whole digits, and the parts after the point and the `e` if there are
any.  The digit lists are not empty. -/
structure Numeral where
  negative : Bool
  whole : List Char
  fraction : Option (List Char)
  exponent : Option (Bool × List Char)
deriving DecidableEq, Repr

namespace Numeral

/-- The value of a decimal digit. -/
def digit (c : Char) : Nat :=
  c.toNat - '0'.toNat

/-- The number that decimal digits spell, after a number already read. -/
def accumulate (start : Nat) (digits : List Char) : Nat :=
  Nat.ofDigitChars 10 digits start

@[simp] theorem accumulate_toDigits (n : Nat) : accumulate 0 (Nat.toDigits 10 n) = n :=
  Nat.ofDigitChars_ten_toDigits

/-- The numeral of an integer. -/
def ofInt (i : Int) : Numeral :=
  { negative := decide (i < 0)
    whole := Nat.toDigits 10 i.natAbs
    fraction := none
    exponent := none }

/-- The integer that a numeral names: it has no fraction and no exponent, and it is not `-0`. -/
def toInt? (n : Numeral) : Option Int :=
  match n.fraction, n.exponent with
  | none, none =>
      let magnitude := accumulate 0 n.whole
      if n.negative then
        if magnitude = 0 then none else some (-(magnitude : Int))
      else some magnitude
  | _, _ => none

theorem toInt?_ofInt (i : Int) : (ofInt i).toInt? = some i := by
  simp only [toInt?, ofInt, accumulate_toDigits, decide_eq_true_eq]
  split
  · next negative =>
      have nonzero : i.natAbs ≠ 0 := by omega
      have magnitude : -(i.natAbs : Int) = i := by omega
      rw [if_neg nonzero, magnitude]
  · next positive =>
      have magnitude : (i.natAbs : Int) = i := by omega
      rw [magnitude]

/-- A number in the making: `significand * 10 ^ scale`.  Once the next digit would push the
significand past 64 bits, whole digits only raise the scale and fraction digits are dropped. -/
structure Scaled where
  significand : Nat
  scale : Int

/-- Read whole digits; the flag of the result says that the significand is full. -/
def scaleWhole : List Char → Nat → Scaled
  | [], n => ⟨n, 0⟩
  | c :: rest, n =>
      if n * 10 + digit c ≤ maxUnsigned then scaleWhole rest (n * 10 + digit c)
      else ⟨n, (c :: rest).length⟩

/-- Read fraction digits behind a scaled whole part. -/
def scaleFraction : List Char → Scaled → Scaled
  | [], s => s
  | c :: rest, s =>
      if s.significand * 10 + digit c ≤ maxUnsigned then
        scaleFraction rest ⟨s.significand * 10 + digit c, s.scale - 1⟩
      else s

/-- The significand and scale of a numeral without its sign. -/
def scaled (n : Numeral) : Scaled :=
  let s := scaleFraction (n.fraction.getD []) (scaleWhole n.whole 0)
  match n.exponent with
  | none => s
  | some (true, digits) => ⟨s.significand, s.scale - accumulate 0 digits⟩
  | some (false, digits) => ⟨s.significand, s.scale + accumulate 0 digits⟩

/-- The product of a significand and a power of ten leaves the range of doubles. -/
def overflows (s : Scaled) : Bool :=
  s.significand ≠ 0 && 0 ≤ s.scale &&
    (308 < s.scale ||
      let power := Nat.pow 10 s.scale.toNat
      Double.limit ≤ Double.nearest (Double.nearest s.significand * Double.nearest power))

/-- The value of the numeral is in the range of doubles, or it is an integer of 64 bits. -/
def inRange (n : Numeral) : Bool :=
  !overflows n.scaled

end Numeral

end QuorumList.Json
