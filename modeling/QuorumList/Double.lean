/-!
Numbers as doubles hold them.

A double has 53 significant bits, so a number that has more is rounded, a tie going to the even
neighbour.  All of this is counted in natural numbers: a size is a multiple of some small unit, and
the least double above zero is so many of those units.  A double is written with the fewest digits
that read back as the same double; `nearestOn_shorten` says that what is written does read back.
-/
namespace QuorumList

/-- A double.  The size of a finite one is counted in units of `10 ^ -1074`, which all doubles are
multiples of. -/
inductive Double where
  | nan
  | infinite (negative : Bool)
  | finite (negative : Bool) (size : Nat)
deriving DecidableEq, Repr

namespace Double

/-! ### Rounding -/

/-- The size nearest to `n` that a double has, where the least double above zero has the size
`least`: 53 significant bits, a tie going to the even neighbour. -/
def nearestOn (least n : Nat) : Nat :=
  let excess := (n / least).log2 + 1 - 53
  let unit := least * Nat.pow 2 excess
  let quotient := n / unit
  let remainder := n % unit
  let up := 2 * remainder > unit || (2 * remainder = unit && quotient % 2 = 1)
  (if up then quotient + 1 else quotient) * unit

/-- The double nearest to a natural number, as a natural number. -/
def nearest (n : Nat) : Nat :=
  nearestOn 1 n

/-- No double reaches this number. -/
def limit : Nat :=
  Nat.pow 2 1024

/-- The decimal places of the unit that sizes are counted in. -/
def places : Nat := 1074

/-- The size of the number one. -/
def one : Nat :=
  Nat.pow 10 places

/-- The size of the least double above zero. -/
def least : Nat :=
  Nat.pow 5 places

/-! ### From decimals -/

/-- From this power of ten on everything is beyond the doubles. -/
def vast : Int := 310

/-- Everything below this power of ten is nearer to zero than to any other double. -/
def tiny : Int := -400

/-- A power of ten beyond a number is that of this exponent, because eight is less than ten. -/
def magnitude (n : Nat) : Nat :=
  n.log2 / 3 + 1

/-- The double nearest to `digits * 10 ^ scale`, with a sign. -/
def ofDecimal (negative : Bool) (digits : Nat) (scale : Int) : Double :=
  if digits = 0 ∨ scale + magnitude digits < tiny then .finite negative 0
  else if vast ≤ scale then .infinite negative
  else
    let further := (-scale).toNat - places
    let refined := Nat.pow 10 further
    let exact := digits * Nat.pow 10 (scale + places + further).toNat
    let size := nearestOn (least * refined) exact / refined
    if limit * one ≤ size then .infinite negative else .finite negative size

/-! ### To numbers and texts -/

/-- The double is zero. -/
def isZero : Double → Bool
  | .finite _ size => size = 0
  | _ => false

/-- The natural number nearest to a double, a half going up; it is cut to `largest`, and what is
no number is zero. -/
def toNatural (largest : Nat) : Double → Nat
  | .nan => 0
  | .infinite negative => if negative then 0 else largest
  | .finite negative size =>
      if negative then 0 else min ((2 * size + one) / (2 * one)) largest

/-- The sizes with at most so many zeros at the end that read back as `v`: the one with most zeros,
of two of these the nearer, and of two as near the larger. -/
def shortenFrom (least v : Nat) : (zeros : Nat) → Nat
  | 0 => v
  | zeros + 1 =>
      let unit := Nat.pow 10 (zeros + 1)
      let low := v / unit * unit
      let high := low + unit
      if nearestOn least low = v ∧ (v - low < high - v ∨ nearestOn least high ≠ v) then low
      else if nearestOn least high = v then high
      else shortenFrom least v zeros

/-- The size with the fewest digits in front of zeros that reads back as `v`. -/
def shorten (least v : Nat) : Nat :=
  shortenFrom least v ((Nat.toDigits 10 v).length - 1)

theorem nearestOn_shortenFrom {least v : Nat} (double : nearestOn least v = v) (zeros : Nat) :
    nearestOn least (shortenFrom least v zeros) = v := by
  induction zeros with
  | zero => exact double
  | succ zeros further =>
      rw [shortenFrom]
      split
      · next low => exact low.1
      · split
        · next high => exact high
        · exact further

/-- What is written for a double reads back as that double. -/
theorem nearestOn_shorten {least v : Nat} (double : nearestOn least v = v) :
    nearestOn least (shorten least v) = v :=
  nearestOn_shortenFrom double _

/-- The digits of a size: whole digits, and behind a point the places that are not zeros at the
end. -/
def digits (size : Nat) : List Char :=
  let short := shorten least size
  let behind := (Nat.toDigits 10 (short % one + one)).tail
  let fraction := (behind.reverse.dropWhile fun c => c = '0').reverse
  Nat.toDigits 10 (short / one) ++ (if fraction.isEmpty then [] else '.' :: fraction)

/-- The text of a double. -/
def render : Double → List Char
  | .nan => ['N', 'a', 'N']
  | .infinite negative => (if negative then ['-'] else []) ++ ['i', 'n', 'f']
  | .finite negative size => (if negative then ['-'] else []) ++ digits size

end Double

end QuorumList
