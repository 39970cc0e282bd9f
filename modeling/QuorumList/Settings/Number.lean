import QuorumList.Net.Hosts

/-!
Numbers in the sources of settings.

In the environment a number is written as it comes: digits with a sign, or digits with a point, an
exponent or more of them than an integer has.  A settings file is stricter about decimals, where
digits stand on either side of a point and no needless zero in front, and it knows more: underscores
between digits, and integers of other radices.
-/
namespace QuorumList.Settings

open Net (splitAtEach digitIn?)

/-! ### Signs and digits -/

/-- A text without the sign in front of it: true for a minus. -/
def signed (cs : List Char) : Bool × List Char :=
  match cs with
  | '-' :: rest => (true, rest)
  | '+' :: rest => (false, rest)
  | rest => (false, rest)

/-- The number that digits of a radix spell. -/
def number? (radix : Nat) (digits : List Char) : Option Nat :=
  digits.foldlM (fun n c => (digitIn? radix c).map (n * radix + ·)) 0

/-- The digits of a number without the underscores between them: each underscore has a digit on
either side. -/
def plainDigits? (cs : List Char) : Option (List Char) :=
  let parts := splitAtEach '_' cs
  if parts.any List.isEmpty then none else some parts.flatten

/-- An integer of 64 bits with a sign. -/
def isShort (i : Int) : Bool :=
  -(Json.maxSigned : Int) - 1 ≤ i && i ≤ Json.maxSigned

/-! ### Decimals -/

/-- The parts of a decimal: what stands in front of the point, behind it, and behind the `e`. -/
def decimalParts (cs : List Char) : Json.Numeral :=
  let isMark := fun c => c = 'e' || c = 'E'
  let (negative, body) := signed cs
  let front := body.takeWhile fun c => !isMark c
  { negative := negative
    whole := front.takeWhile (· ≠ '.')
    fraction := (front.dropWhile (· ≠ '.')).tail?
    exponent := (body.dropWhile fun c => !isMark c).tail?.map signed }

/-- The double nearest to a decimal. -/
def nearestDouble (n : Json.Numeral) : Double :=
  let fraction := n.fraction.getD []
  let exponent : Int :=
    match n.exponent with
    | none => 0
    | some (negative, digits) =>
        let size : Int := Json.Numeral.accumulate 0 digits
        if negative then -size else size
  .ofDecimal n.negative (Json.Numeral.accumulate 0 (n.whole ++ fraction))
    (exponent - fraction.length)

/-- Words that stand for doubles. -/
def doubleWords (negative : Bool) : List (List Char × Double) :=
  [ (['i', 'n', 'f'], .infinite negative),
    (['i', 'n', 'f', 'i', 'n', 'i', 't', 'y'], .infinite negative),
    (['n', 'a', 'n'], .nan) ]

/-! ### The environment -/

/-- The integer that a text spells in decimal, perhaps behind a sign. -/
def integer? (cs : List Char) : Option Int :=
  let (negative, digits) := signed cs
  if digits ≠ [] ∧ digits.all Char.isDigit then
    let size : Int := Json.Numeral.accumulate 0 digits
    some (if negative then -size else size)
  else none

/-- The double that a text spells: a decimal with digits in front of the point or behind it, or a
word in any case. -/
def double? (cs : List Char) : Option Double :=
  let (negative, body) := signed cs
  match (doubleWords negative).lookup (body.map Char.toLower) with
  | some d => some d
  | none =>
      let n := decimalParts cs
      let around := n.whole ++ n.fraction.getD []
      let behind := (n.exponent.map Prod.snd).getD ['0']
      if around ≠ [] ∧ behind ≠ [] ∧ (around ++ behind).all Char.isDigit then
        some (nearestDouble n)
      else none

/-! ### Settings files -/

/-- The digits in front of a point: no needless zero stands there. -/
def wholeDigits? (cs : List Char) : Option (List Char) :=
  match plainDigits? cs with
  | some ('0' :: _ :: _) => none
  | digits => digits

/-- The size of an integer in a file: in decimal, or behind the mark of another radix. -/
def fileSize? (cs : List Char) : Option Nat :=
  match cs with
  | '0' :: 'x' :: digits => plainDigits? digits >>= number? 16
  | '0' :: 'o' :: digits => plainDigits? digits >>= number? 8
  | '0' :: 'b' :: digits => plainDigits? digits >>= number? 2
  | digits => wholeDigits? digits >>= number? 10

/-- An integer in a file; only a decimal one has a sign. -/
def fileInteger? (cs : List Char) : Option Int :=
  let (negative, body) := signed cs
  let size := if body = cs then fileSize? cs else wholeDigits? body >>= number? 10
  size.map fun n => if negative then -(n : Int) else n

/-- Digits with underscores, if they are digits. -/
def fileDigits? (cs : List Char) : Option (List Char) :=
  (plainDigits? cs).filter fun digits => digits.all Char.isDigit

/-- A double in a file: a decimal with a point or an exponent, within the range of doubles, or a
word. -/
def fileDouble? (cs : List Char) : Option Double :=
  let (negative, body) := signed cs
  if body = ['i', 'n', 'f'] then some (.infinite negative)
  else if body = ['n', 'a', 'n'] then some .nan
  else do
    let n := decimalParts cs
    if n.fraction.isNone && n.exponent.isNone then none
    let whole ← (wholeDigits? n.whole).filter fun digits => digits.all Char.isDigit
    let fraction ← fileDigits? (n.fraction.getD ['0'])
    let (below, digits) := n.exponent.getD (false, ['0'])
    let digits ← fileDigits? digits
    match nearestDouble ⟨n.negative, whole, some fraction, some (below, digits)⟩ with
    | .infinite _ => none
    | d => some d

end QuorumList.Settings
