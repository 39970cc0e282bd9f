import QuorumList.Settings.Number

/-!
Dates and times of a settings file.

A moment is a date, a time, or both with a `T` between them and perhaps an offset behind; seconds
may be left out.  It goes for the text that it has in canonical form.
-/
namespace QuorumList.Settings.File.Moment

open Net (expect?)

/-- The number with so many digits at the front of a text, if it lies between bounds, and the text
behind it. -/
def field? (width low high : Nat) (cs : List Char) : Option (Nat × List Char) :=
  let digits := cs.take width
  let n := Json.Numeral.accumulate 0 digits
  if digits.length = width ∧ digits.all Char.isDigit ∧ low ≤ n ∧ n ≤ high then
    some (n, cs.drop width)
  else none

/-- A number with at least so many digits. -/
def padded (width n : Nat) : List Char :=
  let digits := Nat.toDigits 10 n
  List.replicate (width - digits.length) '0' ++ digits

/-- The days of a month. -/
def daysIn (year month : Nat) : Nat :=
  if month = 2 then
    if year % 4 = 0 ∧ (year % 100 ≠ 0 ∨ year % 400 = 0) then 29 else 28
  else if month ∈ [4, 6, 9, 11] then 30
  else 31

/-- The date at the front of a text, in canonical form, and the text behind it. -/
def date? (cs : List Char) : Option (List Char × List Char) := do
  let (year, cs) ← field? 4 0 9999 cs
  let cs ← expect? '-' cs
  let (month, cs) ← field? 2 1 12 cs
  let cs ← expect? '-' cs
  let (day, cs) ← field? 2 1 (daysIn year month) cs
  pure (padded 4 year ++ '-' :: padded 2 month ++ '-' :: padded 2 day, cs)

/-- The parts of a second behind a point: nine digits count, and zeros at the end say nothing. -/
def fraction? : List Char → Option (List Char × List Char)
  | '.' :: cs =>
      let digits := cs.takeWhile Char.isDigit
      let short := ((digits.take 9).reverse.dropWhile fun c => c = '0').reverse
      if digits.isEmpty then none
      else some (if short.isEmpty then [] else '.' :: short, cs.dropWhile Char.isDigit)
  | cs => some ([], cs)

/-- The seconds behind hours and minutes, if they are there. -/
def seconds? : List Char → Option (List Char × List Char)
  | ':' :: cs => do
      let (second, cs) ← field? 2 0 60 cs
      let (fraction, cs) ← fraction? cs
      pure (padded 2 second ++ fraction, cs)
  | cs => some (padded 2 0, cs)

/-- The time at the front of a text, in canonical form, and the text behind it. -/
def time? (cs : List Char) : Option (List Char × List Char) := do
  let (hour, cs) ← field? 2 0 23 cs
  let cs ← expect? ':' cs
  let (minute, cs) ← field? 2 0 59 cs
  let (seconds, cs) ← seconds? cs
  pure (padded 2 hour ++ ':' :: padded 2 minute ++ ':' :: seconds, cs)

/-- The offset that ends a text, in canonical form; no offset at all is one. -/
def offset? : List Char → Option (List Char)
  | [] => some []
  | ['Z'] => some ['Z']
  | ['z'] => some ['Z']
  | sign :: cs => do
      if sign ≠ '+' ∧ sign ≠ '-' then none
      let (hour, cs) ← field? 2 0 23 cs
      let cs ← expect? ':' cs
      let (minute, cs) ← field? 2 0 59 cs
      let sign := if hour = 0 ∧ minute = 0 then '+' else sign
      if cs.isEmpty then pure (sign :: padded 2 hour ++ ':' :: padded 2 minute) else none

/-- The time and the offset that end a text, in canonical form. -/
def timeAndOffset? (cs : List Char) : Option (List Char) := do
  let (time, cs) ← time? cs
  let offset ← offset? cs
  pure (time ++ offset)

/-- The canonical form of a moment. -/
def ofChars? (cs : List Char) : Option (List Char) :=
  match date? cs with
  | some (date, []) => some date
  | some (date, separator :: cs) =>
      if separator ∈ ['T', 't', ' '] then (timeAndOffset? cs).map fun time => date ++ 'T' :: time
      else none
  | none =>
      match time? cs with
      | some (time, []) => some time
      | _ => none

end QuorumList.Settings.File.Moment
