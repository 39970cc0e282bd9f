import QuorumList.Json.Token

/-!
A JSON text as a tree.

The tree holds what was written: numerals and string pieces, repeated keys, and the order of
members.  Where the text stops making sense the tree ends in a `broken` leaf, and every container
around that place ends with it, so a reader that works from left to right meets the good part first
and then the fault.  Reading is a machine with an explicit stack of opened containers that takes one
token after the other.

Three readings of a tree are told apart:

* `skim` passes over a value that nobody wants: only the shape of the text counts;
* `check` also wants every string to spell characters, every number to be in range, and containers
  to be nested no deeper than the room allows;
* `settle` checks a value and keeps, of members with equal keys, the last one.
-/
namespace QuorumList.Json

/-- Why a text gives no value: it is not JSON, or it is JSON of another shape than expected. -/
inductive Fault where
  | malformed
  | mismatched
deriving DecidableEq, Repr, Inhabited

/-- A JSON text as written.  A member without a key stands where the key itself is missing. -/
inductive Source where
  | broken
  | null
  | bool (value : Bool)
  | number (numeral : Numeral)
  | string (pieces : List Piece)
  | array (items : List Source)
  | object (members : List (Option (List Piece) × Source))
deriving Repr, Inhabited

/-- A key, as far as it could be read, and the value behind it. -/
abbrev Member := Option (List Piece) × Source

/-- A container whose end has not been read yet, with what it holds so far, last first. -/
inductive Opened where
  | array (before : List Source)
  | object (before : List Member)
  | member (before : List Member) (key : List Piece)

namespace Opened

/-- The container, closed around a last value. -/
def closeWith (value : Source) : Opened → Source
  | .array before => .array (value :: before).reverse
  | .object before => .object ((none, value) :: before).reverse
  | .member before key => .object ((some key, value) :: before).reverse

/-- Close every opened container around a fault. -/
def abandon (stack : List Opened) : Source :=
  stack.foldl closeWith .broken

end Opened

/-- What may come next: a value, the first item or first key of a container (or its end), a further
key, the colon behind a key, or whatever follows a value that is complete. -/
inductive Expecting where
  | value
  | firstItem
  | firstKey
  | key
  | colon
  | next (value : Source)

namespace Source

/-- The value that a token spells by itself. -/
def ofToken? : Token → Option Source
  | .null => some .null
  | .bool b => some (.bool b)
  | .number n => some (.number n)
  | .string pieces => some (.string pieces)
  | _ => none

/-- What is to be read after a token that starts a value, if it can start one. -/
def start? (stack : List Opened) : Token → Option (List Opened × Expecting)
  | .openArray => some (.array [] :: stack, .firstItem)
  | .openObject => some (.object [] :: stack, .firstKey)
  | token => (ofToken? token).map fun value => (stack, .next value)

/-- One step of reading: the opened containers and the expectation after a token, or `none` where
the token does not fit. -/
def step? : List Opened → Expecting → Token → Option (List Opened × Expecting)
  | stack, .value, token => start? stack token
  | .array [] :: stack, .firstItem, .closeArray => some (stack, .next (.array []))
  | stack, .firstItem, token => start? stack token
  | .object [] :: stack, .firstKey, .closeObject => some (stack, .next (.object []))
  | .object before :: stack, .firstKey, .string key => some (.member before key :: stack, .colon)
  | .object before :: stack, .key, .string key => some (.member before key :: stack, .colon)
  | stack, .colon, .colon => some (stack, .value)
  | .array before :: stack, .next value, .comma => some (.array (value :: before) :: stack, .value)
  | .array before :: stack, .next value, .closeArray =>
      some (stack, .next (.array (value :: before).reverse))
  | .member before key :: stack, .next value, .comma =>
      some (.object ((some key, value) :: before) :: stack, .key)
  | .member before key :: stack, .next value, .closeObject =>
      some (stack, .next (.object ((some key, value) :: before).reverse))
  | _, _, _ => none

/-- What a text that ends or fails at this point has given: a complete value with an unfinished
container around it keeps its place in the container. -/
def unfinished : List Opened → Expecting → Source
  | .array before :: stack, .next value => Opened.abandon (.array (value :: before) :: stack)
  | .member before key :: stack, .next value =>
      Opened.abandon (.object ((some key, value) :: before) :: stack)
  | stack, _ => Opened.abandon stack

/-- Read one value from tokens; the rest holds the tokens behind it. -/
def read : List Opened → Expecting → List Token → Source × List Token
  | [], .next value, tokens => (value, tokens)
  | stack, expecting, [] => (unfinished stack expecting, [])
  | stack, expecting, token :: tokens =>
      match step? stack expecting token with
      | some (stack, expecting) => read stack expecting tokens
      | none => (unfinished stack expecting, token :: tokens)

/-! ### Strings -/

/-- The characters that string pieces spell: two units that are the halves of a surrogate pair make
one character, and neither a lone half nor a stray byte spells any. -/
def spell? : List Piece → Option (List Char)
  | [] => some []
  | .char c :: rest => (spell? rest).map (c :: ·)
  | .stray _ :: _ => none
  | .unit high :: .unit low :: rest =>
      if 0xD800 ≤ high ∧ high ≤ 0xDBFF then
        if 0xDC00 ≤ low ∧ low ≤ 0xDFFF then
          (spell? rest).map
            (Char.ofNat ((high - 0xD800) * 1024 + (low - 0xDC00) + 0x10000) :: ·)
        else none
      else if 0xDC00 ≤ high ∧ high ≤ 0xDFFF then none
      else (spell? (.unit low :: rest)).map (Char.ofNat high :: ·)
  | .unit code :: rest =>
      if 0xD800 ≤ code ∧ code ≤ 0xDFFF then none
      else (spell? rest).map (Char.ofNat code :: ·)

/-- The string that pieces spell. -/
def text (pieces : List Piece) : Except Fault String :=
  match spell? pieces with
  | some cs => .ok (String.ofList cs)
  | none => .error .malformed

/-- The text of a key. -/
def keyText : Option (List Piece) → Except Fault String
  | some pieces => text pieces
  | none => .error .malformed

/-! ### Readings of a tree -/

mutual

/-- Pass over a value: it only has to be complete. -/
def skim : Source → Except Fault Unit
  | .broken => .error .malformed
  | .array items => skimItems items
  | .object members => skimMembers members
  | _ => .ok ()

/-- Pass over the items of an array. -/
def skimItems : List Source → Except Fault Unit
  | [] => .ok ()
  | item :: rest => do
      skim item
      skimItems rest

/-- Pass over the members of an object. -/
def skimMembers : List (Option (List Piece) × Source) → Except Fault Unit
  | [] => .ok ()
  | (none, _) :: _ => .error .malformed
  | (some _, value) :: rest => do
      skim value
      skimMembers rest

end

/-- A numeral that some reader looks at has to be in range. -/
def checkNumeral (n : Numeral) : Except Fault Unit :=
  if n.inRange then .ok () else .error .malformed

/-- Put a member behind the others, dropping an earlier one with an equal key. -/
def putMember (members : List Member) (key : String) (value : Source) : List Member :=
  let pieces := some (key.toList.map Piece.char)
  members.filter (fun m => m.1 ≠ pieces) ++ [(pieces, value)]

mutual

/-- Check a value in which containers may be nested `room` deep; of members with equal keys the last
one stays. -/
def settle (room : Nat) : Source → Except Fault Source
  | .broken => .error .malformed
  | .null => .ok .null
  | .bool b => .ok (.bool b)
  | .number n => do
      checkNumeral n
      pure (.number n)
  | .string pieces => do
      let s ← text pieces
      pure (.string (s.toList.map .char))
  | .array items =>
      if room = 0 then .error .malformed
      else do
        let items ← settleItems (room - 1) items
        pure (.array items)
  | .object members =>
      if room = 0 then .error .malformed
      else do
        let members ← settleMembers (room - 1) members []
        pure (.object members)

/-- Settle the items of an array. -/
def settleItems (room : Nat) : List Source → Except Fault (List Source)
  | [] => .ok []
  | item :: rest => do
      let item ← settle room item
      let rest ← settleItems room rest
      pure (item :: rest)

/-- Settle the members of an object behind those already settled. -/
def settleMembers (room : Nat) :
    List (Option (List Piece) × Source) → List Member → Except Fault (List Member)
  | [], done => .ok done
  | (key, value) :: rest, done => do
      let key ← keyText key
      let value ← settle room value
      settleMembers room rest (putMember done key value)

end

/-- Check a value in which containers may be nested `room` deep. -/
def check (room : Nat) (source : Source) : Except Fault Unit := do
  let _ ← settle room source
  pure ()

/-- The fault of a value of another kind than the reader expects.  A scalar has to read well before
its kind counts; of a container the first bracket is enough. -/
def misfit : Source → Fault
  | .broken => .malformed
  | .number n => if n.inRange then .mismatched else .malformed
  | .string pieces => if (spell? pieces).isSome then .mismatched else .malformed
  | _ => .mismatched

end Source

/-- How deep containers may be nested in a text, its outermost value included. -/
def maxNesting : Nat := 127

/-- A whole text: its value, and whether more follows it. -/
structure Document where
  root : Source
  trailing : Bool

namespace Document

/-- Read a text as one value. -/
def ofText (t : Text) : Document :=
  let (root, rest) := Source.read [] .value (Token.ofText t)
  { root := root, trailing := !rest.isEmpty }

/-- Decode the value of a text.  What follows the value counts only once the value is decoded. -/
def decode {α : Type} (decoder : Source → Except Fault α) (document : Document) :
    Except Fault α := do
  let a ← decoder document.root
  if document.trailing then throw .malformed
  pure a

end Document

end QuorumList.Json
