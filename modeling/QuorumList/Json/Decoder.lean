import QuorumList.Json.Source

/-!
Decoders from JSON texts to typed values.

A decoder reads the tree of a text from left to right, and the first fault decides.  The rules for
records are stated once, in `record`:

* a record is an object whose members may come in any order, or an array of its fields in the order
  of the fields;
* a member with an unknown key is passed over, a known key may come once, and `Presence` says which
  fields may be missing;
* an array may stop early only before fields that need not be there, and may not go on.
-/
namespace QuorumList.Json

/-- A decoder of values of type `α`. -/
abbrev Decoder (α : Type) := Source → Except Fault α

namespace Decoder

/-- A truth value. -/
def bool : Decoder Bool
  | .bool b => .ok b
  | s => .error s.misfit

/-- A string. -/
def string : Decoder String
  | .string pieces => Source.text pieces
  | s => .error s.misfit

/-- An integer from `low` to `high`. -/
def integer (low high : Int) : Decoder Int
  | .number n =>
      if !n.inRange then .error .malformed
      else
        match n.toInt? with
        | some i => if low ≤ i ∧ i ≤ high then .ok i else .error .mismatched
        | none => .error .mismatched
  | s => .error s.misfit

/-- A signed integer of 64 bits. -/
def signed : Decoder Int :=
  integer (-(maxSigned : Int) - 1) maxSigned

/-- A natural number up to `high`. -/
def naturalTo (high : Nat) : Decoder Nat := fun s => do
  let i ← integer 0 high s
  pure i.toNat

/-- An unsigned integer of 64 bits. -/
def unsigned : Decoder Nat :=
  naturalTo maxUnsigned

/-- A value, or `null` for none. -/
def optional {α : Type} (d : Decoder α) : Decoder (Option α)
  | .null => .ok none
  | s => some <$> d s

/-- The values of an array. -/
def list {α : Type} (d : Decoder α) : Decoder (List α)
  | .array items => items.mapM d
  | s => .error s.misfit

/-- Decode and convert, where the conversion may refuse the value. -/
def refine {α β : Type} (d : Decoder α) (f : α → Option β) : Decoder β := fun s => do
  let a ← d s
  match f a with
  | some b => pure b
  | none => throw .mismatched

/-- A value named by one of a few strings; a name may also be written as an object that holds
`null` under the name. -/
def named {α : Type} (names : List (String × α)) : Decoder α
  | .string pieces => do
      let s ← Source.text pieces
      pick s
  | .object [(key, value)] => do
      let s ← Source.keyText key
      let a ← pick s
      match value with
      | .null => pure a
      | other => throw other.misfit
  | _ => .error .malformed
where
  /-- The value with a given name. -/
  pick (s : String) : Except Fault α :=
    match names.lookup s with
    | some a => .ok a
    | none => .error .mismatched

/-- The generic reading of a value at the outermost level but one of a text. -/
def generic : Decoder Source :=
  Source.settle (maxNesting - 1)

end Decoder

/-- Where a field may be left out: nowhere, in objects and at the end of arrays, or in objects
only. -/
inductive Presence where
  | required
  | optional
  | optionalInObjects
deriving DecidableEq, Repr

namespace Presence

/-- The field may be left out of an object. -/
def inObjects : Presence → Bool
  | .required => false
  | _ => true

/-- The field may be left out at the end of an array. -/
def inArrays : Presence → Bool
  | .optional => true
  | _ => false

end Presence

/-- One field of a record that is read into drafts of type `σ`. -/
structure Field (σ : Type) where
  key : String
  presence : Presence
  read : Source → Except Fault (σ → σ)

namespace Field

/-- A field from its key, its decoder and the way its value is put into a draft. -/
def make {σ α : Type} (key : String) (presence : Presence) (d : Decoder α)
    (put : α → σ → σ) : Field σ :=
  { key := key
    presence := presence
    read := fun s => do
      let a ← d s
      pure (put a) }

variable {σ : Type}

/-- Read members into a draft; `seen` holds the known keys met so far. -/
def readMembers (fields : List (Field σ)) :
    List Member → List String → σ → Except Fault (List String × σ)
  | [], seen, draft => .ok (seen, draft)
  | (key, value) :: rest, seen, draft => do
      let key ← Source.keyText key
      match fields.find? (fun f => f.key = key) with
      | none =>
          Source.skim value
          readMembers fields rest seen draft
      | some f =>
          if key ∈ seen then throw .mismatched
          let put ← f.read value
          readMembers fields rest (key :: seen) (put draft)

/-- Read items into a draft, one for each field from the first on. -/
def readItems : List (Field σ) → List Source → σ → Except Fault σ
  | [], [], draft => .ok draft
  | [], _ :: _, _ => .error .malformed
  | f :: fields, [], draft =>
      if f.presence.inArrays then readItems fields [] draft else .error .mismatched
  | f :: fields, item :: items, draft => do
      let put ← f.read item
      readItems fields items (put draft)

end Field

/-- A record with the given fields, read into a blank draft. -/
def Decoder.record {σ : Type} (fields : List (Field σ)) (blank : σ) : Decoder σ
  | .object members => do
      let (seen, draft) ← Field.readMembers fields members [] blank
      if fields.all (fun f => f.presence.inObjects || f.key ∈ seen) then pure draft
      else throw .mismatched
  | .array items => Field.readItems fields items blank
  | s => .error s.misfit

end QuorumList.Json
