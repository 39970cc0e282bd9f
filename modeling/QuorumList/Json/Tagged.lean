import QuorumList.Json.Decoder

/-!
Values that carry a tag.

A *paired* value holds its tag and its content under two keys, in any order; the content can only be
decoded once the tag is known, so a content that comes first is checked and held.  A *mixed* value
holds its tag among the fields of the variant that the tag names; all other members are checked and
held until the whole value has been read.  Both may also be written as arrays that start with the
tag.  Only under its key may the tag of a paired value stand in the longer form of a name; in front
of an array it is a string.
-/
namespace QuorumList.Json.Decoder

/-- How far a paired value has been read. -/
inductive Paired (τ α : Type) where
  | nothing
  | tag (t : τ)
  | content (held : Source)
  | both (value : α)

variable {τ α : Type}

/-- Read the members of a paired value. -/
def pairedMembers (tagKey contentKey : String) (tag : Decoder τ) (content : τ → Decoder α) :
    List Member → Paired τ α → Except Fault α
  | [], .both value => .ok value
  | [], _ => .error .mismatched
  | (key, value) :: rest, read => do
      let key ← Source.keyText key
      if key = tagKey then
        match read with
        | .nothing => do
            let t ← tag value
            pairedMembers tagKey contentKey tag content rest (.tag t)
        | .content held => do
            let t ← tag value
            let a ← content t held
            pairedMembers tagKey contentKey tag content rest (.both a)
        | _ => throw .mismatched
      else if key = contentKey then
        match read with
        | .nothing => do
            let held ← Source.settle maxNesting value
            pairedMembers tagKey contentKey tag content rest (.content held)
        | .tag t => do
            let a ← content t value
            pairedMembers tagKey contentKey tag content rest (.both a)
        | _ => throw .mismatched
      else do
        Source.skim value
        pairedMembers tagKey contentKey tag content rest read

/-- A value whose tag, one of a few names, and content stand under two keys. -/
def paired (tagKey contentKey : String) (tags : List (String × τ)) (content : τ → Decoder α) :
    Decoder α
  | .object members => pairedMembers tagKey contentKey (named tags) content members .nothing
  | .array [] => .error .mismatched
  | .array (first :: rest) => do
      let t ← refine string (fun name => tags.lookup name) first
      match rest with
      | [] => throw .mismatched
      | [second] => content t second
      | second :: _ => do
          let _ ← content t second
          throw .malformed
  | s => .error s.misfit

/-- Read the members of a mixed value: the tag, and the other members in order. -/
def mixedMembers (tagKey : String) (tag : Decoder τ) :
    List Member → Option τ → List Member → Except Fault (τ × List Member)
  | [], some t, held => .ok (t, held.reverse)
  | [], none, _ => .error .mismatched
  | (key, value) :: rest, found, held => do
      let key ← Source.keyText key
      if key = tagKey then
        match found with
        | some _ => throw .mismatched
        | none => do
            let t ← tag value
            mixedMembers tagKey tag rest (some t) held
      else do
        let value ← Source.settle (maxNesting - 1) value
        mixedMembers tagKey tag rest found ((some (key.toList.map .char), value) :: held)

/-- A value whose tag stands among its fields. -/
def mixed (tagKey : String) (tag : Decoder τ) (fields : τ → Decoder α) : Decoder α
  | .object members => do
      let (t, held) ← mixedMembers tagKey tag members none []
      fields t (.object held)
  | .array [] => .error .mismatched
  | .array (first :: rest) => do
      let t ← tag first
      let held ← rest.mapM (Source.settle (maxNesting - 1))
      fields t (.array held)
  | s => .error s.misfit

end QuorumList.Json.Decoder
