/-!
Text that arrives as bytes.

A received text is a list of glyphs: the characters its bytes spell in UTF-8, and, where the bytes
spell no character, the byte itself.  No byte is lost, so a reader that meets a stray byte can
refuse it, and a reader that only skips over it can go on behind it.
-/
namespace QuorumList

/-- One element of a received text: a character, or a byte that belongs to no character. -/
inductive Glyph where
  | char (c : Char)
  | stray (byte : UInt8)
deriving DecidableEq, Repr, Inhabited

/-- A received text, from its first glyph to its last. -/
abbrev Text := List Glyph

namespace Text

/-- The text of a string holds its characters and no stray byte. -/
def ofString (s : String) : Text :=
  s.toList.map .char

/-- A trailing byte of a longer character lies in `80 … BF`. -/
def isTrailing (byte : UInt8) : Bool :=
  0x80 ≤ byte && byte ≤ 0xBF

/-- The six low bits that a trailing byte carries. -/
def payload (byte : UInt8) : Nat :=
  byte.toNat % 64

/-- The second byte that may follow a first byte: the ranges leave out overlong spellings,
surrogates and numbers above `10FFFF`. -/
def secondAllowed (first second : UInt8) : Bool :=
  if first = 0xE0 then 0xA0 ≤ second && second ≤ 0xBF
  else if first = 0xED then 0x80 ≤ second && second ≤ 0x9F
  else if first = 0xF0 then 0x90 ≤ second && second ≤ 0xBF
  else if first = 0xF4 then 0x80 ≤ second && second ≤ 0x8F
  else isTrailing second

/-- The character that starts with the byte `first`, and how many of the bytes after it belong to
it.  There is none where the bytes spell no character. -/
def leading? (first : UInt8) (rest : List UInt8) : Option (Char × Nat) :=
  if first < 0x80 then some (Char.ofNat first.toNat, 0)
  else if 0xC2 ≤ first && first ≤ 0xDF then
    match rest with
    | b :: _ =>
        if isTrailing b then
          some (Char.ofNat ((first.toNat - 0xC0) * 64 + payload b), 1)
        else none
    | _ => none
  else if 0xE0 ≤ first && first ≤ 0xEF then
    match rest with
    | b :: c :: _ =>
        if secondAllowed first b && isTrailing c then
          some
            (Char.ofNat ((first.toNat - 0xE0) * 4096 + payload b * 64 + payload c), 2)
        else none
    | _ => none
  else if 0xF0 ≤ first && first ≤ 0xF4 then
    match rest with
    | b :: c :: d :: _ =>
        if secondAllowed first b && isTrailing c && isTrailing d then
          some
            (Char.ofNat ((first.toNat - 0xF0) * 262144 + payload b * 4096 + payload c * 64
              + payload d), 3)
        else none
    | _ => none
  else none

/-- Read bytes as UTF-8, keeping each byte that belongs to no character. -/
def ofBytes : List UInt8 → Text
  | [] => []
  | first :: rest =>
      match leading? first rest with
      | some (c, more) => .char c :: ofBytes (rest.drop more)
      | none => .stray first :: ofBytes rest
termination_by bytes => bytes.length
decreasing_by all_goals simp_wf; try omega

/-- The value of a hexadecimal digit in lower case. -/
def hexValue? (c : Char) : Option Nat :=
  if '0' ≤ c ∧ c ≤ '9' then some (c.toNat - '0'.toNat)
  else if 'a' ≤ c ∧ c ≤ 'f' then some (c.toNat - 'a'.toNat + 10)
  else none

/-- The bytes that pairs of hexadecimal digits spell. -/
def bytesOfHex? : List Char → Option (List UInt8)
  | [] => some []
  | high :: low :: rest =>
      match hexValue? high, hexValue? low, bytesOfHex? rest with
      | some h, some l, some bytes => some (UInt8.ofNat (h * 16 + l) :: bytes)
      | _, _, _ => none
  | _ => none

/-- The characters of a text, if it holds no stray byte. -/
def chars? : Text → Option (List Char)
  | [] => some []
  | .char c :: rest => (chars? rest).map (c :: ·)
  | .stray _ :: _ => none

/-- The string that a text spells, if it holds no stray byte. -/
def toString? (text : Text) : Option String :=
  text.chars?.map String.ofList

theorem chars?_map_char (cs : List Char) : chars? (cs.map .char) = some cs := by
  induction cs with
  | nil => rfl
  | cons c rest ih => simp [chars?, ih]

@[simp] theorem toString?_ofString (s : String) : (ofString s).toString? = some s := by
  simp [toString?, ofString, chars?_map_char]

end Text

end QuorumList
