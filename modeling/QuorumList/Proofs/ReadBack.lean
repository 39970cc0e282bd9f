import QuorumList.Json.Source
import QuorumList.Json.Value

/-!
Reading back what is written.

The text of a value is scanned into its tokens, and the tokens are read into a tree.  The tree of a
written value is determined by the value up to one choice: a control character comes back as the
unit that was written for it, while a tree that has been settled holds the character itself.  So the
tree is defined for any way to spell characters.
-/
namespace QuorumList.Json

/-! ### The tree and the tokens of a value -/

/-- The piece as which a character of a written string is read. -/
def Piece.written (c : Char) : Piece :=
  if c < ' ' ∧ c ∉ ['\x08', '\x0c', '\n', '\r', '\t'] then .unit c.toNat else .char c

mutual

/-- The tree of a value whose strings are spelled in some way. -/
def source (spell : Char → Piece) : Json → Source
  | .null => .null
  | .bool b => .bool b
  | .int i => .number (.ofInt i)
  | .string s => .string (s.toList.map spell)
  | .array items => .array (sources spell items)
  | .object members => .object (memberSources spell members)

def sources (spell : Char → Piece) : List Json → List Source
  | [] => []
  | item :: rest => source spell item :: sources spell rest

def memberSources (spell : Char → Piece) : List (String × Json) → List Member
  | [] => []
  | (key, value) :: rest =>
      (some (key.toList.map spell), source spell value) :: memberSources spell rest

end

/-- The token of a written string. -/
def stringToken (s : String) : Token :=
  .string (s.toList.map Piece.written)

mutual

/-- The tokens of a written value. -/
def tokens : Json → List Token
  | .null => [.null]
  | .bool b => [.bool b]
  | .int i => [.number (.ofInt i)]
  | .string s => [stringToken s]
  | .array [] => [.openArray, .closeArray]
  | .array (item :: rest) => .openArray :: (tokens item ++ itemTokens rest ++ [.closeArray])
  | .object [] => [.openObject, .closeObject]
  | .object ((key, value) :: rest) =>
      .openObject :: stringToken key :: .colon ::
        (tokens value ++ memberTokens rest ++ [.closeObject])

def itemTokens : List Json → List Token
  | [] => []
  | item :: rest => .comma :: (tokens item ++ itemTokens rest)

def memberTokens : List (String × Json) → List Token
  | [] => []
  | (key, value) :: rest =>
      .comma :: stringToken key :: .colon :: (tokens value ++ memberTokens rest)

end

/-! ### Strings -/

namespace Token

theorem hexUnit?_hexPair {n : Nat} (control : n < 32) :
    hexUnit? '0' '0' (Nat.digitChar (n / 16 % 16)) (Nat.digitChar (n % 16)) = some n := by
  revert n
  decide

theorem stringRest?_escape (c : Char) {text rest : Text} {pieces : List Piece}
    (read : stringRest? text = some (pieces, rest)) :
    stringRest? ((escape c).map .char ++ text) = some (Piece.written c :: pieces, rest) := by
  by_cases quote : c = '"'
  · subst quote
    simp [escape, stringRest?, shortEscape?, read, Piece.written]
  by_cases backslash : c = '\\'
  · subst backslash
    simp [escape, stringRest?, shortEscape?, read, Piece.written]
  by_cases short : c ∈ ['\x08', '\x0c', '\n', '\r', '\t']
  · simp only [List.mem_cons, List.not_mem_nil, or_false] at short
    rcases short with rfl | rfl | rfl | rfl | rfl <;>
      simp [escape, stringRest?, shortEscape?, read, Piece.written]
  · have notShort := short
    simp only [List.mem_cons, List.not_mem_nil, or_false, not_or] at notShort
    obtain ⟨notBackspace, notFeed, notLine, notReturn, notTab⟩ := notShort
    by_cases control : c < ' '
    · have unit := hexUnit?_hexPair (n := c.toNat) control
      simp [escape, quote, backslash, notBackspace, notFeed, notLine, notReturn, notTab, control,
        Piece.written, stringRest?, hexPair, unit, read]
    · simp [escape, quote, backslash, notBackspace, notFeed, notLine, notReturn, notTab, control,
        Piece.written, stringRest?, read]

theorem stringRest?_quoted (cs : List Char) (rest : Text) :
    stringRest? ((cs.flatMap escape ++ ['"']).map .char ++ rest) =
      some (cs.map Piece.written, rest) := by
  induction cs with
  | nil => simp [stringRest?]
  | cons c cs ih =>
      have step := stringRest?_escape c ih
      simpa [List.append_assoc] using step

end Token

/-! ### Numbers -/

/-- The decimal digits of a number do not start with a needless zero. -/
theorem toDigits_zero_or_head (n : Nat) :
    Nat.toDigits 10 n = ['0'] ∨ (Nat.toDigits 10 n).head? ≠ some '0' := by
  induction n using Nat.strongRecOn with
  | ind n ih =>
      by_cases small : n < 10
      · rw [Nat.toDigits_of_lt_base small]
        have digit : ∀ m < 10, [Nat.digitChar m] = ['0'] ∨ [Nat.digitChar m].head? ≠ some '0' := by
          decide
        exact digit n small
      · right
        rw [Nat.toDigits_of_base_le (by decide) (by omega)]
        have front := ih (n / 10) (by omega)
        cases written : Nat.toDigits 10 (n / 10) with
        | nil => exact absurd written Nat.toDigits_ne_nil
        | cons d ds =>
            rw [written] at front
            rcases front with zero | head
            · have value := Numeral.accumulate_toDigits (n / 10)
              rw [written, zero] at value
              have none : n / 10 = 0 := value.symm
              omega
            · exact head

namespace Token

/-- What may stand behind a written value: the end of the text, a comma or a closing bracket. -/
def Delimited : Text → Prop
  | [] => True
  | .char c :: _ => c = ',' ∨ c = ']' ∨ c = '\x7d'
  | .stray _ :: _ => False

variable {rest : Text} {ds : List Char}

theorem Delimited.digits (delimited : Delimited rest) : digits rest = ([], rest) := by
  match rest, delimited with
  | [], _ => rfl
  | .char _ :: _, .inl rfl => rfl
  | .char _ :: _, .inr (.inl rfl) => rfl
  | .char _ :: _, .inr (.inr rfl) => rfl

theorem digits_append (areDigits : ∀ d ∈ ds, d.isDigit) (delimited : Delimited rest) :
    digits (ds.map .char ++ rest) = (ds, rest) := by
  induction ds with
  | nil => exact delimited.digits
  | cons d ds ih =>
      rw [List.forall_mem_cons] at areDigits
      simp only [List.map_cons, List.cons_append, Token.digits, areDigits.1, if_true,
        ih areDigits.2]

theorem Delimited.fraction? (delimited : Delimited rest) : fraction? rest = some (none, rest) := by
  match rest, delimited with
  | [], _ => rfl
  | .char _ :: _, .inl rfl => rfl
  | .char _ :: _, .inr (.inl rfl) => rfl
  | .char _ :: _, .inr (.inr rfl) => rfl

theorem Delimited.exponent? (delimited : Delimited rest) : exponent? rest = some (none, rest) := by
  match rest, delimited with
  | [], _ => rfl
  | .char _ :: _, .inl rfl => rfl
  | .char _ :: _, .inr (.inl rfl) => rfl
  | .char _ :: _, .inr (.inr rfl) => rfl

theorem wholeDigits?_toDigits (n : Nat) (delimited : Delimited rest) :
    wholeDigits? ((Nat.toDigits 10 n).map .char ++ rest) = some (Nat.toDigits 10 n, rest) := by
  have areDigits : ∀ d ∈ Nat.toDigits 10 n, d.isDigit := fun _ member =>
    Nat.isDigit_of_mem_toDigits (by decide) (by decide) member
  have read := digits_append areDigits delimited
  have nonempty : Nat.toDigits 10 n ≠ [] := Nat.toDigits_ne_nil
  have noZero := toDigits_zero_or_head n
  unfold wholeDigits?
  rw [read]
  split
  · next empty => simp_all
  · next zero => 
      rw [Prod.mk.injEq] at zero
      simp_all
  · next same => exact congrArg some same.symm

theorem numberRest?_toDigits (negative : Bool) (n : Nat) (delimited : Delimited rest) :
    numberRest? negative ((Nat.toDigits 10 n).map .char ++ rest) =
      some (.number ⟨negative, Nat.toDigits 10 n, none, none⟩, rest) := by
  simp [numberRest?, wholeDigits?_toDigits n delimited, delimited.fraction?, delimited.exponent?]

/-- Only a number starts with a digit. -/
theorem next?_digit {d : Char} (digit : d.isDigit) (text : Text) :
    next? (.char d :: text) = numberRest? false (.char d :: text) := by
  unfold next?
  split <;> first
    | rfl
    | next same =>
        rw [List.cons.injEq, Glyph.char.injEq] at same
        rw [same.1] at digit
        exact absurd digit (by decide)

/-- The token of a written integer. -/
theorem next?_decimal (i : Int) (delimited : Delimited rest) :
    next? ((decimal i).map .char ++ rest) = some (.number (.ofInt i), rest) := by
  unfold decimal
  split
  · next negative =>
      rw [List.map_cons, List.cons_append]
      exact (numberRest?_toDigits true _ delimited).trans (by simp [Numeral.ofInt, negative])
  · next positive =>
      have number := numberRest?_toDigits false i.natAbs delimited
      cases written : Nat.toDigits 10 i.natAbs with
      | nil => exact absurd written Nat.toDigits_ne_nil
      | cons d ds =>
          have digit : d.isDigit :=
            Nat.isDigit_of_mem_toDigits (by decide) (by decide) (written ▸ List.mem_cons_self)
          rw [written] at number
          rw [List.map_cons, List.cons_append, next?_digit digit]
          exact number.trans (by simp [Numeral.ofInt, positive, written])

/-! ### Scanning -/

theorem isBlank_of_isDigit {d : Char} (digit : d.isDigit) : isBlank d = false := by
  cases blank : isBlank d with
  | false => rfl
  | true =>
      simp only [isBlank, Bool.or_eq_true, decide_eq_true_eq] at blank
      rcases blank with ((rfl | rfl) | rfl) | rfl <;> exact absurd digit (by decide)

theorem decimal_eq_cons (i : Int) : ∃ c cs, decimal i = c :: cs ∧ isBlank c = false := by
  unfold decimal
  split
  · exact ⟨'-', _, rfl, rfl⟩
  · cases written : Nat.toDigits 10 i.natAbs with
    | nil => exact absurd written Nat.toDigits_ne_nil
    | cons d ds =>
        have digit : d.isDigit :=
          Nat.isDigit_of_mem_toDigits (by decide) (by decide) (written ▸ List.mem_cons_self)
        exact ⟨d, ds, rfl, isBlank_of_isDigit digit⟩

/-- A text begins with these tokens, and the rest comes behind them. -/
def Scans (text : Text) (front : List Token) (rest : Text) : Prop :=
  ∀ fuel, scan (front.length + fuel) text = front ++ scan fuel rest

namespace Scans

variable {text mid rest : Text} {front back : List Token} {c : Char} {token : Token}

theorem nil (text : Text) : Scans text [] text := by
  intro fuel
  rw [List.length_nil, Nat.zero_add, List.nil_append]

theorem cons (visible : isBlank c = false) (first : next? (.char c :: text) = some (token, mid))
    (others : Scans mid front rest) : Scans (.char c :: text) (token :: front) rest := by
  intro fuel
  rw [List.length_cons, Nat.add_right_comm, scan]
  simp only [visible, first]
  rw [others fuel]
  rfl

theorem append (first : Scans text front mid) (second : Scans mid back rest) :
    Scans text (front ++ back) rest := by
  intro fuel
  rw [List.length_append, Nat.add_assoc, first, second, List.append_assoc]

theorem quoted (s : String) (text : Text) (others : Scans text front rest) :
    Scans ((Json.quoted s).map .char ++ text) (stringToken s :: front) rest := by
  rw [Json.quoted, List.cons_append, List.map_cons, List.cons_append]
  refine cons (by decide) ?_ others
  simp only [next?, stringRest?_quoted, Option.map_some]
  rfl

theorem decimal (i : Int) (delimited : Delimited text) (others : Scans text front rest) :
    Scans ((Json.decimal i).map .char ++ text) (.number (.ofInt i) :: front) rest := by
  have number := next?_decimal i delimited
  obtain ⟨c, cs, written, visible⟩ := decimal_eq_cons i
  rw [written] at number ⊢
  exact cons visible number others

end Scans

theorem Delimited.itemChars (items : List Json) {rest : Text} (delimited : Delimited rest) :
    Delimited ((itemChars items).map .char ++ rest) := by
  cases items with
  | nil => exact delimited
  | cons => exact .inl rfl

theorem Delimited.memberChars (members : List (String × Json)) {rest : Text}
    (delimited : Delimited rest) : Delimited ((memberChars members).map .char ++ rest) := by
  cases members with
  | nil => exact delimited
  | cons => exact .inl rfl

mutual

/-- The tokens of the text of a value, whatever delimiter comes behind it. -/
theorem scans_chars (j : Json) {rest : Text} (delimited : Delimited rest) :
    Scans (j.chars.map .char ++ rest) j.tokens rest := by
  cases j with
  | null => exact .cons rfl rfl (.nil rest)
  | bool b => cases b <;> exact .cons rfl rfl (.nil rest)
  | int i => exact .decimal i delimited (.nil rest)
  | string s => exact .quoted s rest (.nil rest)
  | array items =>
      have close : Scans (.char ']' :: rest) [.closeArray] rest := .cons rfl rfl (.nil rest)
      cases items with
      | nil => exact .cons rfl rfl close
      | cons item items =>
          have behind : Delimited (.char ']' :: rest) := .inr (.inl rfl)
          have others := (scans_itemChars items behind).append close
          have all := (scans_chars item (.itemChars items behind)).append others
          refine .cons rfl rfl ?_
          simpa [List.append_assoc] using all
  | object members =>
      have close : Scans (.char '\x7d' :: rest) [.closeObject] rest := .cons rfl rfl (.nil rest)
      cases members with
      | nil => exact .cons rfl rfl close
      | cons m members =>
          have behind : Delimited (.char '\x7d' :: rest) := .inr (.inr rfl)
          have others := (scans_memberChars members behind).append close
          have all := (scans_chars m.2 (.memberChars members behind)).append others
          refine .cons rfl rfl ?_
          have colon := Scans.cons (c := ':') rfl rfl all
          simpa [List.append_assoc] using Scans.quoted m.1 _ colon

theorem scans_itemChars (items : List Json) {rest : Text} (delimited : Delimited rest) :
    Scans ((Json.itemChars items).map .char ++ rest) (itemTokens items) rest := by
  cases items with
  | nil => exact .nil rest
  | cons item items =>
      have all := (scans_chars item (.itemChars items delimited)).append
        (scans_itemChars items delimited)
      refine .cons rfl rfl ?_
      simpa [List.append_assoc] using all

theorem scans_memberChars (members : List (String × Json)) {rest : Text}
    (delimited : Delimited rest) :
    Scans ((Json.memberChars members).map .char ++ rest) (memberTokens members) rest := by
  cases members with
  | nil => exact .nil rest
  | cons m members =>
      have all := (scans_chars m.2 (.memberChars members delimited)).append
        (scans_memberChars members delimited)
      refine .cons rfl rfl ?_
      have colon := Scans.cons (c := ':') rfl rfl all
      simpa [List.append_assoc] using Scans.quoted m.1 _ colon

end

mutual

/-- Every token takes at least one character. -/
theorem length_tokens_le (j : Json) : j.tokens.length ≤ j.chars.length := by
  cases j with
  | null => decide
  | bool b => cases b <;> decide
  | int i =>
      obtain ⟨c, cs, written, -⟩ := decimal_eq_cons i
      simp [tokens, chars, written]
  | string s => simp [tokens, chars, Json.quoted]
  | array items =>
      cases items with
      | nil => decide
      | cons item items =>
          have first := length_tokens_le item
          have others := length_itemTokens_le items
          simp only [tokens, chars, List.length_cons, List.length_append, List.length_nil]
          omega
  | object members =>
      cases members with
      | nil => decide
      | cons m members =>
          have first := length_tokens_le m.2
          have others := length_memberTokens_le members
          simp only [tokens, chars, Json.quoted, List.length_cons, List.length_append,
            List.length_nil]
          omega

theorem length_itemTokens_le (items : List Json) :
    (itemTokens items).length ≤ (Json.itemChars items).length := by
  cases items with
  | nil => decide
  | cons item items =>
      have first := length_tokens_le item
      have others := length_itemTokens_le items
      simp only [itemTokens, Json.itemChars, List.length_cons, List.length_append]
      omega

theorem length_memberTokens_le (members : List (String × Json)) :
    (memberTokens members).length ≤ (Json.memberChars members).length := by
  cases members with
  | nil => decide
  | cons m members =>
      have first := length_tokens_le m.2
      have others := length_memberTokens_le members
      simp only [memberTokens, Json.memberChars, Json.quoted, List.length_cons,
        List.length_append]
      omega

end

theorem ofText_render (j : Json) : ofText (Text.ofString j.render) = j.tokens := by
  have atEnd : Delimited [] := trivial
  have scanned := scans_chars j atEnd (j.chars.length - j.tokens.length)
  rw [Nat.add_sub_cancel' (length_tokens_le j), List.append_nil] at scanned
  simpa [ofText, Text.ofString, render, scan] using scanned

end Token

/-! ### Reading tokens -/

namespace Source

variable {stack after : List Opened} {expecting expected : Expecting} {token : Token}
  {back : List Token}

/-- A token that fits is taken. -/
theorem read_cons (fits : step? stack expecting token = some (after, expected)) :
    read stack expecting (token :: back) = read after expected back := by
  conv =>
    lhs
    unfold read
  split
  · simp [step?] at fits
  · contradiction
  · next same =>
      rw [List.cons.injEq] at same
      obtain ⟨rfl, rfl⟩ := same
      rw [fits]

theorem read_start (starts : start? stack token = some (after, expected)) :
    read stack .value (token :: back) = read after expected back :=
  read_cons (by simpa [step?] using starts)

/-- The first item of an array is read like any value. -/
theorem read_firstItem (item : Json) (stack : List Opened) (back : List Token) :
    read (.array [] :: stack) .firstItem (item.tokens ++ back) =
      read (.array [] :: stack) .value (item.tokens ++ back) := by
  cases item with
  | array items => cases items <;> exact (read_cons rfl).trans (read_cons rfl).symm
  | object members => cases members <;> exact (read_cons rfl).trans (read_cons rfl).symm
  | _ => exact (read_cons rfl).trans (read_cons rfl).symm

mutual

/-- The tokens of a value are read as its tree. -/
theorem read_tokens (j : Json) (stack : List Opened) (back : List Token) :
    read stack .value (j.tokens ++ back) = read stack (.next (j.source Piece.written)) back := by
  cases j with
  | null => exact read_start rfl
  | bool b => exact read_start rfl
  | int i => exact read_start rfl
  | string s => exact read_start rfl
  | array items =>
      cases items with
      | nil => exact (read_start rfl).trans (read_cons rfl)
      | cons item items =>
          have first := read_tokens item (.array [] :: stack)
            (itemTokens items ++ .closeArray :: back)
          have others := read_itemTokens items [] (item.source Piece.written) stack back
          simp only [tokens, List.cons_append, List.append_assoc, List.nil_append]
          exact (read_start rfl).trans ((read_firstItem item _ _).trans (first.trans others))
  | object members =>
      cases members with
      | nil => exact (read_start rfl).trans (read_cons rfl)
      | cons m members =>
          have first := read_tokens m.2 (.member [] (m.1.toList.map Piece.written) :: stack)
            (memberTokens members ++ .closeObject :: back)
          have others := read_memberTokens members [] (m.1.toList.map Piece.written)
            (m.2.source Piece.written) stack back
          simp only [tokens, List.cons_append, List.append_assoc, List.nil_append]
          exact (read_start rfl).trans ((read_cons rfl).trans ((read_cons rfl).trans
            (first.trans others)))

theorem read_itemTokens (items : List Json) (before : List Source) (value : Source)
    (stack : List Opened) (back : List Token) :
    read (.array before :: stack) (.next value) (itemTokens items ++ .closeArray :: back) =
      read stack
        (.next (.array (before.reverse ++ value :: sources Piece.written items))) back := by
  cases items with
  | nil => exact (read_cons rfl).trans (by simp [sources])
  | cons item items =>
      have first := read_tokens item (.array (value :: before) :: stack)
        (itemTokens items ++ .closeArray :: back)
      have others := read_itemTokens items (value :: before) (item.source Piece.written) stack back
      simp only [itemTokens, List.cons_append, List.append_assoc]
      refine (read_cons rfl).trans (first.trans (others.trans ?_))
      simp [sources]

theorem read_memberTokens (members : List (String × Json)) (before : List Member)
    (key : List Piece) (value : Source) (stack : List Opened) (back : List Token) :
    read (.member before key :: stack) (.next value)
        (memberTokens members ++ .closeObject :: back) =
      read stack
        (.next (.object (before.reverse ++ (some key, value) ::
          memberSources Piece.written members))) back := by
  cases members with
  | nil => exact (read_cons rfl).trans (by simp [memberSources])
  | cons m members =>
      have first := read_tokens m.2
        (.member ((some key, value) :: before) (m.1.toList.map Piece.written) :: stack)
        (memberTokens members ++ .closeObject :: back)
      have others := read_memberTokens members ((some key, value) :: before)
        (m.1.toList.map Piece.written) (m.2.source Piece.written) stack back
      simp only [memberTokens, List.cons_append, List.append_assoc]
      refine (read_cons rfl).trans ((read_cons rfl).trans ((read_cons rfl).trans
        (first.trans (others.trans ?_))))
      simp [memberSources]

end

end Source

/-- What is rendered is read back whole, and nothing follows it. -/
theorem Document.ofText_render (j : Json) :
    Document.ofText (Text.ofString j.render) =
      { root := j.source Piece.written, trailing := false } := by
  have read := Source.read_tokens j [] []
  rw [List.append_nil] at read
  simp only [Document.ofText, Token.ofText_render, read]
  simp [Source.read]

end QuorumList.Json
