import Mathlib.Data.List.Forall2
import QuorumList.Json.Tagged
import QuorumList.Proofs.ReadBack

/-!
Decoders on written values.

A decoder reads a written value as `a` if it makes `a` of the tree of the value, whichever way its
strings are spelled, and if the tree also passes a generic reading, with its containers nested no
deeper than there is room.  Each decoder has a law for the values it reads in this sense, and a law
for what can be said of all values it yields.
-/
namespace QuorumList.Json

/-! ### Strings -/

/-- Pieces spell the characters they are made from. -/
def Piece.Spells (spell : Char → Piece) : Prop :=
  ∀ cs, Source.spell? (cs.map spell) = some cs

namespace Source

theorem spell?_unit {code : Nat} (basic : code < 0xD800) (pieces : List Piece) :
    spell? (.unit code :: pieces) = (spell? pieces).map (Char.ofNat code :: ·) := by
  have notHigh : ¬ (0xD800 ≤ code ∧ code ≤ 0xDBFF) := by omega
  have notLow : ¬ (0xDC00 ≤ code ∧ code ≤ 0xDFFF) := by omega
  have notHalf : ¬ (0xD800 ≤ code ∧ code ≤ 0xDFFF) := by omega
  match pieces with
  | [] => simp [spell?, notHalf]
  | .char _ :: _ => simp [spell?, notHalf]
  | .stray _ :: _ => simp [spell?, notHalf]
  | .unit _ :: _ => rw [spell?, if_neg notHigh, if_neg notLow]

end Source

theorem Piece.spells_char : Piece.Spells .char := by
  intro cs
  induction cs with
  | nil => rfl
  | cons c cs ih => simp [Source.spell?, ih]

theorem Piece.spells_written : Piece.Spells written := by
  intro cs
  induction cs with
  | nil => rfl
  | cons c cs ih =>
      rw [List.map_cons]
      by_cases control : c < ' ' ∧ c ∉ ['\x08', '\x0c', '\n', '\r', '\t']
      · have low : c.toNat < 32 := control.1
        rw [written, if_pos control, Source.spell?_unit (by omega), ih, Char.ofNat_toNat,
          Option.map_some]
      · rw [written, if_neg control, Source.spell?, ih, Option.map_some]

/-! ### Numbers -/

namespace Numeral

theorem le_accumulate (ds : List Char) (n : Nat) : n ≤ accumulate n ds := by
  induction ds generalizing n with
  | nil => simp [accumulate]
  | cons d ds ih =>
      have further := ih (10 * n + digit d)
      simp only [accumulate, Nat.ofDigitChars_cons, digit] at further ⊢
      omega

/-- As long as the number fits into 64 bits, all its digits are kept. -/
theorem scaleWhole_of_le (ds : List Char) {n : Nat} (fits : accumulate n ds ≤ maxUnsigned) :
    scaleWhole ds n = ⟨accumulate n ds, 0⟩ := by
  induction ds generalizing n with
  | nil => simp [scaleWhole, accumulate]
  | cons d ds ih =>
      have step : accumulate n (d :: ds) = accumulate (n * 10 + digit d) ds := by
        simp [accumulate, Nat.ofDigitChars_cons, digit, Nat.mul_comm]
      rw [step] at fits ⊢
      rw [scaleWhole, if_pos (Nat.le_trans (le_accumulate ds _) fits), ih fits]

theorem nearest_le (n : Nat) : Double.nearest n ≤ 2 * n + 1 := by
  simp only [Double.nearest, Double.nearestOn, Nat.div_one, Nat.one_mul]
  generalize spacing : Nat.pow 2 (n.log2 + 1 - 53) = unit
  have unit_le : unit ≤ n + 1 := by
    rw [← spacing]
    by_cases none : n = 0
    · subst none
      decide
    · calc 2 ^ (n.log2 + 1 - 53) ≤ 2 ^ n.log2 := Nat.pow_le_pow_right (by decide) (by omega)
        _ ≤ n := Nat.log2_self_le none
        _ ≤ n + 1 := Nat.le_succ n
  have whole : n / unit * unit ≤ n := Nat.div_mul_le_self n unit
  split
  · rw [Nat.add_mul]
    omega
  · omega

/-- Integers of 64 bits are far from the bound of the doubles. -/
theorem inRange_ofInt {i : Int} (fits : i.natAbs ≤ maxUnsigned) : (ofInt i).inRange = true := by
  have scale : (ofInt i).scaled = ⟨i.natAbs, 0⟩ := by
    have whole := scaleWhole_of_le (Nat.toDigits 10 i.natAbs) (n := 0)
      (by rwa [accumulate_toDigits])
    rw [accumulate_toDigits] at whole
    simp [scaled, ofInt, whole, scaleFraction]
  have one : Double.nearest (Nat.pow 10 (0 : Int).toNat) = 1 := by decide
  have below : Double.nearest (Double.nearest i.natAbs * 1) < Double.limit := by
    have outer := nearest_le (Double.nearest i.natAbs * 1)
    have inner := nearest_le i.natAbs
    have power : ∀ k, 67 ≤ k → 4 * maxUnsigned + 3 < Nat.pow 2 k := fun _ more =>
      Nat.lt_of_lt_of_le (show _ < 2 ^ 67 by decide) (Nat.pow_le_pow_right (by decide) more)
    unfold Double.limit
    exact Nat.lt_of_le_of_lt (by omega) (power 1024 (by decide))
  simp only [inRange, scale, overflows, one, decide_eq_false (Nat.not_le.mpr below)]
  simp

end Numeral

/-! ### Generic readings -/

theorem memberSources_append (spell : Char → Piece) (front back : List (String × Json)) :
    memberSources spell (front ++ back) =
      memberSources spell front ++ memberSources spell back := by
  induction front with
  | nil => rfl
  | cons m rest ih => simp [memberSources, ih]

theorem text_map {spell : Char → Piece} (spells : Piece.Spells spell) (s : String) :
    Source.text (s.toList.map spell) = .ok s := by
  simp [Source.text, spells s.toList]

mutual

/-- Nothing is wrong with a written value that nobody wants. -/
theorem skim_source (spell : Char → Piece) (j : Json) : Source.skim (j.source spell) = .ok () := by
  cases j with
  | array items => exact skimItems_sources spell items
  | object members => exact skimMembers_memberSources spell members
  | _ => rfl

theorem skimItems_sources (spell : Char → Piece) (items : List Json) :
    Source.skimItems (sources spell items) = .ok () := by
  cases items with
  | nil => rfl
  | cons item rest =>
      rw [sources, Source.skimItems, skim_source spell item]
      exact skimItems_sources spell rest

theorem skimMembers_memberSources (spell : Char → Piece) (members : List (String × Json)) :
    Source.skimMembers (memberSources spell members) = .ok () := by
  cases members with
  | nil => rfl
  | cons m rest =>
      rw [memberSources, Source.skimMembers, skim_source spell m.2]
      exact skimMembers_memberSources spell rest

end

/-- A written value passes a generic reading, which spells its strings plainly. -/
def Settles (room : Nat) (j : Json) : Prop :=
  ∀ spell, Piece.Spells spell → Source.settle room (j.source spell) = .ok (j.source .char)

namespace Settles

variable {room : Nat}

theorem null : Settles room .null :=
  fun _ _ => rfl

theorem bool (b : Bool) : Settles room (.bool b) :=
  fun _ _ => rfl

theorem int {i : Int} (fits : i.natAbs ≤ maxUnsigned) : Settles room (.int i) := by
  intro spell _
  simp only [source, Source.settle, Source.checkNumeral, Numeral.inRange_ofInt fits]
  rfl

theorem string (s : String) : Settles room (.string s) := by
  intro spell spells
  simp only [source, Source.settle, text_map spells]
  rfl

theorem array {items : List Json} (settles : ∀ item ∈ items, Settles room item) :
    Settles (room + 1) (.array items) := by
  intro spell spells
  have inside : Source.settleItems room (sources spell items) = .ok (sources .char items) := by
    induction items with
    | nil => rfl
    | cons item rest ih =>
        rw [List.forall_mem_cons] at settles
        simp only [sources, Source.settleItems, settles.1 spell spells, ih settles.2]
        rfl
  simp only [source, Source.settle, Nat.add_one_ne_zero, if_false, Nat.add_sub_cancel, inside]
  rfl

/-- A member with a new key is put behind all others. -/
theorem putMember_new {done : List (String × Json)} {key : String} (new : key ∉ done.map Prod.fst)
    (value : Json) :
    Source.putMember (memberSources .char done) key (value.source .char) =
      memberSources .char (done ++ [(key, value)]) := by
  rw [Source.putMember, memberSources_append]
  congr 1
  rw [List.filter_eq_self]
  induction done with
  | nil => exact fun _ member => absurd member List.not_mem_nil
  | cons m rest ih =>
      simp only [List.map_cons, List.mem_cons, not_or] at new
      rw [memberSources, List.forall_mem_cons]
      refine ⟨?_, ih new.2⟩
      simp only [ne_eq, Option.some.injEq, decide_eq_true_eq]
      intro same
      have chars := (List.map_inj_right fun _ _ => Piece.char.inj).mp same
      exact new.1 (String.toList_inj.mp chars).symm

theorem members {spell : Char → Piece} (spells : Piece.Spells spell)
    (done members : List (String × Json)) (distinct : ((done ++ members).map Prod.fst).Nodup)
    (settles : ∀ m ∈ members, Settles room m.2) :
    Source.settleMembers room (memberSources spell members) (memberSources .char done) =
      .ok (memberSources .char (done ++ members)) := by
  induction members generalizing done with
  | nil => simp [memberSources, Source.settleMembers]
  | cons m rest ih =>
      obtain ⟨key, value⟩ := m
      rw [List.forall_mem_cons] at settles
      have new : key ∉ done.map Prod.fst := by
        intro known
        rw [List.map_append, List.nodup_append] at distinct
        exact distinct.2.2 key known key (by simp) rfl
      have together : done ++ (key, value) :: rest = (done ++ [(key, value)]) ++ rest := by simp
      rw [together] at distinct ⊢
      rw [← ih _ distinct settles.2, ← putMember_new new]
      simp only [memberSources, Source.settleMembers, Source.keyText, text_map spells,
        settles.1 spell spells]
      rfl

/-- With distinct keys, no member of an object takes the place of another one. -/
theorem object {members : List (String × Json)} (distinct : (members.map Prod.fst).Nodup)
    (settles : ∀ m ∈ members, Settles room m.2) : Settles (room + 1) (.object members) := by
  intro spell spells
  have whole := Settles.members spells [] members distinct settles
  rw [memberSources, List.nil_append] at whole
  simp only [source, Source.settle, Nat.add_one_ne_zero, if_false, Nat.add_sub_cancel, whole]
  rfl

end Settles

/-! ### Decoders of single values -/

variable {α β σ τ : Type} {room : Nat} {j : Json} {a : α} {b : β}

theorem bind_eq_ok {x : Except Fault α} {f : α → Except Fault β} :
    x >>= f = .ok b ↔ ∃ a, x = .ok a ∧ f a = .ok b := by
  cases x with
  | error e => exact ⟨(nomatch ·), fun ⟨_, read, _⟩ => nomatch read⟩
  | ok a => exact ⟨fun read => ⟨a, rfl, read⟩, fun ⟨_, same, read⟩ => by cases same; exact read⟩

theorem map_eq_ok {x : Except Fault α} {f : α → β} :
    f <$> x = .ok b ↔ ∃ a, x = .ok a ∧ f a = b := by
  cases x with
  | error e => exact ⟨(nomatch ·), fun ⟨_, read, _⟩ => nomatch read⟩
  | ok a =>
      exact ⟨fun read => ⟨a, rfl, Except.ok.inj read⟩,
        fun ⟨_, same, read⟩ => by cases same; exact congrArg _ read⟩

namespace Decoder

/-- The decoder makes `a` of a written value, which may stand where there is room. -/
structure Reads (room : Nat) (d : Decoder α) (j : Json) (a : α) : Prop where
  settles : Settles room j
  reads : ∀ spell, Piece.Spells spell → d (j.source spell) = .ok a

/-- All values that the decoder yields have a property. -/
def Yields (d : Decoder α) (P : α → Prop) : Prop :=
  ∀ source a, d source = .ok a → P a

variable {d : Decoder α} {P : α → Prop} {Q : β → Prop}

theorem reads_bool (b : Bool) : bool.Reads room (.bool b) b :=
  ⟨.bool b, fun _ _ => rfl⟩

theorem reads_string (s : String) : string.Reads room (.string s) s :=
  ⟨.string s, fun _ spells => text_map spells s⟩

theorem reads_integer {low high i : Int} (above : low ≤ i) (below : i ≤ high)
    (fits : i.natAbs ≤ maxUnsigned) : (integer low high).Reads room (.int i) i := by
  refine ⟨.int fits, fun spell _ => ?_⟩
  simp [source, integer, Numeral.inRange_ofInt fits, Numeral.toInt?_ofInt, above, below]

theorem yields_integer (low high : Int) :
    (integer low high).Yields fun i => low ≤ i ∧ i ≤ high := by
  intro source i read
  unfold integer at read
  split at read
  · split at read
    · contradiction
    · split at read
      · split at read
        · next within =>
            cases read
            exact within
        · contradiction
      · contradiction
  · contradiction

theorem reads_naturalTo {high n : Nat} (below : n ≤ high) (bound : high ≤ maxUnsigned) :
    (naturalTo high).Reads room (.nat n) n := by
  have integer : (integer 0 high).Reads room (.int n) n :=
    reads_integer (by omega) (by omega) (by omega)
  exact ⟨integer.settles,
    fun spell spells => bind_eq_ok.mpr ⟨n, integer.reads spell spells, rfl⟩⟩

theorem yields_naturalTo (high : Nat) : (naturalTo high).Yields (· ≤ high) := by
  intro source n read
  obtain ⟨i, inner, converted⟩ := bind_eq_ok.mp read
  cases converted
  have within := yields_integer 0 high source i inner
  omega

theorem reads_unsigned {n : Nat} (fits : n ≤ maxUnsigned) : unsigned.Reads room (.nat n) n :=
  reads_naturalTo fits (Nat.le_refl _)

theorem yields_unsigned : unsigned.Yields (· ≤ maxUnsigned) :=
  yields_naturalTo maxUnsigned

theorem reads_map (f : α → β) (inner : d.Reads room j a) :
    Reads room (fun source => f <$> d source) j (f a) :=
  ⟨inner.settles, fun spell spells => map_eq_ok.mpr ⟨a, inner.reads spell spells, rfl⟩⟩

theorem yields_map (f : α → β) (inner : d.Yields P) (mapped : ∀ a, P a → Q (f a)) :
    Yields (fun source => f <$> d source) Q := by
  intro source b read
  obtain ⟨a, first, rfl⟩ := map_eq_ok.mp read
  exact mapped a (inner source a first)

theorem reads_refine {f : α → Option β} (inner : d.Reads room j a) (refined : f a = some b) :
    (d.refine f).Reads room j b :=
  ⟨inner.settles, fun spell spells =>
    bind_eq_ok.mpr ⟨a, inner.reads spell spells, by rw [refined]; rfl⟩⟩

theorem yields_refine {f : α → Option β} (inner : d.Yields P)
    (refined : ∀ a b, P a → f a = some b → Q b) : (d.refine f).Yields Q := by
  intro source b read
  obtain ⟨a, first, second⟩ := bind_eq_ok.mp read
  split at second
  · next c picked =>
      cases second
      exact refined a b (inner source a first) picked
  · contradiction

theorem reads_named {names : List (String × α)} {s : String} (known : names.lookup s = some a) :
    (named names).Reads room (.string s) a :=
  ⟨.string s, fun _ spells =>
    bind_eq_ok.mpr ⟨s, text_map spells s, by rw [named.pick, known]⟩⟩

theorem reads_generic (settles : Settles (maxNesting - 1) j) :
    generic.Reads (maxNesting - 1) j (j.source .char) :=
  ⟨settles, settles⟩

/-! ### Lists and optional values -/

theorem reads_list {f : α → Json} {items : List α} (inner : ∀ a ∈ items, d.Reads room (f a) a) :
    (list d).Reads (room + 1) (.list f items) items := by
  refine ⟨.array fun j member => ?_, fun spell spells => ?_⟩
  · obtain ⟨a, listed, rfl⟩ := List.mem_map.mp member
    exact (inner a listed).settles
  · simp only [Json.list, source, list]
    induction items with
    | nil => rfl
    | cons a rest ih =>
        rw [List.forall_mem_cons] at inner
        simp only [List.map_cons, sources, List.mapM_cons, inner.1.reads spell spells,
          ih inner.2]
        rfl

theorem yields_list (inner : d.Yields P) : (list d).Yields fun items => ∀ a ∈ items, P a := by
  intro source items read
  unfold list at read
  split at read
  · next sources =>
      induction sources generalizing items with
      | nil =>
          cases read
          exact fun _ member => absurd member List.not_mem_nil
      | cons source rest ih =>
          rw [List.mapM_cons] at read
          obtain ⟨a, first, others⟩ := bind_eq_ok.mp read
          obtain ⟨more, further, whole⟩ := bind_eq_ok.mp others
          cases whole
          exact List.forall_mem_cons.mpr ⟨inner source a first, ih more further⟩
  · contradiction

theorem reads_some (defined : j ≠ .null) (inner : d.Reads room j a) :
    (optional d).Reads room j (some a) := by
  refine ⟨inner.settles, fun spell spells => ?_⟩
  have read := inner.reads spell spells
  cases shown : j with
  | null => exact absurd shown defined
  | _ =>
      rw [shown] at read
      exact map_eq_ok.mpr ⟨a, read, rfl⟩

theorem reads_optional {f : α → Json} {o : Option α}
    (inner : ∀ a ∈ o, f a ≠ .null ∧ d.Reads room (f a) a) :
    (optional d).Reads room (.optional f o) o := by
  cases o with
  | none => exact ⟨.null, fun _ _ => rfl⟩
  | some a =>
      obtain ⟨defined, reads⟩ := inner a rfl
      exact reads_some defined reads

theorem yields_optional (inner : d.Yields P) : (optional d).Yields fun o => ∀ a ∈ o, P a := by
  intro source o read
  unfold optional at read
  split at read
  · cases read
    exact fun _ member => nomatch member
  · obtain ⟨a, some, rfl⟩ := map_eq_ok.mp read
    rintro _ ⟨⟩
    exact inner source a some

end Decoder

/-! ### Records -/

namespace Field

variable {fields : List (Field σ)} {P : σ → Prop} {d : Decoder α}

/-- A written member whose key is that of a field has its value put into a draft.  A member that no
field asks for is passed over. -/
structure Reads (room : Nat) (fields : List (Field σ)) (m : String × Json) (put : σ → σ) :
    Prop where
  settles : Settles room m.2
  reads : (∃ f, fields.find? (fun f => f.key = m.1) = some f ∧
      ∀ spell, Piece.Spells spell → f.read (m.2.source spell) = .ok put) ∨
    fields.find? (fun f => f.key = m.1) = none ∧ put = id

theorem reads_make {key : String} {presence : Presence} {put : α → σ → σ}
    (inner : d.Reads room j a)
    (listed : fields.find? (fun f => f.key = key) = some (.make key presence d put)) :
    Field.Reads room fields (key, j) (put a) :=
  ⟨inner.settles, .inl ⟨_, listed, fun spell spells =>
    bind_eq_ok.mpr ⟨a, inner.reads spell spells, rfl⟩⟩⟩

theorem reads_unknown {key : String} (settles : Settles room j)
    (unknown : fields.find? (fun f => f.key = key) = none) :
    Field.Reads room fields (key, j) id :=
  ⟨settles, .inr ⟨unknown, rfl⟩⟩

/-- All members are read one after the other, and the keys of the fields among them are noted. -/
theorem readMembers_memberSources {members : List (String × Json)} {puts : List (σ → σ)}
    {spell : Char → Piece} (spells : Piece.Spells spell)
    (known : List.Forall₂ (Field.Reads room fields) members puts) (seen : List String) (draft : σ)
    (distinct : (members.map Prod.fst).Nodup) (unseen : ∀ m ∈ members, m.1 ∉ seen) :
    ∃ noted, readMembers fields (memberSources spell members) seen draft =
        .ok (noted, puts.foldl (fun draft put => put draft) draft) ∧
      (∀ key ∈ seen, key ∈ noted) ∧
      ∀ f ∈ fields, f.key ∈ members.map Prod.fst → f.key ∈ noted := by
  induction known generalizing seen draft with
  | nil => exact ⟨seen, rfl, fun _ => id, fun _ _ member => absurd member List.not_mem_nil⟩
  | @cons m put rest puts first others ih =>
      obtain ⟨key, value⟩ := m
      rw [List.map_cons, List.nodup_cons] at distinct
      rw [List.forall_mem_cons] at unseen
      simp only [memberSources, readMembers, Source.keyText, text_map spells, bind, Except.bind]
      rcases first.reads with ⟨f, listed, reads⟩ | ⟨unknown, rfl⟩
      · have unseenRest : ∀ m ∈ rest, m.1 ∉ key :: seen := by
          intro m member noted
          rcases List.mem_cons.mp noted with same | earlier
          · exact distinct.1 (List.mem_map.mpr ⟨m, member, same⟩)
          · exact unseen.2 m member earlier
        obtain ⟨noted, read, keeps, notes⟩ := ih (key :: seen) (put draft) distinct.2 unseenRest
        rw [List.forall_mem_cons] at keeps
        refine ⟨noted, ?_, keeps.2, fun g isField member => ?_⟩
        · simp only [listed, if_neg unseen.1, reads spell spells]
          exact read
        · rcases List.mem_cons.mp member with same | later
          · exact same ▸ keeps.1
          · exact notes g isField later
      · obtain ⟨noted, read, keeps, notes⟩ := ih seen draft distinct.2 unseen.2
        refine ⟨noted, ?_, keeps, fun g isField member => ?_⟩
        · simp only [unknown, skim_source]
          exact read
        · rcases List.mem_cons.mp member with same | later
          · exact absurd (decide_eq_true same) (List.find?_eq_none.mp unknown g isField)
          · exact notes g isField later

/-- Whatever a field puts into a draft, the draft keeps a property. -/
def Keeps (P : σ → Prop) (f : Field σ) : Prop :=
  ∀ source put, f.read source = .ok put → ∀ draft, P draft → P (put draft)

theorem keeps_make {key : String} {presence : Presence} {put : α → σ → σ} {Q : α → Prop}
    (inner : d.Yields Q) (keeps : ∀ a, Q a → ∀ draft, P draft → P (put a draft)) :
    (Field.make key presence d put).Keeps P := by
  intro source put read
  obtain ⟨a, first, second⟩ := bind_eq_ok.mp read
  cases second
  exact keeps a (inner source a first)

/-- A field whose values do not matter for the property. -/
theorem keeps_any {key : String} {presence : Presence} {put : α → σ → σ}
    (keeps : ∀ a draft, P draft → P (put a draft)) :
    (Field.make key presence d put).Keeps P :=
  keeps_make (Q := fun _ => True) (fun _ _ _ => trivial) fun a _ => keeps a

theorem keeps_readMembers (keeps : ∀ f ∈ fields, f.Keeps P) {members : List Member}
    {seen seen' : List String} {draft draft' : σ}
    (read : readMembers fields members seen draft = .ok (seen', draft')) (holds : P draft) :
    P draft' := by
  induction members generalizing seen draft with
  | nil =>
      cases read
      exact holds
  | cons m rest ih =>
      obtain ⟨key, value⟩ := m
      obtain ⟨name, -, others⟩ := bind_eq_ok.mp read
      split at others
      · obtain ⟨-, -, further⟩ := bind_eq_ok.mp others
        exact ih further holds
      · next f found =>
          split at others
          · contradiction
          · obtain ⟨put, reads, further⟩ := bind_eq_ok.mp others
            have listed := List.mem_of_find?_eq_some found
            exact ih further (keeps f listed value put reads draft holds)

theorem keeps_readItems (keeps : ∀ f ∈ fields, f.Keeps P) {items : List Source} {draft draft' : σ}
    (read : readItems fields items draft = .ok draft') (holds : P draft) : P draft' := by
  induction fields generalizing items draft with
  | nil =>
      cases items with
      | nil =>
          cases read
          exact holds
      | cons => contradiction
  | cons f fields ih =>
      rw [List.forall_mem_cons] at keeps
      cases items with
      | nil =>
          unfold readItems at read
          split at read
          · exact ih keeps.2 read holds
          · contradiction
      | cons item items =>
          obtain ⟨put, reads, further⟩ := bind_eq_ok.mp read
          exact ih keeps.2 further (keeps.1 item put reads draft holds)

end Field

namespace Decoder

variable {d : Decoder α} {P : α → Prop} {fields : List (Field σ)} {blank draft : σ}

/-- A record reads an object in which no key is repeated and no field is left out that has to be
there. -/
theorem reads_record {members : List (String × Json)} {puts : List (σ → σ)}
    (known : List.Forall₂ (Field.Reads room fields) members puts)
    (distinct : (members.map Prod.fst).Nodup)
    (complete :
      fields.all (fun f => f.presence.inObjects || f.key ∈ members.map Prod.fst) = true)
    (result : puts.foldl (fun draft put => put draft) blank = draft) :
    (record fields blank).Reads (room + 1) (.object members) draft := by
  have settles : ∀ m ∈ members, Settles room m.2 := by
    clear distinct complete result
    induction known with
    | nil => exact fun _ member => absurd member List.not_mem_nil
    | cons first _ ih => exact List.forall_mem_cons.mpr ⟨first.settles, ih⟩
  refine ⟨.object distinct settles, fun spell spells => ?_⟩
  obtain ⟨noted, read, -, notes⟩ := Field.readMembers_memberSources spells known [] blank distinct
    fun _ _ => List.not_mem_nil
  refine bind_eq_ok.mpr ⟨_, read, ?_⟩
  have all : fields.all (fun f => f.presence.inObjects || f.key ∈ noted) = true := by
    simp only [List.all_eq_true, Bool.or_eq_true, decide_eq_true_eq] at complete ⊢
    exact fun f isField => (complete f isField).imp_right (notes f isField)
  dsimp only
  rw [if_pos all, result]
  rfl

theorem yields_record {P : σ → Prop} (keeps : ∀ f ∈ fields, f.Keeps P) (holds : P blank) :
    (record fields blank).Yields P := by
  intro source a read
  unfold record at read
  split at read
  · obtain ⟨⟨seen, draft⟩, members, others⟩ := bind_eq_ok.mp read
    dsimp only at others
    split at others
    · cases others
      exact Field.keeps_readMembers keeps members holds
    · contradiction
  · exact Field.keeps_readItems keeps read holds
  · contradiction

/-! ### Values that carry a tag -/

theorem reads_paired {tagKey contentKey name : String} {tags : List (String × τ)} {t : τ}
    {content : τ → Decoder α} (different : tagKey ≠ contentKey)
    (known : tags.lookup name = some t) (inner : (content t).Reads room j a) :
    (paired tagKey contentKey tags content).Reads (room + 1)
      (.object [(tagKey, .string name), (contentKey, j)]) a := by
  refine ⟨.object (by simp [different]) ?_, fun spell spells => ?_⟩
  · rw [List.forall_mem_cons, List.forall_mem_singleton]
    exact ⟨.string name, inner.settles⟩
  · have named : (named tags).Reads room (.string name) t := reads_named known
    have tag := named.reads spell spells
    rw [source] at tag
    simp only [source, memberSources, paired, pairedMembers, Source.keyText, text_map spells, bind,
      Except.bind, if_true, tag, Ne.symm different, if_false, inner.reads spell spells]

theorem yields_pairedMembers {tagKey contentKey : String} {tag : Decoder τ}
    {content : τ → Decoder α} (inner : ∀ t, (content t).Yields P) {members : List Member}
    {state : Paired τ α} (holds : ∀ a, state = .both a → P a)
    (read : pairedMembers tagKey contentKey tag content members state = .ok a) : P a := by
  induction members generalizing state with
  | nil =>
      cases state with
      | both held =>
          cases read
          exact holds a rfl
      | _ => contradiction
  | cons m rest ih =>
      obtain ⟨key, value⟩ := m
      obtain ⟨name, -, others⟩ := bind_eq_ok.mp read
      split at others
      · split at others
        · obtain ⟨t, -, further⟩ := bind_eq_ok.mp others
          exact ih (by simp) further
        · obtain ⟨t, -, more⟩ := bind_eq_ok.mp others
          obtain ⟨a, reads, further⟩ := bind_eq_ok.mp more
          exact ih (by rintro _ ⟨⟩; exact inner t _ a reads) further
        · contradiction
      · split at others
        · split at others
          · obtain ⟨held, -, further⟩ := bind_eq_ok.mp others
            exact ih (by simp) further
          · next t =>
              obtain ⟨a, reads, further⟩ := bind_eq_ok.mp others
              exact ih (by rintro _ ⟨⟩; exact inner t value a reads) further
          · contradiction
        · obtain ⟨_, -, further⟩ := bind_eq_ok.mp others
          exact ih holds further

theorem yields_paired {tagKey contentKey : String} {tags : List (String × τ)}
    {content : τ → Decoder α} (inner : ∀ t, (content t).Yields P) :
    (paired tagKey contentKey tags content).Yields P := by
  intro source a read
  unfold paired at read
  split at read
  · exact yields_pairedMembers inner (by simp) read
  · contradiction
  · obtain ⟨t, -, others⟩ := bind_eq_ok.mp read
    split at others
    · contradiction
    · exact inner t _ a others
    · obtain ⟨_, -, refused⟩ := bind_eq_ok.mp others
      contradiction
  · contradiction

theorem mixedMembers_memberSources {tagKey : String} {tag : Decoder τ} {t : τ}
    {members : List (String × Json)} {spell : Char → Piece} (spells : Piece.Spells spell)
    (other : tagKey ∉ members.map Prod.fst)
    (settles : ∀ m ∈ members, Settles (maxNesting - 1) m.2) (held : List Member) :
    mixedMembers tagKey tag (memberSources spell members) (some t) held =
      .ok (t, held.reverse ++ memberSources .char members) := by
  induction members generalizing held with
  | nil => simp [memberSources, mixedMembers]
  | cons m rest ih =>
      obtain ⟨key, value⟩ := m
      simp only [List.map_cons, List.mem_cons, not_or] at other
      rw [List.forall_mem_cons] at settles
      simp only [memberSources, mixedMembers, Source.keyText, text_map spells, bind, Except.bind,
        if_neg (Ne.symm other.1), settles.1 spell spells]
      rw [ih other.2 settles.2]
      simp

/-- A mixed value whose tag is written first. -/
theorem reads_mixed {tagKey : String} {tag : Decoder τ} {fields : τ → Decoder α}
    {value : Json} {t : τ} {members : List (String × Json)}
    (tagged : tag.Reads (maxNesting - 1) value t) (other : tagKey ∉ members.map Prod.fst)
    (inner : (fields t).Reads maxNesting (.object members) a)
    (distinct : (members.map Prod.fst).Nodup)
    (settles : ∀ m ∈ members, Settles (maxNesting - 1) m.2) :
    (mixed tagKey tag fields).Reads maxNesting (.object ((tagKey, value) :: members)) a := by
  refine ⟨?_, fun spell spells => ?_⟩
  · refine .object ?_ (List.forall_mem_cons.mpr ⟨tagged.settles, settles⟩)
    exact List.nodup_cons.mpr ⟨other, distinct⟩
  · simp only [source, memberSources, mixed, mixedMembers, Source.keyText, text_map spells, bind,
      Except.bind, if_true, tagged.reads spell spells,
      mixedMembers_memberSources spells other settles, List.reverse_nil, List.nil_append]
    exact inner.reads _ Piece.spells_char

/-- A decoder that reads a written value decodes its text. -/
theorem Reads.decode (reads : d.Reads room j a) :
    (Document.ofText (.ofString j.render)).decode d = .ok a := by
  rw [Document.ofText_render, Document.decode]
  exact bind_eq_ok.mpr ⟨a, reads.reads _ Piece.spells_written, rfl⟩

theorem Yields.decode (yields : d.Yields P) {document : Document}
    (read : document.decode d = .ok a) : P a := by
  obtain ⟨value, root, others⟩ := bind_eq_ok.mp read
  split at others
  · contradiction
  · cases others
    exact yields document.root a root

end Decoder

end QuorumList.Json
