import QuorumList.Settings.Given

/-!
The tables of a settings file.

A file gives values under paths of names, and whatever has something under it is a table.  A table
comes about in one of three ways: by its own heading, by a key with points that leads through it, or
because a heading leads through it.  Each name is given once: a table has one heading at most, a key
with points adds only to tables that such keys have made, and nothing is added to a value.  Headings
in double brackets start another table of a list each time; what the earlier ones hold is closed.
-/
namespace QuorumList.Settings.File

/-- What stands under a path. -/
inductive Entry where
  | value (given : Given)
  /-- A table with a heading of its own. -/
  | headed
  /-- A table that keys with points lead through. -/
  | pointed
  /-- A table that headings lead through. -/
  | implied
  /-- A list of tables. -/
  | listed
deriving DecidableEq, Repr

namespace Entry

/-- A heading may lead through anything but a value. -/
def admitsHeading : Entry → Bool
  | .value _ => false
  | _ => true

/-- A key may lead through anything but a value and a table with a heading of its own. -/
def admitsKey : Entry → Bool
  | .value _ => false
  | .headed => false
  | _ => true

end Entry

/-- The entries of a file so far, each under its path. -/
structure Tables where
  entries : List (List String × Entry)
deriving DecidableEq, Repr

namespace Tables

/-- There is nothing yet. -/
def empty : Tables :=
  { entries := [] }

/-- The entry under a path. -/
def find? (tables : Tables) (path : List String) : Option Entry :=
  tables.entries.lookup path

/-- Put an entry under a path. -/
def put (tables : Tables) (path : List String) (entry : Entry) : Tables :=
  { entries := tables.entries.filter (fun e => e.1 ≠ path) ++ [(path, entry)] }

/-- A path leads further below another one. -/
def isBelow (path other : List String) : Bool :=
  path.isPrefixOf other && other ≠ path

/-- Drop what stands below a path. -/
def clear (tables : Tables) (path : List String) : Tables :=
  { entries := tables.entries.filter fun e => !isBelow path e.1 }

/-- Dropping entries by their paths leaves what is found under the other paths. -/
theorem lookup_filter (keeps : List String → Bool) (path : List String) :
    (entries : List (List String × Entry)) →
      (entries.filter fun e => keeps e.1).lookup path =
        if keeps path then entries.lookup path else none
  | [] => by rw [List.filter_nil, List.lookup_nil, ite_self]
  | (key, entry) :: rest => by
      have further := lookup_filter keeps path rest
      by_cases here : path = key
      · subst here
        cases kept : keeps path <;>
          simp only [List.filter_cons, List.lookup_cons_self, kept, further, if_true, if_false,
            Bool.false_eq_true]
      · have away : (path == key) = false := beq_eq_false_iff_ne.mpr here
        cases kept : keeps key <;>
          simp only [List.filter_cons, List.lookup_cons, kept, away, further, if_true, if_false,
            Bool.false_eq_true]

/-- What was put under a path is found there, and nothing else changes. -/
theorem find?_put (tables : Tables) (path : List String) (entry : Entry) (other : List String) :
    (tables.put path entry).find? other =
      if other = path then some entry else tables.find? other := by
  rw [find?, put, List.lookup_append, lookup_filter fun p => p ≠ path]
  by_cases here : other = path
  · subst here
    rw [if_pos rfl, if_neg (by simp only [ne_eq, not_true_eq_false, decide_false,
      Bool.false_eq_true, not_false_eq_true]), List.lookup_cons_self, Option.none_or]
  · have away : (other == path) = false := beq_eq_false_iff_ne.mpr here
    rw [if_neg here, if_pos (decide_eq_true here), List.lookup_cons, away, List.lookup_nil,
      Option.or_none, find?]

/-- Nothing is found below a path that was cleared, and nothing else changes. -/
theorem find?_clear (tables : Tables) (path other : List String) :
    (tables.clear path).find? other =
      if isBelow path other then none else tables.find? other := by
  rw [find?, clear, lookup_filter fun p => !isBelow path p]
  cases isBelow path other <;> rfl

/-- Go from a table through the tables of a row of names, making those that are missing as `made`;
`admits` says which of those that are there may be entered.  The path that is reached comes with the
tables. -/
def enter? (made : Entry) (admits : Entry → Bool) (tables : Tables) (start : List String)
    (names : List String) : Option (Tables × List String) :=
  names.foldlM
    (fun (tables, path) name =>
      let path := path ++ [name]
      match tables.find? path with
      | none => some (tables.put path made, path)
      | some entry => if admits entry then some (tables, path) else none)
    (tables, start)

/-- Give a value under a key of the table at a path. -/
def assign? (tables : Tables) (table key : List String) (given : Given) : Option Tables := do
  let (tables, path) ← tables.enter? .pointed Entry.admitsKey table key.dropLast
  if key.length ≠ 1 ∧ tables.find? path ≠ some .pointed then none
  let path := table ++ key
  if (tables.find? path).isSome then none else pure (tables.put path (.value given))

/-- Start the table with a heading. -/
def head? (tables : Tables) (heading : List String) : Option Tables := do
  let (tables, _) ← tables.enter? .implied Entry.admitsHeading [] heading.dropLast
  match tables.find? heading with
  | none => pure (tables.put heading .headed)
  | some .implied => pure (tables.put heading .headed)
  | some _ => none

/-- Start another table of the list with a heading. -/
def append? (tables : Tables) (heading : List String) : Option Tables := do
  let (tables, _) ← tables.enter? .implied Entry.admitsHeading [] heading.dropLast
  match tables.find? heading with
  | none => pure (tables.put heading .listed)
  | some .listed => pure (tables.clear heading)
  | some _ => none

/-- The names that stand directly below a path. -/
def namesBelow (tables : Tables) (path : List String) : List String :=
  tables.entries.filterMap fun e => if e.1.dropLast = path then e.1.getLast? else none

/-- What a file gives under its names. -/
def given (tables : Tables) : List (String × Given) :=
  tables.entries.filterMap fun e =>
    match e with
    | ([name], .value given) => some (name, given)
    | ([name], .listed) => some (name, .list)
    | ([name], _) => some (name, .table (tables.namesBelow [name]))
    | _ => none

end Tables

end QuorumList.Settings.File
