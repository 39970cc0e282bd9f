import QuorumList.StartState
import QuorumList.Proofs.RoundTrip
import QuorumList.Proofs.Stances

/-!
Snapshots there and back.

A process shows the state of each of its components, and what it shows may be given to a fresh
process as its start state.  Two things come back differently.  Failure detection neither shows
which primary the suspicion of another process is about, nor takes over which processes are
responsive; so all given suspicions count as being about the primary that it tracks itself, and
everybody is responsive until the next token.  And agreement cuts given records to the bounds of the
cluster.
-/
namespace QuorumList

open Json Json.Decoder

variable {room : Nat} {site : Site}

/-! ### Tables -/

theorem SizeMismatch.check_of_eq {table : String} {found expected : Nat}
    (same : found = expected) : check table found expected = .ok () :=
  if_pos (.inr same)

section Tables

variable {α : Type} {held given : List α} (length : given.length = site.cluster.size)
  (member : site.me < site.cluster.size)
include length member

theorem isEmpty_of_length : given.isEmpty = false := by
  rw [List.isEmpty_eq_false_iff]
  intro empty
  rw [empty, List.length_nil] at length
  exact Nat.not_lt_zero _ (length ▸ member)

/-- A table with a place for each process takes the place of the one that is held. -/
theorem replaceUnlessEmpty_of_length : replaceUnlessEmpty held given = given := by
  rw [replaceUnlessEmpty, isEmpty_of_length length member, if_neg Bool.false_ne_true]

end Tables

/-! ### View establishment -/

namespace Establishment

/-- The tables have a place for each process, and their entries can be written. -/
structure Writable (site : Site) (s : Establishment) : Prop where
  sized : s.Sized site
  pairs : ∀ pair ∈ s.pairs, pair.Writable
  echoes : ∀ o ∈ s.echoes, ∀ stance ∈ o, stance.Writable

variable {s : Establishment}

theorem Writable.reads (fits : s.Writable site) :
    Snapshot.decoder.Reads (room + 4) (s.snapshot site).toJson (s.snapshot site) := by
  refine reads_record
    (.cons (Field.reads_make (reads_list fun o member => reads_optional fun stance held =>
        ⟨?_, Stance.reads (fits.echoes o member stance held)⟩) rfl)
      (.cons (Field.reads_make (reads_list fun phase _ => Phase.reads phase) rfl)
        (.cons (Field.reads_make (reads_bool _) rfl)
          (.cons (Field.reads_make (reads_list fun pair member =>
              ViewPair.reads (fits.pairs pair member)) rfl)
            (.cons (Field.reads_make (reads_list fun b _ => reads_bool b) rfl) .nil)))))
    (by simp) rfl rfl
  exact fun null => nomatch null

/-- A fresh process takes over everything that is shown; the echoes say who is a witness. -/
theorem inject_snapshot (sized : s.Sized site) :
    (new site).inject site (s.snapshot site) = .ok s := by
  have witnesses : (s.snapshot site).witnesses.length = site.cluster.size := by
    simp [snapshot, Cluster.nodes]
  unfold inject
  dsimp only
  rw [SizeMismatch.check_of_eq witnesses]
  simp only [snapshot, SizeMismatch.check_of_eq sized.pairs, SizeMismatch.check_of_eq sized.phases,
    SizeMismatch.check_of_eq sized.echoes, replaceUnlessEmpty_of_length sized.pairs sized.member,
    replaceUnlessEmpty_of_length sized.phases sized.member,
    replaceUnlessEmpty_of_length sized.echoes sized.member,
    isEmpty_of_length sized.echoes sized.member]
  rfl

end Establishment

/-! ### Agreement -/

namespace Agreement

/-- The table has a place for each process, and its entries can be written. -/
structure Writable (site : Site) (s : Agreement) : Prop where
  length : s.records.length = site.cluster.size
  records : ∀ r ∈ s.records, r.Writable

/-- The state with all records cut to the bounds of the cluster. -/
def cut (site : Site) (s : Agreement) : Agreement :=
  { s with records := s.records.map (sanitizeRecord site) }

variable {s : Agreement}

theorem Writable.reads (fits : s.Writable site) : decoder.Reads (room + 8) s.toJson s :=
  reads_record
    (.cons (Field.reads_make (reads_bool s.flush) rfl)
      (.cons (Field.reads_make (reads_bool s.needFlush) rfl)
        (.cons (Field.reads_make (reads_list fun r member =>
            Record.reads (fits.records r member)) rfl) .nil)))
    (by simp) rfl rfl

theorem inject_self (fits : s.Writable site) (member : site.me < site.cluster.size) :
    (new site).inject site s = .ok (s.cut site) := by
  have length : (s.records.map (sanitizeRecord site)).length = site.cluster.size := by
    rw [List.length_map, fits.length]
  simp only [inject, SizeMismatch.check_of_eq fits.length,
    replaceUnlessEmpty_of_length length member]
  rfl

end Agreement

/-! ### Primary monitoring -/

namespace Monitoring

/-- The table has a place for each process, and its entries can be written. -/
structure Writable (site : Site) (s : Monitoring) : Prop where
  length : s.opinions.length = site.cluster.size
  opinions : ∀ o ∈ s.opinions, o.Writable

variable {s : Monitoring}

theorem Writable.own (fits : s.Writable site) (member : site.me < site.cluster.size) :
    (s.own site).Writable := by
  have inTable : site.me < s.opinions.length := fits.length ▸ member
  refine fits.opinions _ ?_
  simp only [Monitoring.own, opinionOf, List.getD_eq_getElem?_getD,
    List.getElem?_eq_getElem inTable, Option.getD_some, List.getElem_mem]

theorem Writable.reads (fits : s.Writable site) (member : site.me < site.cluster.size) :
    Snapshot.decoder.Reads (room + 4) (s.snapshot site).toJson (s.snapshot site) :=
  reads_record
    (.cons (Field.reads_make (reads_bool _) rfl)
      (.cons (Field.reads_make (View.reads (fits.own member).view) rfl)
        (.cons (Field.reads_make (Service.reads _) rfl)
          (.cons (Field.reads_make (reads_list fun o member =>
              Opinion.reads (fits.opinions o member)) rfl) .nil))))
    (by simp) rfl rfl

theorem inject_snapshot (fits : s.Writable site) (member : site.me < site.cluster.size) :
    (new site).inject site (s.snapshot site) = .ok s := by
  have inTable : site.me < s.opinions.length := fits.length ▸ member
  have unchanged : s.setOwn site (s.own site) = s := by
    simp only [setOwn, Monitoring.own, opinionOf, List.getD_eq_getElem?_getD,
      List.getElem?_eq_getElem inTable, Option.getD_some, List.set_getElem_self]
  simp only [inject, snapshot, SizeMismatch.check_of_eq fits.length,
    replaceUnlessEmpty_of_length fits.length member]
  exact congrArg Except.ok unchanged

end Monitoring

/-! ### Failure detection -/

namespace Detection

/-- The tables have a place for each process, and all that is shown of them can be written. -/
structure Writable (site : Site) (s : Detection) : Prop where
  length : s.beats.length = site.cluster.size
  beats : ∀ beat ∈ s.beats, beat ≤ maxUnsigned
  stalled : s.stalled ≤ maxUnsigned
  suspicions : s.suspicions.length = site.cluster.size
  tracked : s.tracked.length = site.cluster.size
  watched : ∀ q ∈ s.watched, q.Writable
  responsive : s.responsive.Writable
  view : s.view.Writable

/-- What becomes of detection when it is shown and given to a fresh process: all suspicions are
about the own view, and everybody is responsive. -/
def revived (site : Site) (s : Detection) : Detection :=
  { s with
    tracked := List.replicate site.cluster.size s.view
    responsive := .filterBelow site.cluster.size fun _ => true }

variable {s : Detection}

/-- Who is responsive is shown, but passed over. -/
theorem Writable.reads (fits : s.Writable site) :
    Snapshot.decoder.Reads (room + 4) s.toJson s.snapshot :=
  reads_record
    (.cons (Field.reads_make (reads_list fun beat member =>
        reads_unsigned (fits.beats beat member)) rfl)
      (.cons (Field.reads_make (reads_unsigned fits.stalled) rfl)
        (.cons (Field.reads_make (reads_list fun q member =>
            ClientRequest.reads (fits.watched q member)) rfl)
          (.cons (Field.reads_unknown (NodeSet.reads fits.responsive).settles rfl)
            (.cons (Field.reads_make (View.reads fits.view) rfl)
              (.cons (Field.reads_make (reads_list fun b _ => reads_bool b) rfl) .nil))))))
    (by simp) rfl rfl

theorem inject_snapshot (fits : s.Writable site) (member : site.me < site.cluster.size) :
    (new site).inject site s.snapshot = .ok (s.revived site) := by
  have about : ((new site).tracked.map fun _ => s.view) =
      List.replicate site.cluster.size s.view := by
    simp [new]
  simp only [inject, snapshot, SizeMismatch.check_of_eq fits.length,
    SizeMismatch.check_of_eq fits.suspicions, replaceUnlessEmpty_of_length fits.length member,
    replaceUnlessEmpty_of_length fits.suspicions member,
    isEmpty_of_length fits.suspicions member, about]
  rfl

end Detection

/-! ### Processes -/

theorem Json.Piece.written_of_isDigit {c : Char} (digit : c.isDigit) :
    Piece.written c = .char c := by
  refine if_neg fun control => ?_
  have visible : ' ' ≤ c := by
    simp only [Char.isDigit, Bool.and_eq_true, decide_eq_true_eq] at digit
    exact Nat.le_trans (by decide) digit.1
  exact absurd control.1 (Nat.not_lt.mpr visible)

theorem mapM_map_of_forall {α β : Type} {f : β → Option α} {g : α → β} {items : List α}
    (inverse : ∀ a ∈ items, f (g a) = some a) : (items.map g).mapM f = some items := by
  induction items with
  | nil => rfl
  | cons a rest ih =>
      rw [List.forall_mem_cons] at inverse
      rw [List.map_cons, List.mapM_cons, inverse.1, ih inverse.2]
      rfl

/-- The number of a process, as it is written, names the process. -/
theorem StartState.nodeOfKey?_written {node : NodeId} (fits : node ≤ maxUnsigned) :
    nodeOfKey? ((toString node).toList.map Piece.written) = some node := by
  have spelled : (toString node).toList = Nat.toDigits 10 node := by simp [toString]
  have areDigits : ∀ c ∈ Nat.toDigits 10 node, c.isDigit := fun _ member =>
    Nat.isDigit_of_mem_toDigits (by decide) (by decide) member
  rw [spelled]
  unfold nodeOfKey?
  rw [mapM_map_of_forall fun c member => ?_]
  · have named : (Nat.toDigits 10 node = ['0'] ∨ Nat.toDigits 10 node ≠ [] ∧
        (Nat.toDigits 10 node).head? ≠ some '0') ∧
          Numeral.accumulate 0 (Nat.toDigits 10 node) ≤ maxUnsigned := by
      rw [Numeral.accumulate_toDigits]
      exact ⟨(toDigits_zero_or_head node).imp_right fun head => ⟨Nat.toDigits_ne_nil, head⟩, fits⟩
    exact (if_pos named).trans (congrArg some (Numeral.accumulate_toDigits node))
  · rw [Piece.written_of_isDigit (areDigits c member)]
    exact if_pos (areDigits c member)

namespace Node

/-- All four components of a process are installed. -/
structure Complete (node : Node) (e : Establishment) (a : Agreement) (m : Monitoring)
    (d : Detection) : Prop where
  establishment : node.establishment = some e
  agreement : node.agreement = some a
  monitoring : node.monitoring = some m
  detection : node.detection = some d

/-- The process that starts afresh from what a process shows of itself. -/
def revive (node : Node) : Except StartStateError Node := do
  let shown : Json := .object [(toString node.site.me, node.data)]
  let start ← StartState.parse (.ofString shown.render)
  start.apply (.new node.site)

variable {node : Node} {e : Establishment} {a : Agreement} {m : Monitoring} {d : Detection}

/-- The entry of a start state that a process shows. -/
def entry (site : Site) (e : Establishment) (a : Agreement) (m : Monitoring) (d : Detection) :
    StartEntry :=
  { establishment := some (e.snapshot site)
    agreement := some a
    monitoring := some (m.snapshot site)
    detection := some d.snapshot }

section Revival

variable (complete : node.Complete e a m d) (forE : e.Writable node.site)
  (forA : a.Writable node.site) (forM : m.Writable node.site) (forD : d.Writable node.site)
  (fits : node.site.me ≤ maxUnsigned)
include complete forE forA forM forD fits

/-- What a process shows is read as an entry; only its number is passed over. -/
theorem reads_data :
    StartEntry.decoder.Reads (room + 9) node.data (entry node.site e a m d) := by
  have member := forE.sized.member
  have shown : node.data = .object
      [ (Component.detection.key, d.toJson),
        (Component.monitoring.key, (m.snapshot node.site).toJson),
        (Component.agreement.key, a.toJson),
        (Component.establishment.key, (e.snapshot node.site).toJson),
        ("id", .nat node.site.me) ] := by
    simp [data, complete.establishment, complete.agreement, complete.monitoring,
      complete.detection]
  have number : (unsigned).Reads (room + 8) (.nat node.site.me) node.site.me := reads_unsigned fits
  rw [shown]
  exact reads_record
    (.cons (Field.reads_make (reads_some nofun forD.reads) rfl)
      (.cons (Field.reads_make (reads_some nofun (forM.reads member)) rfl)
        (.cons (Field.reads_make (reads_some nofun forA.reads) rfl)
          (.cons (Field.reads_make (reads_some nofun forE.reads) rfl)
            (.cons (Field.reads_unknown number.settles rfl) .nil)))))
    (by simp [Component.key]) rfl rfl

theorem parse_data :
    StartState.parse (.ofString (Json.object [(toString node.site.me, node.data)]).render) =
      .ok { entries := [(node.site.me, entry node.site e a m d)] } := by
  have read := (reads_data complete forE forA forM forD fits :
    StartEntry.decoder.Reads 9 _ _).reads _ Piece.spells_written
  have decoded : StartState.decoder
      ((Json.object [(toString node.site.me, node.data)]).source Piece.written) =
        .ok { entries := [(node.site.me, entry node.site e a m d)] } := by
    simp only [source, memberSources, StartState.decoder, StartState.readMembers,
      StartState.nodeOfKey?_written fits, read, bind, Except.bind]
    rfl
  rw [StartState.parse, Document.ofText_render, Document.decode, decoded]
  rfl

/-- A process that starts afresh from what another one shows has its states, but for detection and
for cut records. -/
theorem revive_eq :
    node.revive =
      .ok
        { site := node.site
          establishment := some e
          agreement := some (a.cut node.site)
          monitoring := some m
          detection := some (d.revived node.site)
          metrics := .zero } := by
  have member := forE.sized.member
  unfold revive
  dsimp only
  rw [parse_data complete forE forA forM forD fits]
  simp only [bind, Except.bind, StartState.apply, StartState.entryOf, Node.new,
    List.lookup_cons_self, StartState.injectInto, entry,
    Establishment.inject_snapshot forE.sized, Agreement.inject_self forA member,
    Monitoring.inject_snapshot forM member, Detection.inject_snapshot forD member]
  rfl

end Revival

end Node

end QuorumList
