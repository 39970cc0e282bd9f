import QuorumList.Proofs.Stability
import QuorumList.Proofs.Steps

/-!
View changes in lock-step.

In lock-step all processes run a round, and then they hear from each other.  Then they always stand
on two steps in a row.  If an adopting quorum stands on the first one, those on the second one go
back to it; otherwise those on the first one go on to the second one.  In both cases the processes
are on two steps in a row again, and nobody starts over.
-/
namespace QuorumList

namespace Establishment

variable {site : Site} {s : Establishment} {σ : NodeId → Stance} {x y : Stance}

/-- The tables show each process in the stance that it has. -/
def Knows (site : Site) (σ : NodeId → Stance) (s : Establishment) : Prop :=
  ∀ j, j < site.cluster.size → s.stanceOf j = σ j

/-- All processes stand on a step or on the one after it. -/
structure Abreast (n : Nat) (x : Stance) (σ : NodeId → Stance) : Prop where
  step : x.IsStep n
  either : ∀ j, j < n → σ j = x ∨ σ j = x.advanced n

theorem Abreast.legit {n : Nat} (abreast : Abreast n x σ) (several : 2 ≤ n) {j : NodeId}
    (inRange : j < n) : (σ j).legit n = true := by
  rcases abreast.either j inRange with first | second
  · rw [first]
    exact abreast.step.legit several
  · rw [second]
    exact abreast.step.advanced.legit several

theorem Knows.sanitizePeers (knows : s.Knows site σ)
    (fine : ∀ j, j < site.cluster.size → (σ j).legit site.cluster.size = true) :
    (s.sanitizePeers site).Knows site σ := by
  intro j inRange
  have seen := knows j inRange
  rw [stanceOf_sanitizePeers_of_legit (seen ▸ fine j inRange), seen]

/-- Processes with the same tables count the same. -/
theorem Knows.seen_eq (knows : s.Knows site σ) (x : Stance) :
    s.seen site x = site.cluster.nodes.countP fun j => σ j = x :=
  List.countP_congr fun j listed => by rw [knows j (List.mem_range.mp listed)]

/-- The step on which the last of the processes stand after a round. -/
def rear (c : Cluster) (x : Stance) (σ : NodeId → Stance) : Stance :=
  if c.adoptQuorum ≤ c.nodes.countP fun j => σ j = x then x else x.advanced c.size

/-- Processes that know each other and stand on two steps in a row do so after a round, and none of
them starts over. -/
theorem Knows.round (knows : s.Knows site σ) (sized : s.Sized site)
    (several : 2 ≤ site.cluster.size) (large : 6 * site.cluster.faults + 1 ≤ site.cluster.size)
    (abreast : Abreast site.cluster.size x σ) {answers : Answers}
    (unasked : answers.needFlush = false) :
    .reset ∉ (s.round site answers).events ∧
      ((s.round site answers).state.own site = rear site.cluster x σ ∨
        (s.round site answers).state.own site =
          (rear site.cluster x σ).advanced site.cluster.size) := by
  have fine {j : NodeId} (inRange : j < site.cluster.size) := abreast.legit several inRange
  have own : s.own site = σ site.me := knows site.me sized.member
  have performs := round_eq_perform (own ▸ fine sized.member) unasked
  have tidied := knows.sanitizePeers fun j inRange => fine inRange
  have tidiedSized := sized.sanitizePeers
  rw [performs]
  clear performs
  -- From here on only the tidied tables matter; what they show is what `σ` says.
  generalize s.sanitizePeers site = t at tidied tidiedSized
  have two : t.SeesTwo site x (x.advanced site.cluster.size) := by
    intro j inRange
    rw [tidied j inRange]
    exact abreast.either j inRange
  have ownTidied : t.own site = σ site.me := tidied site.me sized.member
  rw [rear, ← tidied.seen_eq x]
  rcases abreast.either site.me sized.member with first | second
  · obtain rfl : t.own site = x := ownTidied.trans first
    obtain ⟨either, goes⟩ := two.own_after_first tidiedSized several large abreast.step rfl
    refine ⟨reset_not_mem_events_perform
      (two.select_ne_reset several large abreast.step abreast.step.advanced), ?_⟩
    by_cases quorum : site.cluster.adoptQuorum ≤ t.seen site (t.own site)
    · rw [if_pos quorum]
      exact either
    · rw [if_neg quorum]
      exact .inl (goes ((two.quorum large).resolve_left quorum))
  · have ownSecond : t.own site = x.advanced site.cluster.size := ownTidied.trans second
    rw [← ownSecond] at two ⊢
    obtain ⟨returns, goes⟩ :=
      two.symm.own_after_second tidiedSized several large abreast.step ownSecond
    refine ⟨reset_not_mem_events_perform (two.symm.select_ne_reset several large
      (ownSecond ▸ abreast.step.advanced) abreast.step), ?_⟩
    by_cases quorum : site.cluster.adoptQuorum ≤ t.seen site x
    · rw [if_pos quorum]
      exact .inl (returns quorum)
    · rw [if_neg quorum]
      exact goes (Nat.lt_of_not_le quorum)

theorem Abreast.step_rear {c : Cluster} (abreast : Abreast c.size x σ) :
    (rear c x σ).IsStep c.size := by
  unfold rear
  split
  · exact abreast.step
  · exact abreast.step.advanced

end Establishment

namespace Council

open Establishment

variable {c : Cluster} {e : Council} {σ : NodeId → Stance} {x : Stance} {k : NodeId}
  {s : Establishment}

/-- The stance in which a process stands. -/
def standing (c : Cluster) (e : Council) (k : NodeId) : Stance :=
  (e.processes.getD k default).own (c.siteOf k)

theorem standing_eq (found : e.processes[k]? = some s) :
    e.standing c k = s.own (c.siteOf k) := by
  rw [standing, List.getD_eq_getElem?_getD, found, Option.getD_some]

theorem standing_settle_of_ne {j : NodeId} (other : j ≠ k) (outcome : Outcome Establishment) :
    (e.settle k outcome).standing c j = e.standing c j := by
  simp only [standing, settle, List.getD_eq_getElem?_getD, List.getElem?_set_ne (Ne.symm other)]

theorem standing_settle_self (found : e.processes[k]? = some s)
    (outcome : Outcome Establishment) :
    (e.settle k outcome).standing c k = outcome.state.own (c.siteOf k) := by
  apply standing_eq
  exact List.getElem?_set_self (List.getElem?_eq_some_iff.mp found).1

theorem standing_hand (e : Council) (l : Letter) (k : NodeId) :
    (e.hand c l).standing c k = e.standing c k := by
  cases found : e.processes[k]? with
  | none =>
      have stillNone : (e.hand c l).processes[k]? = none := by simpa [hand] using found
      simp only [standing, List.getD_eq_getElem?_getD, found, stillNone]
  | some s =>
      by_cases same : k = l.receiver
      · subst same
        have received : (e.hand c l).processes[l.receiver]? =
            some (s.receive (c.siteOf l.receiver) l.sender l.content) := by simp [hand, found]
        rw [standing_eq received, standing_eq found, own_receive]
      · have untouched : (e.hand c l).processes[k]? = some s := by
          simp [hand, found, Ne.symm same]
        rw [standing_eq untouched, standing_eq found]

/-- Nobody has started over. -/
def NoReset (e : Council) : Prop :=
  ∀ k, (k, .reset) ∉ e.events

theorem NoReset.settle (noReset : e.NoReset) {outcome : Outcome Establishment}
    (goesOn : .reset ∉ outcome.events) : (e.settle k outcome).NoReset := by
  intro j counted
  rcases mem_events_settle.mp counted with before | ⟨-, now⟩
  · exact noReset j before
  · exact goesOn now

theorem NoReset.wish (noReset : e.NoReset) : (e.settle k s.wantChange).NoReset := by
  refine noReset.settle ?_
  simp only [wantChange]
  split <;> simp

/-- All processes stand on a step or the one after it, know how the others stand, and nobody has
started over. -/
structure InStep (c : Cluster) (x : Stance) (e : Council) : Prop where
  sized : e.Sized c
  abreast : Abreast c.size x (e.standing c)
  informed : e.All fun k s => s.Knows (c.siteOf k) (e.standing c)
  landed : e.inFlight = []
  noReset : e.NoReset

theorem standing_wish (found : e.processes[k]? = some s) (j : NodeId) :
    (e.settle k s.wantChange).standing c j = e.standing c j := by
  by_cases same : j = k
  · subst same
    rw [standing_settle_self found, standing_eq found]
    rfl
  · exact standing_settle_of_ne same _

theorem InStep.wish (inStep : e.InStep c x) (k : NodeId) :
    (e.act c (.wish k)).InStep c x := by
  rw [act]
  split
  · exact inStep
  · next s found =>
      have same : (e.settle k s.wantChange).standing c = e.standing c :=
        funext (standing_wish found)
      constructor
      · exact inStep.sized.wish found
      · rw [same]
        exact inStep.abreast
      · rw [same]
        exact inStep.informed.settle (inStep.informed k s found)
      · exact inStep.landed
      · exact inStep.noReset.wish

/-! ### The rounds of a pulse -/

/-- Some processes have run a round and told everybody, the others still know how all stood. -/
structure Halfway (c : Cluster) (σ : NodeId → Stance) (y : Stance) (done : List NodeId)
    (e : Council) : Prop where
  sized : e.Sized c
  waiting : e.All fun k s => k ∉ done → s.Knows (c.siteOf k) σ
  moved : ∀ k ∈ done, e.standing c k = y ∨ e.standing c k = y.advanced c.size
  letters : ∀ l ∈ e.inFlight, l.sender ∈ done ∧ l.sender < c.size ∧ l.receiver ≠ l.sender ∧
    l.content.stance = e.standing c l.sender
  told : ∀ k ∈ done, ∀ j, j < c.size → j ≠ k → ∃ l ∈ e.inFlight, l.sender = k ∧ l.receiver = j
  noReset : e.NoReset

theorem Halfway.attend {done : List NodeId} (halfway : e.Halfway c σ (rear c x σ) done)
    (several : 2 ≤ c.size) (large : 6 * c.faults + 1 ≤ c.size) (abreast : Abreast c.size x σ)
    (found : e.processes[k]? = some s) (undone : k ∉ done) {answers : Answers}
    (unasked : answers.needFlush = false) :
    (e.attend c k answers s).Halfway c σ (rear c x σ) (k :: done) := by
  obtain ⟨goesOn, moves⟩ := (halfway.waiting k s found undone).round
    (halfway.sized.tables k s found) several large abreast unasked
  have ownAfter : (e.attend c k answers s).standing c k =
      (s.round (c.siteOf k) answers).state.own (c.siteOf k) := standing_settle_self found _
  have others {j : NodeId} (other : j ≠ k) :
      (e.attend c k answers s).standing c j = e.standing c j := standing_settle_of_ne other _
  have doneBefore {j : NodeId} (member : j ∈ done) : j ≠ k := fun same => undone (same ▸ member)
  constructor
  · exact halfway.sized.attend found answers
  · intro j t foundAfter waits
    rcases processes_settle foundAfter with ⟨rfl, -⟩ | ⟨-, before⟩
    · exact absurd List.mem_cons_self waits
    · exact halfway.waiting j t before fun member => waits (List.mem_cons_of_mem _ member)
  · intro j member
    rcases List.mem_cons.mp member with rfl | earlier
    · rw [ownAfter]
      exact moves
    · rw [others (doneBefore earlier)]
      exact halfway.moved j earlier
  · intro l sent
    rcases List.mem_append.mp sent with before | now
    · obtain ⟨earlier, known⟩ := halfway.letters l before
      rw [others (doneBefore earlier)]
      exact ⟨List.mem_cons_of_mem _ earlier, known⟩
    · obtain ⟨rfl, -, other, written⟩ := mem_lettersOf.mp now
      rw [ownAfter, written]
      exact ⟨List.mem_cons_self, (halfway.sized.tables _ s found).member, other, rfl⟩
  · intro i member j listed other
    rcases List.mem_cons.mp member with rfl | earlier
    · obtain ⟨l, now, onLink⟩ := exists_letter other listed
      exact ⟨l, List.mem_append_right _ now, onLink⟩
    · obtain ⟨l, before, onLink⟩ := halfway.told i earlier j listed other
      exact ⟨l, List.mem_append_left _ before, onLink⟩
  · exact halfway.noReset.settle goesOn

/-- The processes of a list run their rounds one after the other. -/
theorem Halfway.run {done : List NodeId} (halfway : e.Halfway c σ (rear c x σ) done)
    (several : 2 ≤ c.size) (large : 6 * c.faults + 1 ≤ c.size) (abreast : Abreast c.size x σ)
    {answers : NodeId → Answers} (unasked : ∀ k, (answers k).needFlush = false)
    {waiting : List NodeId} (distinct : waiting.Nodup)
    (undone : ∀ k ∈ waiting, k < c.size ∧ k ∉ done) :
    ∃ done', (e.run c (waiting.map fun k => .round k (answers k))).Halfway c σ (rear c x σ) done' ∧
      ∀ k, k ∈ done ∨ k ∈ waiting → k ∈ done' := by
  -- The processes that have run are collected in `done`; each must find its tables as they were
  -- before all rounds, which holds since no letter arrives between the rounds.
  induction waiting generalizing e done with
  | nil => exact ⟨done, halfway, fun k member => member.resolve_right List.not_mem_nil⟩
  | cons k rest ih =>
      obtain ⟨new, distinctRest⟩ := List.nodup_cons.mp distinct
      obtain ⟨member, notDone⟩ := undone k List.mem_cons_self
      obtain ⟨s, found⟩ := halfway.sized.found member
      have next := halfway.attend several large abreast found notDone (unasked k)
      have acted : e.act c (.round k (answers k)) = e.attend c k (answers k) s := by
        simp [act, found]
      rw [← acted] at next
      obtain ⟨done', after, all⟩ := ih next distinctRest fun j listed => by
        obtain ⟨inRange, notEarlier⟩ := undone j (List.mem_cons_of_mem _ listed)
        refine ⟨inRange, fun member => ?_⟩
        rcases List.mem_cons.mp member with rfl | earlier
        · exact new listed
        · exact notEarlier earlier
      refine ⟨done', after, fun j member => all j ?_⟩
      rcases member with earlier | listed
      · exact .inl (List.mem_cons_of_mem _ earlier)
      · rcases List.mem_cons.mp listed with rfl | later
        · exact .inl List.mem_cons_self
        · exact .inr later

/-! ### The arrivals of a pulse -/

/-- Everybody knows how the others stand, or a letter is under way that says so. -/
structure Arriving (c : Cluster) (y : Stance) (e : Council) : Prop where
  sized : e.Sized c
  abreast : Abreast c.size y (e.standing c)
  letters : ∀ l ∈ e.inFlight, l.sender < c.size ∧ l.receiver ≠ l.sender ∧
    l.content.stance = e.standing c l.sender
  told : e.All fun k s => ∀ j, j < c.size → s.stanceOf j = e.standing c j ∨
    ∃ l ∈ e.inFlight, l.sender = j ∧ l.receiver = k
  noReset : e.NoReset

/-- The oldest letter arrives. -/
theorem Arriving.arrive (arriving : e.Arriving c x) (several : 2 ≤ c.size) {l : Letter}
    {later : List Letter} (first : e.inFlight = l :: later) :
    ({ e.hand c l with inFlight := later } : Council).Arriving c x := by
  have same : ({ e.hand c l with inFlight := later } : Council).standing c = e.standing c :=
    funext (standing_hand e l)
  have handed := arriving.sized.hand l
  have mine : l ∈ e.inFlight := first ▸ List.mem_cons_self
  have rest {m : Letter} (member : m ∈ later) : m ∈ e.inFlight :=
    first ▸ List.mem_cons_of_mem _ member
  constructor
  · exact ⟨handed.length, handed.tables⟩
  · rw [same]
    exact arriving.abreast
  · rw [same]
    exact fun m member => arriving.letters m (rest member)
  · rw [same]
    intro k t foundAfter i inRange
    obtain ⟨s, found, received⟩ := processes_hand foundAfter
    have before := arriving.told k s found i inRange
    rw [first] at before
    -- Either this letter tells `k` of `i`, or what `k` sees of `i` has not changed, and a letter
    -- that was to tell it is still under way.
    by_cases isThis : i = l.sender ∧ k = l.receiver
    · obtain ⟨rfl, rfl⟩ := isThis
      obtain ⟨senderInRange, other, written⟩ := arriving.letters l mine
      have peer : (c.siteOf l.receiver).isPeer l.sender = true :=
        Site.isPeer_iff.mpr ⟨Ne.symm other, senderInRange⟩
      have valid : l.content.valid c.size = true := by
        rw [Announcement.valid, written]
        exact arriving.abreast.legit several senderInRange
      obtain ⟨-, rfl⟩ := received.resolve_right fun elsewhere => elsewhere.1 rfl
      left
      rw [(stanceOf_receive (arriving.sized.tables _ s found) peer valid).1, written]
    · have unchanged : t.stanceOf i = s.stanceOf i := by
        rcases received with ⟨here, rfl⟩ | ⟨-, rfl⟩
        · exact (stanceOf_receive_of_ne (fun sent => isThis ⟨sent, here⟩) _).1
        · rfl
      rw [unchanged]
      apply before.imp_right
      rintro ⟨m, member, onLink⟩
      refine ⟨m, (List.mem_cons.mp member).resolve_left fun isFirst => ?_, onLink⟩
      subst isFirst
      exact isThis ⟨onLink.1.symm, onLink.2.symm⟩
  · exact arriving.noReset

/-- All letters on their way arrive, the oldest first. -/
theorem Arriving.run (arriving : e.Arriving c x) (several : 2 ≤ c.size) :
    (e.run c (e.inFlight.map fun l => .arrive l.sender l.receiver)).InStep c x := by
  generalize letters : e.inFlight = l
  induction l generalizing e with
  | nil =>
      refine ⟨arriving.sized, arriving.abreast, fun k s found j inRange => ?_, letters,
        arriving.noReset⟩
      refine (arriving.told k s found j inRange).resolve_right fun ⟨l, member, _⟩ => ?_
      rw [letters] at member
      exact List.not_mem_nil member
  | cons l later ih =>
      have arrived : e.act c (.arrive l.sender l.receiver) =
          { e.hand c l with inFlight := later } := by
        simp [act, letters, Letter.isOn]
      have next := ih (arriving.arrive several letters) rfl
      rw [← arrived] at next
      exact next

/-! ### Pulses -/

/-- A pulse of a council in lock-step: processes are asked for a view change, then each process runs
a round, and then all letters arrive. -/
structure Pulse where
  wishes : List NodeId
  answers : NodeId → Answers

def pulse (c : Cluster) (e : Council) (p : Pulse) : Council :=
  let asked := e.run c (p.wishes.map .wish)
  let attended := asked.run c (c.nodes.map fun k => .round k (p.answers k))
  attended.run c (attended.inFlight.map fun l => .arrive l.sender l.receiver)

theorem InStep.wishes (inStep : e.InStep c x) (wishes : List NodeId) :
    (e.run c (wishes.map .wish)).InStep c x := by
  rw [run, List.foldl_map]
  exact List.foldlRecOn _ _ inStep fun _ inStep k _ => inStep.wish k

theorem InStep.halfway (inStep : e.InStep c x) :
    e.Halfway c (e.standing c) (rear c x (e.standing c)) [] where
  sized := inStep.sized
  waiting k s found _ := inStep.informed k s found
  moved _ member := absurd member List.not_mem_nil
  letters l member := by
    rw [inStep.landed] at member
    exact absurd member List.not_mem_nil
  told _ member := absurd member List.not_mem_nil
  noReset := inStep.noReset

/-- When all have run their rounds, the letters that make them known are under way. -/
theorem Halfway.arriving {done : List NodeId} (halfway : e.Halfway c σ (rear c x σ) done)
    (abreast : Abreast c.size x σ) (all : ∀ k, k < c.size → k ∈ done) :
    e.Arriving c (rear c x σ) where
  sized := halfway.sized
  abreast := ⟨abreast.step_rear, fun j inRange => halfway.moved j (all j inRange)⟩
  letters l sent := (halfway.letters l sent).2
  told k s found j inRange := by
    by_cases itself : j = k
    · subst itself
      exact .inl (standing_eq found).symm
    · have member := (halfway.sized.tables k s found).member
      exact .inr (halfway.told j (all j inRange) k member (Ne.symm itself))
  noReset := halfway.noReset

/-- Processes in step are in step after a pulse. -/
theorem InStep.pulse (inStep : e.InStep c x) (several : 2 ≤ c.size)
    (large : 6 * c.faults + 1 ≤ c.size) {p : Pulse}
    (unasked : ∀ k, (p.answers k).needFlush = false) : ∃ y, (e.pulse c p).InStep c y := by
  have asked := inStep.wishes p.wishes
  obtain ⟨done, halfway, all⟩ := asked.halfway.run several large asked.abreast unasked
    List.nodup_range fun k listed => ⟨List.mem_range.mp listed, List.not_mem_nil⟩
  have arriving := halfway.arriving asked.abreast fun k inRange =>
    all k (.inr (List.mem_range.mpr inRange))
  exact ⟨_, arriving.run several⟩

/-- What a sequence of pulses makes of a council. -/
def pulses (c : Cluster) (e : Council) (ps : List Pulse) : Council :=
  ps.foldl (pulse c) e

theorem InStep.pulses (inStep : e.InStep c x) (several : 2 ≤ c.size)
    (large : 6 * c.faults + 1 ≤ c.size) {ps : List Pulse}
    (unasked : ∀ p ∈ ps, ∀ k, (p.answers k).needFlush = false) :
    ∃ y, (e.pulses c ps).InStep c y :=
  List.foldlRecOn (motive := fun e : Council => ∃ y, e.InStep c y) _ _ ⟨x, inStep⟩
    fun _ ⟨_, inStep⟩ p member => inStep.pulse several large (unasked p member)

end Council

end QuorumList
