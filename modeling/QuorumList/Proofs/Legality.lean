import QuorumList.Proofs.Steps

/-!
Legality.

A start state may show anything: pairs that no process can hold, phases that contradict them, and
echoes of neither.  One round of establishment puts this right.  It replaces what others cannot
hold, and a process whose own stance is not legitimate starts over; every transition of the others
leads from a legitimate stance, by way of a pair that some process can hold, to a legitimate stance.

After that round the process stays proper whatever happens to it, because announcements that are not
legitimate are not kept.  What it announces is its own stance, so nobody with as many processes
drops it.
-/
namespace QuorumList

namespace ViewPair

/-- A process can be steady in the view after any view, even after none. -/
theorem legitSteady_steady_successor {n : Nat} (positive : 0 < n) (view : View) :
    (steady (view.successor n)).legitSteady n = true := by
  cases view with
  | tee =>
      simp [legitSteady, steady, typeCheck, View.successor, View.initial, View.isTee, View.inRange,
        positive]
  | id node =>
      have next : (node + 1) % max n 1 < n := by
        rw [Nat.max_eq_left positive]
        exact Nat.mod_lt _ positive
      simp [legitSteady, steady, typeCheck, View.successor, View.isTee, View.inRange, next]

end ViewPair

namespace Establishment

variable {site : Site} {s held : Establishment} {k : NodeId}

/-! ### Start states -/

theorem length_replaceUnlessEmpty {α : Type} {held given : List α} {n : Nat}
    (full : held.length = n) (fits : given.length = 0 ∨ given.length = n) :
    (replaceUnlessEmpty held given).length = n := by
  unfold replaceUnlessEmpty
  cases given with
  | nil => exact full
  | cons first rest => exact fits.resolve_left (Nat.succ_ne_zero _)

/-- A start state that is accepted has a place for each process in each of its tables. -/
theorem Sized.inject (sized : held.Sized site) {given : Snapshot}
    (accepted : held.inject site given = .ok s) : s.Sized site := by
  have fits : ∀ table found, SizeMismatch.check table found site.cluster.size = .ok () →
      found = 0 ∨ found = site.cluster.size := by
    intro table found passed
    unfold SizeMismatch.check at passed
    split at passed
    · assumption
    · contradiction
  simp only [Establishment.inject, bind, Except.bind, pure, Except.pure] at accepted
  split at accepted
  · contradiction
  · next pairs =>
      split at accepted
      · contradiction
      · next phases =>
          split at accepted
          · contradiction
          · split at accepted
            · contradiction
            · next echoes =>
                have pairsFit := length_replaceUnlessEmpty sized.pairs (fits _ _ pairs)
                have phasesFit := length_replaceUnlessEmpty sized.phases (fits _ _ phases)
                have echoesFit := length_replaceUnlessEmpty sized.echoes (fits _ _ echoes)
                split at accepted
                · obtain rfl := Except.ok.inj accepted
                  exact ⟨sized.member, pairsFit, phasesFit, by
                    simpa [echoesOfWitnesses] using echoesFit⟩
                · obtain rfl := Except.ok.inj accepted
                  exact ⟨sized.member, pairsFit, phasesFit, echoesFit⟩

/-! ### Proper tables -/

/-- The own stance is legitimate, and every other process is seen in a pair that some process can
hold. -/
structure Proper (site : Site) (s : Establishment) : Prop where
  sized : s.Sized site
  own : (s.own site).legit site.cluster.size = true
  peers : ∀ k, k < site.cluster.size → k ≠ site.me →
    (s.pairOf k).typeCheck site.cluster.size = true

/-- Unless it starts over, a process does not change what it has seen of another one. -/
theorem stanceOf_perform_of_ne (other : k ≠ site.me) {action : Case} (goesOn : action ≠ .reset) :
    (s.perform site action).state.stanceOf k = s.stanceOf k := by
  have untouched : ∀ x, (s.setOwn site x).stanceOf k = s.stanceOf k := fun _ =>
    stanceOf_congr (List.getElem?_set_ne (Ne.symm other)) (List.getElem?_set_ne (Ne.symm other))
  cases action with
  | adopt j => exact untouched _
  | advance =>
      unfold perform
      dsimp only
      split
      · exact untouched _
      · exact untouched _
  | stay => rfl
  | reset => contradiction

theorem pairOf_resetAll (sized : s.Sized site) (inRange : k < site.cluster.size) :
    s.resetAll.state.pairOf k = .reset := by
  have inPairs : k < s.pairs.length := sized.pairs ▸ inRange
  simp [pairOf, resetAll, inPairs]

/-- One round is enough, whatever the tables show before it. -/
theorem proper_round (sized : s.Sized site) (several : 2 ≤ site.cluster.size) (answers : Answers) :
    (s.round site answers).state.Proper site := by
  have tidied := sized.sanitizePeers
  constructor
  · exact sized.round answers
  · by_cases legit : (s.own site).legit site.cluster.size = true
    · exact legit_own_round sized several legit answers
    · apply round_cases (P := fun outcome =>
        (outcome.state.own site).legit site.cluster.size = true)
      · exact legit_resetAll tidied
      · intro _ isLegit
        exact absurd isLegit legit
  · intro k inRange other
    apply round_cases (P := fun outcome =>
      (outcome.state.pairOf k).typeCheck site.cluster.size = true)
    · rw [pairOf_resetAll tidied inRange]
      simp [ViewPair.typeCheck, ViewPair.reset, View.initial, View.isTee, View.inRange,
        Nat.zero_lt_of_lt inRange]
    · intro goesOn _
      rw [← pair_stanceOf, stanceOf_perform_of_ne other goesOn]
      exact typeCheck_sanitizePeers sized other inRange

/-! ### Whatever happens after that -/

/-- Something that happens to a process: it runs a round, is asked for a view change, or an
announcement arrives, which need not be one that anybody has sent. -/
inductive Move where
  | round (answers : Answers)
  | wish
  | hear (sender : NodeId) (a : Announcement)

/-- What a move makes of a process. -/
def move (site : Site) (s : Establishment) : Move → Establishment
  | .round answers => (s.round site answers).state
  | .wish => s.wantChange.state
  | .hear sender a => s.receive site sender a

/-- What a sequence of moves makes of a process. -/
def moved (site : Site) (moves : List Move) (s : Establishment) : Establishment :=
  moves.foldl (move site) s

theorem Proper.receive (proper : s.Proper site) (sender : NodeId) (a : Announcement) :
    (s.receive site sender a).Proper site := by
  constructor
  · exact proper.sized.receive sender a
  · rw [own_receive]
    exact proper.own
  · intro k inRange other
    have before := proper.peers k inRange other
    by_cases isSender : k = sender
    · subst isSender
      rcases stanceOf_receive_eq_or proper.sized k a with ⟨unchanged, -⟩ | ⟨valid, shown, -⟩
      · rwa [← pair_stanceOf, unchanged]
      · rw [← pair_stanceOf, shown]
        exact Stance.typeCheck_of_legit valid
    · rwa [← pair_stanceOf, (stanceOf_receive_of_ne isSender a).1]

theorem Proper.move (proper : s.Proper site) (several : 2 ≤ site.cluster.size) (move : Move) :
    (s.move site move).Proper site := by
  cases move with
  | round answers => exact proper_round proper.sized several answers
  | wish =>
      have sized := proper.sized
      exact ⟨⟨sized.member, sized.pairs, sized.phases, sized.echoes⟩, proper.own, proper.peers⟩
  | hear sender a => exact proper.receive sender a

theorem Proper.moved (proper : s.Proper site) (several : 2 ≤ site.cluster.size)
    (moves : List Move) : (s.moved site moves).Proper site := by
  unfold Establishment.moved
  induction moves generalizing s with
  | nil => exact proper
  | cons first rest ih => exact ih (proper.move several first)

/-! ### What a process announces -/

/-- Even what a misbehaving process sends is legitimate. -/
theorem valid_tampered {n : Nat} (positive : 0 < n) (receiver : NodeId) {a : Announcement}
    (valid : a.valid n = true) (misbehaviour : Option Misbehaviour) :
    (Announcement.tampered n receiver a misbehaviour).valid n = true := by
  unfold Announcement.tampered
  split
  · split
    · exact valid
    · exact ViewPair.legitSteady_steady_successor positive _
  · simp [Announcement.valid, Stance.legit, Stance.reset, ViewPair.legitIn, ViewPair.legitSteady,
      ViewPair.isReset, ViewPair.typeCheck, ViewPair.reset, View.initial, View.isTee, View.inRange,
      positive]
  · exact valid

theorem mem_announcements {a : Announcement} :
    (k, a) ∈ s.announcements site ↔
      k < site.cluster.size ∧ k ≠ site.me ∧ a = s.announcementTo site k := by
  simp only [announcements, List.mem_map, Site.others, List.mem_filter, Cluster.nodes,
    List.mem_range, decide_eq_true_eq, Prod.mk.injEq]
  constructor
  · rintro ⟨j, ⟨inRange, other⟩, rfl, rfl⟩
    exact ⟨inRange, other, rfl⟩
  · rintro ⟨inRange, other, rfl⟩
    exact ⟨k, ⟨inRange, other⟩, rfl, rfl⟩

theorem Proper.valid_announcementTo (proper : s.Proper site) (k : NodeId) :
    (s.announcementTo site k).valid site.cluster.size = true := by
  have valid : Announcement.valid site.cluster.size
      { stance := s.own site, echo := s.stanceOf k } = true := proper.own
  exact valid_tampered (Nat.zero_lt_of_lt proper.sized.member) k valid _

/-- Whatever start state a process of several was given, after one round its own stance is
legitimate and it sees the others in pairs that some process can hold.  That stays so, whatever
happens to it; and what it announces is valid, so each receiver that knows as many processes keeps
it.  Without misbehaviour it announces its own stance, and echoes what it has seen. -/
theorem legality_restored (several : 2 ≤ site.cluster.size) (sized : held.Sized site)
    {given : Snapshot} (accepted : held.inject site given = .ok s) (answers : Answers)
    (moves : List Move) :
    let now := (s.round site answers).state.moved site moves
    (now.own site).legit site.cluster.size = true ∧
      (∀ k, k < site.cluster.size → k ≠ site.me →
        (now.pairOf k).typeCheck site.cluster.size = true) ∧
      ∀ k a, (k, a) ∈ now.announcements site →
        a.valid site.cluster.size = true ∧
        (site.switches.misbehaviour = none →
          a = { stance := now.own site, echo := now.stanceOf k }) ∧
        ∀ (receiver : Site) (r : Establishment), receiver.me = k →
          receiver.cluster.size = site.cluster.size → r.Sized receiver →
          (r.receive receiver site.me a).stanceOf site.me = a.stance ∧
            (r.receive receiver site.me a).echoOf site.me = some a.echo := by
  intro now
  have proper : now.Proper site :=
    (proper_round (sized.inject accepted) several answers).moved several moves
  refine ⟨proper.own, proper.peers, fun k a announced => ?_⟩
  obtain ⟨inRange, other, rfl⟩ := mem_announcements.mp announced
  have valid := proper.valid_announcementTo k
  refine ⟨valid, fun behaves => ?_, fun receiver r isReceiver sameSize ofReceiver => ?_⟩
  · rw [announcementTo, behaves]
    rfl
  · apply stanceOf_receive ofReceiver
    · simp [Site.isPeer, isReceiver, sameSize, Ne.symm other, proper.sized.member]
    · rw [sameSize]
      exact valid

/-- A start state in which little is legitimate: the own pair does not fit its phase, and the others
are shown in views that do not exist, in no view, and in the wrong phase. -/
def scrambled : Snapshot :=
  { pairs :=
      [ { current := .id 0, next := .id 1 }, { current := .id 9, next := .id 1 },
        { current := .tee, next := .tee }, .steady (.id 2), { current := .tee, next := .id 4 },
        .reset ]
    phases := [.steady, .steady, .change, .change, .steady, .change]
    changeWanted := true
    witnesses := []
    echoes := [] }

/-- A place in a cluster of six processes, one of which may be faulty. -/
def placeOfSix (me : NodeId) : Site :=
  { me := me, cluster := .new 6 1, switches := .none }

/-- What happens to a process after the first round: a stance that no process can hold arrives, then
one that some process can hold, then it is asked for a view change and runs another round. -/
def mixedMoves : List Move :=
  [ .hear 1 { stance := { phase := .steady, pair := ⟨.tee, .id 3⟩ }, echo := .reset },
    .hear 2 { stance := .steadyIn 3, echo := .reset }, .wish, .round .unavailable ]

/-- From the scrambled state a process starts over, and whatever it hears then, its announcement is
kept by another process that has just been started. -/
theorem scrambled_state_put_right :
    ∃ s, (new (placeOfSix 0)).inject (placeOfSix 0) scrambled = .ok s ∧
      (s.own (placeOfSix 0)).legit 6 = false ∧
      let now := (s.round (placeOfSix 0) .unavailable).state.moved (placeOfSix 0) mixedMoves
      now.own (placeOfSix 0) = { phase := .change, pair := .reset } ∧
        ((new (placeOfSix 4)).receive (placeOfSix 4) 0
          (now.announcementTo (placeOfSix 0) 4)).stanceOf 0 = now.own (placeOfSix 0) := by
  have sized : (new (placeOfSix 0)).Sized (placeOfSix 0) := sized_new (by decide)
  obtain ⟨s, accepted⟩ : ∃ s, (new (placeOfSix 0)).inject (placeOfSix 0) scrambled = .ok s :=
    ⟨_, rfl⟩
  obtain ⟨-, -, heard⟩ := legality_restored (by decide) sized accepted .unavailable mixedMoves
  obtain ⟨-, written, kept⟩ := heard 4 _ (mem_announcements.mpr ⟨by decide, by decide, rfl⟩)
  obtain ⟨stance, -⟩ := kept (placeOfSix 4) (new (placeOfSix 4)) rfl rfl (sized_new (by decide))
  rw [written rfl] at stance
  obtain rfl := Except.ok.inj accepted
  exact ⟨_, accepted, by decide, by decide +kernel, by rw [written rfl]; exact stance⟩

end Establishment

end QuorumList
