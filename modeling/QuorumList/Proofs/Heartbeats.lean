import QuorumList.Proofs.Vigil

/-!
Heartbeats.

A detector does not measure time.  Its beats count tokens: how many other processes have sent one
since the last token of a process.  In rounds in which everybody sends one token to everybody else,
all but two of the processes are heard between two tokens of the same one, so its beat reaches
`N - 2` although it is never silent for longer than a round.

If the threshold is larger than that, then nobody ever suspects a primary that takes part in the
rounds and owes nothing.  If it is not, then everybody else does, after two rounds at the latest.
-/
namespace QuorumList

namespace Detection

variable {site : Site} {s : Detection} {answers : Answers} {sender primary k : NodeId}
  {senders : List NodeId}

/-! ### Silence -/

/-- How many tokens of others have come since the last one of `k`, or since the start, if tokens of
these senders came.  Only tokens of other processes of the cluster count. -/
def silence (site : Site) (k : NodeId) (senders : List NodeId) : Nat :=
  senders.foldl (fun n j => if site.isPeer j then if j = k then 0 else n + 1 else n) 0

theorem silence_concat :
    silence site k (senders ++ [sender]) =
      if site.isPeer sender then if sender = k then 0 else silence site k senders + 1
      else silence site k senders := by
  simp [silence]

/-- Tokens of others make a process more silent. -/
theorem silence_append_of_notMem {more : List NodeId} (peers : ∀ j ∈ more, site.isPeer j = true)
    (unheard : k ∉ more) :
    silence site k (senders ++ more) = silence site k senders + more.length := by
  induction more using List.reverseRecOn with
  | nil => simp
  | append_singleton more j ih =>
      have peer : site.isPeer j = true := peers j (by simp)
      have other : j ≠ k := by
        rintro rfl
        simp at unheard
      have before := ih (fun i member => peers i (List.mem_append_left _ member))
        fun member => unheard (List.mem_append_left _ member)
      rw [← List.append_assoc, silence_concat, if_pos peer, if_neg other, before]
      simp [Nat.add_assoc]

/-- After a token of a process only what came later counts. -/
theorem silence_append_cons {more : List NodeId} (peer : site.isPeer k = true)
    (peers : ∀ j ∈ more, site.isPeer j = true) (unheard : k ∉ more) :
    silence site k (senders ++ k :: more) = more.length := by
  have heard : silence site k (senders ++ [k]) = 0 := by
    rw [silence_concat, if_pos peer, if_pos rfl]
  rw [← List.singleton_append, ← List.append_assoc, silence_append_of_notMem peers unheard, heard,
    Nat.zero_add]

/-- The beats after tokens of these senders. -/
def heartbeats (site : Site) (senders : List NodeId) : List Nat :=
  site.cluster.nodes.map fun k =>
    if k = site.me then 0 else min (silence site k senders) Json.maxUnsigned

theorem heartbeats_nil : heartbeats site [] = List.replicate site.cluster.size 0 := by
  simp [heartbeats, silence, Cluster.nodes, List.map_const']

theorem getD_heartbeats (inRange : k < site.cluster.size) (other : k ≠ site.me) :
    (heartbeats site senders).getD k 0 = min (silence site k senders) Json.maxUnsigned := by
  simp [heartbeats, Cluster.nodes, inRange, other]

theorem heartbeats_concat_of_not_peer (unknown : site.isPeer sender = false) :
    heartbeats site (senders ++ [sender]) = heartbeats site senders := by
  simp [heartbeats, silence_concat, unknown]

/-- A token ages all but its sender and the process that hears it. -/
theorem heartbeats_concat_of_peer (peer : site.isPeer sender = true) :
    heartbeats site (senders ++ [sender]) =
      (heartbeats site senders).mapIdx fun k beat =>
        if k = site.me || k = sender then 0 else nextBeat beat := by
  apply List.ext_getElem
  · simp [heartbeats]
  · intro k _ _
    simp only [heartbeats, Cluster.nodes, List.getElem_map, List.getElem_range, List.getElem_mapIdx,
      silence_concat, if_pos peer, Bool.or_eq_true, decide_eq_true_eq]
    by_cases itself : k = site.me
    · simp [itself]
    · by_cases heard : k = sender
      · simp [heard]
      · rw [if_neg itself, if_neg itself, if_neg (Ne.symm heard), if_neg (by simp [itself, heard]),
          nextBeat]
        omega

/-! ### What a detector makes of silence -/

theorem onToken_of_not_peer (unknown : site.isPeer sender = false) :
    s.onToken site answers sender =
      { s with beats := if sender = site.me then s.beats.set site.me 0 else s.beats } := by
  unfold onToken
  split
  · rfl
  · next other =>
      have outside : site.cluster.size ≤ sender := by
        simpa [Site.isPeer, other] using unknown
      rw [if_pos outside]

theorem onToken_of_peer (peer : site.isPeer sender = true)
    (told : answers.viewOf site.me = .id primary) (allowed : answers.serviceAllowed = true) :
    s.onToken site answers sender =
      ((s.ageBeats site sender).trackView (.id primary)).followPrimary site answers sender
        primary := by
  obtain ⟨other, inRange⟩ := Site.isPeer_iff.mp peer
  simp [onToken, other, Nat.not_le.mpr inRange, told, allowed]

/-- Nothing is pending, and nothing that was pending is owed. -/
theorem followPrimary_of_idle (stalled : s.stalled = 0) (watched : s.watched = [])
    (idle : answers.pending = []) :
    s.followPrimary site answers sender primary = s.judge site primary := by
  have same : ({ s with stalled := 0 } : Detection) = s := by
    rw [← stalled]
  have progress : s.checkProgress [] = s := by
    simp only [checkProgress, watched, List.isEmpty_nil, Bool.true_or, if_true]
    rw [← stalled, ← watched]
  unfold followPrimary
  split
  · rw [same]
  · split
    · rw [idle, progress]
    · rfl

theorem suspects_judge_of_idle (inTable : site.me < s.suspicions.length) (stalled : s.stalled = 0) :
    (s.judge site primary).suspects site.me =
      (s.suspects site.me || !s.responsive.contains primary) := by
  have progress : ¬ site.cluster.threshold < s.stalled := by
    rw [stalled]
    exact Nat.not_lt_zero _
  simp only [judge, suspects, progress, decide_false, Bool.or_false]
  cases s.responsive.contains primary with
  | true => simp
  | false => simp [inTable]

/-- The process has heard tokens of these senders, has always been told that they are in the view of
this primary, and the primary has never owed anything. -/
structure Follows (site : Site) (primary : NodeId) (senders : List NodeId) (s : Detection) :
    Prop where
  sized : s.Sized site
  beats : s.beats = heartbeats site senders
  stalled : s.stalled = 0
  watched : s.watched = []
  view : s.view = .id primary ∨ s.suspects site.me = false
  suspects : s.suspects site.me = true ↔
    primary ≠ site.me ∧ ∃ early, early <+: senders ∧
      site.cluster.threshold ≤ min (silence site primary early) Json.maxUnsigned

/-- Of all that came the latest is either all of it or came before. -/
theorem exists_prefix_concat {P : List NodeId → Prop} :
    (∃ early, early <+: senders ++ [sender] ∧ P early) ↔
      P (senders ++ [sender]) ∨ ∃ early, early <+: senders ∧ P early := by
  simp only [List.prefix_concat_iff, or_and_right, exists_or, exists_eq_left]

namespace Follows

theorem new (member : site.me < site.cluster.size) (positive : 0 < site.cluster.threshold) :
    (Detection.new site).Follows site primary [] where
  sized := ⟨member, List.length_replicate, List.length_replicate⟩
  beats := heartbeats_nil.symm
  stalled := rfl
  watched := rfl
  view := .inr (Vigil.suspects_new)
  suspects := by
    have trusted : (Detection.new site).suspects site.me = false := Vigil.suspects_new
    have heard : silence site primary [] = 0 := rfl
    simp only [trusted, Bool.false_eq_true, List.prefix_nil, exists_eq_left, heard, Nat.zero_min,
      Nat.le_zero_eq, false_iff, not_and]
    intro _
    exact Nat.ne_of_gt positive

/-- After a token of a peer the primary is missed exactly if it has been silent for too long. -/
theorem contains_responsive (follows : s.Follows site primary senders)
    (positive : 0 < site.cluster.threshold) (inRange : primary < site.cluster.size)
    (peer : site.isPeer sender = true) :
    (s.ageBeats site sender).responsive.contains primary = false ↔
      primary ≠ site.me ∧
        site.cluster.threshold ≤
          min (silence site primary (senders ++ [sender])) Json.maxUnsigned := by
  have aged : (s.ageBeats site sender).beats = heartbeats site (senders ++ [sender]) := by
    rw [heartbeats_concat_of_peer peer, ← follows.beats]
    rfl
  have responsive : primary ∈ (s.ageBeats site sender).responsive ↔
      primary = site.me ∨ primary = sender ∨
        (heartbeats site (senders ++ [sender])).getD primary 0 < site.cluster.threshold := by
    rw [← aged]
    simp [ageBeats, inRange, or_assoc]
  rw [Bool.eq_false_iff, ne_eq, NodeSet.contains_iff, responsive]
  by_cases itself : primary = site.me
  · simp [itself]
  · rw [getD_heartbeats inRange itself]
    by_cases heard : primary = sender
    · -- The sender itself has just been heard.
      subst heard
      have fresh : silence site primary (senders ++ [primary]) = 0 := by
        rw [silence_concat, if_pos peer, if_pos rfl]
      simp [fresh, Nat.ne_of_gt positive]
    · simp [itself, heard]

/-- A token of the process itself, or of a stranger, changes nothing. -/
theorem onToken_eq_self (follows : s.Follows site primary senders)
    (unknown : site.isPeer sender = false) : s.onToken site answers sender = s := by
  have inTable : site.me < s.beats.length := by
    simpa [follows.beats, heartbeats, Cluster.nodes] using follows.sized.member
  have held : s.beats[site.me] = 0 := by
    simp [follows.beats, heartbeats, Cluster.nodes]
  have zero : s.beats.set site.me 0 = s.beats := by
    rw [← held, List.set_getElem_self]
  rw [onToken_of_not_peer unknown, zero, ite_self]

/-- Nor does it make a process more silent. -/
theorem concat_of_not_peer (follows : s.Follows site primary senders)
    (unknown : site.isPeer sender = false) : s.Follows site primary (senders ++ [sender]) := by
  have unheard : silence site primary (senders ++ [sender]) = silence site primary senders := by
    simp [silence_concat, unknown]
  refine { follows with beats := ?_, suspects := follows.suspects.trans ?_ }
  · rw [heartbeats_concat_of_not_peer unknown, follows.beats]
  · rw [exists_prefix_concat, unheard]
    constructor
    · rintro ⟨other, missed⟩
      exact ⟨other, .inr missed⟩
    · rintro ⟨other, missed | missed⟩
      · exact ⟨other, senders, List.prefix_rfl, missed⟩
      · exact ⟨other, missed⟩

/-- What a token finds before it judges: it has aged the beats, and nothing else has changed but the
view where it was another one, in which nobody was suspected. -/
theorem trackView_ageBeats (follows : s.Follows site primary senders) :
    ∃ t, (s.ageBeats site sender).trackView (.id primary) = t ∧
      t.beats = (s.ageBeats site sender).beats ∧
      t.responsive = (s.ageBeats site sender).responsive ∧ t.stalled = 0 ∧ t.watched = [] ∧
      t.suspicions.length = s.suspicions.length ∧ t.suspects site.me = s.suspects site.me := by
  refine ⟨_, rfl, ?_⟩
  unfold trackView
  split
  · exact ⟨rfl, rfl, follows.stalled, follows.watched, rfl, rfl⟩
  · next another =>
      have innocent : s.suspects site.me = false :=
        follows.view.resolve_left fun same => another same.symm
      refine ⟨rfl, rfl, rfl, rfl, length_suspicions_clear, ?_⟩
      rw [innocent]
      exact suspects_clear

theorem onToken (follows : s.Follows site primary senders)
    (positive : 0 < site.cluster.threshold) (inRange : primary < site.cluster.size)
    (told : answers.viewOf site.me = .id primary) (allowed : answers.serviceAllowed = true)
    (idle : answers.pending = []) :
    (s.onToken site answers sender).Follows site primary (senders ++ [sender]) := by
  cases peer : site.isPeer sender with
  | false =>
      rw [follows.onToken_eq_self peer]
      exact follows.concat_of_not_peer peer
  | true =>
      obtain ⟨t, trusting, beats, responsive, stalled, watched, suspicions, suspected⟩ :=
        follows.trackView_ageBeats
      have inTable : site.me < t.suspicions.length := by
        rw [suspicions, follows.sized.suspicions]
        exact follows.sized.member
      have tracked : t.view = .id primary := by
        rw [← trusting]
        exact view_trackView
      have sized := follows.sized.onToken answers sender
      have result : s.onToken site answers sender = t.judge site primary := by
        rw [onToken_of_peer peer told allowed, trusting, followPrimary_of_idle stalled watched idle]
      rw [result] at sized ⊢
      refine ⟨sized, ?_, stalled, watched, .inl tracked, ?_⟩
      · rw [heartbeats_concat_of_peer peer, ← follows.beats]
        exact beats
      · rw [suspects_judge_of_idle inTable stalled, suspected, responsive, Bool.or_eq_true,
          Bool.not_eq_true', follows.suspects,
          follows.contains_responsive positive inRange peer, exists_prefix_concat]
        constructor
        · rintro (⟨other, missed⟩ | ⟨other, missed⟩)
          · exact ⟨other, .inr missed⟩
          · exact ⟨other, .inl missed⟩
        · rintro ⟨other, missed | missed⟩
          · exact .inr ⟨other, missed⟩
          · exact .inl ⟨other, missed⟩

/-- What others say about their primaries does not matter. -/
theorem receive (follows : s.Follows site primary senders) (m : Suspicion) :
    (s.receive site sender m).Follows site primary senders := by
  obtain ⟨own, sameView⟩ : (s.receive site sender m).suspects site.me = s.suspects site.me ∧
      (s.receive site sender m).view = s.view := own_receive m
  refine ⟨follows.sized.receive sender m, ?_, ?_, ?_, ?_, own ▸ follows.suspects⟩
  · rw [← follows.beats]
    unfold Detection.receive
    split <;> rfl
  · rw [← follows.stalled]
    unfold Detection.receive
    split <;> rfl
  · rw [← follows.watched]
    unfold Detection.receive
    split <;> rfl
  · rw [own, sameView]
    exact follows.view

end Follows

end Detection

/-! ### Rounds of tokens -/

namespace Vigil

variable {c : Cluster} {e : Vigil} {actions : List Action} {k primary : NodeId} {w : Watch}

/-- The senders of the tokens that a process hears, in their order. -/
def heardBy (k : NodeId) (actions : List Action) : List NodeId :=
  actions.filterMap fun
    | .token receiver sender _ => if receiver = k then some sender else none
    | _ => none

/-- At each token the process that hears it is told that it is in the view of this primary, that
service is allowed, and that nothing is pending. -/
def Action.Steady (primary : NodeId) : Action → Prop
  | .token receiver _ answers =>
      answers.viewOf receiver = .id primary ∧ answers.serviceAllowed = true ∧ answers.pending = []
  | _ => True

instance (primary : NodeId) : DecidablePred (Action.Steady primary)
  | .token receiver _ answers =>
      inferInstanceAs (Decidable (answers.viewOf receiver = .id primary ∧
        answers.serviceAllowed = true ∧ answers.pending = []))
  | .report .. | .monitor .. | .deliver .. | .forge .. => .isTrue trivial

theorem heardBy_append (early late : List Action) :
    heardBy k (early ++ late) = heardBy k early ++ heardBy k late :=
  List.filterMap_append

theorem watches_start (found : (start c).watches[k]? = some w) :
    k < c.size ∧ w = .new (c.siteOf k) := by
  simp only [start, Cluster.nodes, List.getElem?_map, Option.map_eq_some_iff] at found
  obtain ⟨j, listed, rfl⟩ := found
  obtain ⟨inRange, rfl⟩ := List.getElem?_eq_some_iff.mp listed
  rw [List.length_range] at inRange
  exact ⟨inRange, by rw [List.getElem_range]⟩

/-- At an action a process hears a token, or else its detector hears a remark at most. -/
theorem detection_act {action : Action} (found : (e.act c action).watches[k]? = some w) :
    ∃ v, e.watches[k]? = some v ∧
      ((∃ sender answers, action = .token k sender answers ∧
          w.detection = v.detection.onToken (c.siteOf k) answers sender) ∨
        heardBy k [action] = [] ∧
          (w.detection = v.detection ∨
            ∃ sender m, w.detection = v.detection.receive (c.siteOf k) sender m)) := by
  have heard {receiver sender : NodeId} {m : Remark}
      (found : (e.change receiver fun w =>
        w.receive (c.siteOf receiver) sender m).watches[k]? = some w) :
      ∃ v, e.watches[k]? = some v ∧
        (w.detection = v.detection ∨
          ∃ sender m, w.detection = v.detection.receive (c.siteOf k) sender m) := by
    obtain ⟨v, before, ⟨rfl, rfl⟩ | ⟨-, rfl⟩⟩ := watches_change found
    · cases m with
      | suspicion m => exact ⟨v, before, .inr ⟨sender, m, rfl⟩⟩
      | opinion o => exact ⟨v, before, .inl rfl⟩
    · exact ⟨w, before, .inl rfl⟩
  cases action with
  | token receiver sender answers =>
      obtain ⟨v, before, ⟨rfl, rfl⟩ | ⟨other, rfl⟩⟩ := watches_change found
      · exact ⟨v, before, .inl ⟨sender, answers, rfl, rfl⟩⟩
      · exact ⟨w, before, .inr ⟨by simp [heardBy, Ne.symm other], .inl rfl⟩⟩
  | report j answers =>
      refine ⟨w, ?_, .inr ⟨rfl, .inl rfl⟩⟩
      rw [act] at found
      split at found <;> exact found
  | monitor j answers =>
      rw [act] at found
      split at found
      · exact ⟨w, found, .inr ⟨rfl, .inl rfl⟩⟩
      · obtain ⟨v, before, ⟨rfl, rfl⟩ | ⟨-, rfl⟩⟩ := watches_change found
        · exact ⟨v, before, .inr ⟨rfl, .inl rfl⟩⟩
        · exact ⟨w, before, .inr ⟨rfl, .inl rfl⟩⟩
  | deliver receiver index =>
      rw [act] at found
      split at found
      · exact ⟨w, found, .inr ⟨rfl, .inl rfl⟩⟩
      · obtain ⟨v, before, same⟩ := heard found
        exact ⟨v, before, .inr ⟨rfl, same⟩⟩
  | forge receiver sender m =>
      obtain ⟨v, before, same⟩ := heard found
      exact ⟨v, before, .inr ⟨rfl, same⟩⟩

/-- Every detector follows the primary of a steady run. -/
theorem follows_run (positive : 0 < c.threshold) (inRange : primary < c.size)
    (steady : ∀ action ∈ actions, action.Steady primary)
    (found : (run c actions).watches[k]? = some w) :
    w.detection.Follows (c.siteOf k) primary (heardBy k actions) := by
  induction actions using List.reverseRecOn generalizing w with
  | nil =>
      obtain ⟨member, rfl⟩ := watches_start found
      exact .new member positive
  | append_singleton actions action ih =>
      rw [run, List.foldl_append] at found
      obtain ⟨v, foundBefore, now⟩ := detection_act found
      have before := ih (fun earlier member => steady earlier (List.mem_append_left _ member))
        foundBefore
      rw [heardBy_append]
      rcases now with ⟨sender, answers, rfl, after⟩ | ⟨unheard, same | ⟨sender, m, after⟩⟩
      · obtain ⟨told, allowed, idle⟩ := steady (.token k sender answers) (by simp)
        have heard : heardBy k [.token k sender answers] = [sender] := by simp [heardBy]
        rw [after, heard]
        exact before.onToken positive inRange told allowed idle
      · rw [unheard, List.append_nil, same]
        exact before
      · rw [unheard, List.append_nil, after]
        exact before.receive m

/-- In each round every process hears one token of each other process, in their order.  The last
round of a process may be under way. -/
def InRounds (c : Cluster) (actions : List Action) : Prop :=
  ∀ k < c.size, ∃ rounds,
    heardBy k actions <+: (List.replicate rounds (c.siteOf k).others).flatten

theorem InRounds.of_prefix {early : List Action} (rounds : InRounds c actions)
    (before : early <+: actions) : InRounds c early := by
  intro k inRange
  obtain ⟨count, heard⟩ := rounds k inRange
  exact ⟨count, (before.filterMap _).trans heard⟩

end Vigil

namespace Detection

variable {site : Site} {k : NodeId}

theorem mem_others : k ∈ site.others ↔ site.isPeer k = true := by
  simp [Site.others, Site.isPeer, Cluster.nodes, and_comm]

theorem length_others (member : site.me < site.cluster.size) :
    site.others.length + 1 = site.cluster.size := by
  have erased : site.others = site.cluster.nodes.erase site.me := by
    rw [Site.others, Cluster.nodes, List.nodup_range.erase_eq_filter]
    apply List.filter_congr
    intro j _
    by_cases itself : j = site.me <;> simp [itself]
  rw [erased, Cluster.nodes, List.length_erase_of_mem (List.mem_range.mpr member),
    List.length_range, Nat.sub_add_cancel (Nat.zero_lt_of_lt member)]

/-- The turn of a process: of the others, some come before it and some after it. -/
structure Turn (site : Site) (k : NodeId) (before after : List NodeId) : Prop where
  split : site.others = before ++ k :: after
  length : before.length + after.length + 2 = site.cluster.size
  earlier : ∀ j ∈ before, site.isPeer j = true
  later : ∀ j ∈ after, site.isPeer j = true
  notEarlier : k ∉ before
  notLater : k ∉ after

theorem exists_turn (member : site.me < site.cluster.size) (peer : site.isPeer k = true) :
    ∃ before after, Turn site k before after := by
  obtain ⟨before, after, split⟩ := List.append_of_mem (mem_others.mpr peer)
  have all := length_others member
  have distinct : site.others.Nodup := List.nodup_range.filter _
  have peers {j : NodeId} (there : j ∈ before ++ k :: after) : site.isPeer j = true :=
    mem_others.mp (split ▸ there)
  rw [split, List.perm_middle.nodup_iff, List.nodup_cons, List.mem_append, not_or] at distinct
  rw [split, List.length_append, List.length_cons] at all
  exact ⟨before, after,
    { split
      length := by omega
      earlier := fun j there => peers (List.mem_append_left _ there)
      later := fun j there => peers (List.mem_append_right _ (List.mem_cons_of_mem _ there))
      notEarlier := distinct.1.1
      notLater := distinct.1.2 }⟩

namespace Turn

variable {before after senders early : List NodeId}

theorem peer (turn : Turn site k before after) : site.isPeer k = true := by
  refine mem_others.mp ?_
  rw [turn.split]
  exact List.mem_append_right _ List.mem_cons_self

/-- After a round a process has been silent since its turn. -/
theorem silence_round (turn : Turn site k before after) (senders : List NodeId) :
    silence site k (senders ++ site.others) = after.length := by
  rw [turn.split, ← List.append_assoc]
  exact silence_append_cons turn.peer turn.later turn.notLater

/-- Within a round a process is silent for longest just before its turn. -/
theorem silence_within (turn : Turn site k before after)
    (short : silence site k senders ≤ after.length) (within : early <+: site.others) :
    silence site k (senders ++ early) ≤ before.length + after.length := by
  rw [turn.split] at within
  rcases List.prefix_or_prefix_of_prefix within (List.prefix_append before (k :: after)) with
    waiting | ⟨more, rfl⟩
  · -- It is not yet its turn.
    have unheard : k ∉ early := fun heard => turn.notEarlier (waiting.subset heard)
    rw [silence_append_of_notMem (fun j there => turn.earlier j (waiting.subset there)) unheard]
    have := waiting.length_le
    omega
  · rw [List.prefix_append_right_inj] at within
    rw [← List.append_assoc]
    cases more with
    | nil =>
        rw [List.append_nil, silence_append_of_notMem turn.earlier turn.notEarlier]
        omega
    | cons j more =>
        obtain ⟨rfl, rest⟩ := List.cons_prefix_cons.mp within
        have unheard : j ∉ more := fun heard => turn.notLater (rest.subset heard)
        rw [silence_append_cons turn.peer (fun i there => turn.later i (rest.subset there)) unheard]
        have := rest.length_le
        omega

/-- Nobody who takes part in the rounds is silent for more than all others but the one that hears
them. -/
theorem silence_rounds (turn : Turn site k before after) {rounds : Nat}
    (short : silence site k senders ≤ after.length)
    (heard : early <+: (List.replicate rounds site.others).flatten) :
    silence site k (senders ++ early) ≤ before.length + after.length := by
  induction rounds generalizing senders early with
  | zero =>
      obtain rfl : early = [] := List.prefix_nil.mp heard
      rw [List.append_nil]
      omega
  | succ rounds ih =>
      rw [List.replicate_succ, List.flatten_cons] at heard
      rcases List.prefix_or_prefix_of_prefix heard (List.prefix_append site.others _) with
        within | ⟨more, rfl⟩
      · exact turn.silence_within short within
      · rw [List.prefix_append_right_inj] at heard
        rw [← List.append_assoc]
        exact ih (Nat.le_of_eq (turn.silence_round senders)) heard

/-- Just before its second turn a process has been silent for that long. -/
theorem exists_silent (turn : Turn site k before after)
    (heard : (List.replicate 2 site.others).flatten <+: senders) :
    ∃ early, early <+: senders ∧ silence site k early = before.length + after.length := by
  refine ⟨site.others ++ before, ?_, ?_⟩
  · refine List.IsPrefix.trans ?_ heard
    have twice : (List.replicate 2 site.others).flatten = site.others ++ site.others := by
      simp [List.replicate_succ]
    rw [twice, List.prefix_append_right_inj, turn.split]
    exact List.prefix_append before _
  · have round := turn.silence_round []
    rw [List.nil_append] at round
    rw [silence_append_of_notMem turn.earlier turn.notEarlier, round, Nat.add_comm]

end Turn

end Detection

namespace Vigil

variable {c : Cluster} {actions : List Action} {k primary : NodeId} {w : Watch}

/-- A primary that takes part in all rounds, and of which nothing is pending, is suspected by nobody
at any time if the cluster has at most one process more than the threshold.  In any larger cluster
every other process suspects it after two rounds. -/
theorem live_primary_trusted (positive : 0 < c.threshold)
    (unsigned : c.threshold ≤ Json.maxUnsigned) (inRange : primary < c.size)
    (steady : ∀ action ∈ actions, action.Steady primary) (rounds : InRounds c actions) :
    (c.size ≤ c.threshold + 1 →
      ∀ early, early <+: actions → ∀ (k : NodeId) (w : Watch),
        (run c early).watches[k]? = some w → w.detection.suspects k = false) ∧
    (c.threshold + 2 ≤ c.size →
      ∀ (k : NodeId) (w : Watch), (run c actions).watches[k]? = some w → k ≠ primary →
        (List.replicate 2 (c.siteOf k).others).flatten <+: heardBy k actions →
          w.detection.suspects k = true) := by
  constructor
  · intro small early before k w found
    have follows := follows_run positive inRange
      (fun action member => steady action (before.subset member)) found
    refine Bool.eq_false_iff.mpr fun suspects => ?_
    obtain ⟨other, senders, heard, missed⟩ := follows.suspects.mp suspects
    have member : k < c.size := follows.sized.member
    have peer : (c.siteOf k).isPeer primary = true := Site.isPeer_iff.mpr ⟨other, inRange⟩
    obtain ⟨ahead, behind, turn⟩ := Detection.exists_turn member peer
    obtain ⟨count, inTurn⟩ := rounds.of_prefix before k member
    have fresh : Detection.silence (c.siteOf k) primary [] ≤ behind.length := Nat.zero_le _
    have silent := turn.silence_rounds fresh (heard.trans inTurn)
    have length : ahead.length + behind.length + 2 = c.size := turn.length
    have threshold : c.threshold ≤ min (Detection.silence (c.siteOf k) primary senders) _ := missed
    rw [List.nil_append] at silent
    omega
  · intro large k w found other twice
    have follows := follows_run positive inRange steady found
    have member : k < c.size := follows.sized.member
    have peer : (c.siteOf k).isPeer primary = true :=
      Site.isPeer_iff.mpr ⟨Ne.symm other, inRange⟩
    obtain ⟨ahead, behind, turn⟩ := Detection.exists_turn member peer
    obtain ⟨early, heard, silent⟩ := turn.exists_silent twice
    have length : ahead.length + behind.length + 2 = c.size := turn.length
    refine follows.suspects.mpr ⟨Ne.symm other, early, heard, ?_⟩
    rw [silent]
    exact Nat.le_min.mpr ⟨by change c.threshold ≤ _; omega, unsigned⟩

/-- Rounds in which every process hears one token of each other process, and is told that they are
in the view of this primary. -/
def roundsOfTokens (c : Cluster) (primary : NodeId) (rounds : Nat) : List Action :=
  (List.replicate rounds (c.nodes.flatMap fun k => (c.siteOf k).others.map fun j =>
    .token k j { Ensemble.reporting primary with serviceAllowed := true })).flatten

/-- Eleven processes trust their primary. -/
theorem eleven_trust_primary :
    let c := Cluster.new 11 2
    let actions := roundsOfTokens c 1 2
    (0 < c.threshold ∧ c.threshold ≤ Json.maxUnsigned ∧ 1 < c.size) ∧
      (∀ action ∈ actions, action.Steady 1) ∧ InRounds c actions ∧ c.size ≤ c.threshold + 1 ∧
      ∃ w, (run c actions).watches[0]? = some w ∧ w.detection.suspects 0 = false := by
  intro c actions
  have steady : ∀ action ∈ actions, action.Steady 1 := by decide +kernel
  have heard : ∀ k < c.size,
      heardBy k actions <+: (List.replicate 2 (c.siteOf k).others).flatten := by decide +kernel
  have rounds : InRounds c actions := fun k inRange => ⟨2, heard k inRange⟩
  have trusted := live_primary_trusted (by decide) (by decide) (by decide) steady rounds
  have there : (run c actions).watches[0]?.isSome = true := by decide +kernel
  obtain ⟨w, found⟩ := Option.isSome_iff_exists.mp there
  exact ⟨by decide, steady, rounds, by decide, w, found,
    trusted.1 (by decide) actions List.prefix_rfl 0 w found⟩

/-- Twelve processes do not: the token of the tenth other process comes before the next one of the
primary. -/
theorem twelve_suspect_primary :
    let c := Cluster.new 12 2
    let actions := roundsOfTokens c 1 1
    (5 * c.faults < c.size ∧ c.threshold = 10) ∧ (∀ action ∈ actions, action.Steady 1) ∧
      (∀ k < c.size, heardBy k actions = (c.siteOf k).others) ∧
      (run c actions).watches[0]?.map (fun w => w.detection.suspects 0) = some true := by
  decide +kernel

end Vigil

end QuorumList
