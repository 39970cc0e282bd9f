import QuorumList.Proofs.Lineage

/-!
Acknowledged requests.

A replica acknowledges a request that it has taken in among its pending ones, and also one whose
origin it has pending already.  From then on, as long as the replica does not flush, the request
stays pending until it is overtaken in the history.  There are two ways out.  A follower that enters
a new view copies the record of the primary, pending requests and all, and so loses what only it had
pending.  And a replica that adopts a common history loses from its own one what is not in the
other.
-/
namespace QuorumList

namespace Agreement

variable {site : Site} {s t : Agreement} {answers : Answers}
  {lines : NodeId → List AssignedRequest} {q : ClientRequest}

/-! ### How requests are lost -/

/-- In this round the replica copies the record of a new primary that does not account for the
request. -/
def CopiesAway (q : ClientRequest) (site : Site) (answers : Answers)
    (lines : NodeId → List AssignedRequest) (s : Agreement) : Prop :=
  ∃ primary, answers.viewOf site.me = .id primary ∧ s.roundCopies site answers = true ∧
    ¬ (s.recordOf primary).AccountsFor (lines primary) q

/-- In this round the replica gives up a history in which the request is overtaken for another one
in which it is not. -/
def GivesUp (q : ClientRequest) (site : Site) (answers : Answers)
    (lines : NodeId → List AssignedRequest) (s : Agreement) : Prop :=
  (Overtaken (lines site.me) q ∨ Overtaken (lines (s.enteredFrom site answers)) q) ∧
    ¬ Overtaken (lines (s.continuedFrom site answers)) q

/-- Across a round that does not flush, a request stays accounted for; unless the replica copies a
record that does not account for it, or gives up its history. -/
theorem accountsFor_round (documented : s.Documented site lines)
    (noFlush : .localFlush ∉ (s.round site answers).events)
    (accounts : (s.own site).AccountsFor (lines site.me) q) :
    ((s.round site answers).state.own site).AccountsFor (s.roundLine site answers lines) q ∨
      s.CopiesAway q site answers lines ∨ s.GivesUp q site answers lines := by
  rw [localFlush_mem_events_round, not_or, Bool.not_eq_true] at noFlush
  obtain ⟨quiet, calm⟩ := noFlush
  have honoured := documented.honourFlush
  have same : s.honourFlush site = s := by simp [honourFlush, quiet]
  have sameLines : s.honouredLines site lines = lines := by simp [honouredLines, quiet]
  cases told : answers.viewOf site.me with
  | tee =>
      left
      rwa [state_round, roundLine, told, same, sameLines]
  | id primary =>
      have calm : ((s.honourFlush site).enterView site (.id primary) primary).mustFlush site =
          false := Bool.eq_false_iff.mpr fun must => calm ⟨primary, told, must⟩
      have goesOn := succeeds_round documented told calm
      have history : lines (s.continuedFrom site answers) ⊆ s.roundLine site answers lines := by
        simp only [roundLine, told, calm, sameLines]
        exact List.subset_append_left _ _
      by_cases continued : Overtaken (lines (s.continuedFrom site answers)) q
      · exact .inl (.inr (continued.of_subset history))
      · -- From here on the request was lost on the way, unless it is still pending.
        have entering : (((s.honourFlush site).enterView site (.id primary) primary).own
              site).AccountsFor (lines (s.enteredFrom site answers)) q →
            ((s.round site answers).state.own site).AccountsFor (s.roundLine site answers lines) q ∨
              s.CopiesAway q site answers lines ∨ s.GivesUp q site answers lines := by
          rintro (pending | overtaken)
          · exact .inl (goesOn.pending q pending)
          · exact .inr (.inr ⟨.inr overtaken, continued⟩)
        cases copies : s.roundCopies site answers with
        | true =>
            by_cases known : (s.recordOf primary).AccountsFor (lines primary) q
            · exact entering (accountsFor_enterView_of_copies documented.inOrder.inTable told copies
                known)
            · exact .inr (.inl ⟨primary, told, copies, known⟩)
        | false =>
            by_cases past : Overtaken (lines site.me) q
            · exact .inr (.inr ⟨.inl past, continued⟩)
            · rw [sameLines] at honoured
              refine entering (accountsFor_enterView honoured told copies ?_ past)
              rw [same]
              exact accounts.resolve_right past

/-! ### Between rounds -/

/-- A request is acknowledged when one of its origin is pending then. -/
theorem exists_pending_of_submit (inTable : site.me < s.records.length)
    (accepted : s.submit site q = .ok t) :
    ∃ p : ClientRequest, p.sameOrigin q = true ∧ (p = q ∨ p ∈ (s.own site).pending) ∧
      p ∈ (t.own site).pending := by
  unfold submit at accepted
  dsimp only at accepted
  split at accepted
  · contradiction
  · split at accepted
    · contradiction
    · split at accepted
      · next known =>
          obtain ⟨p, pending, sameOrigin⟩ := List.any_eq_true.mp known
          obtain rfl := Except.ok.inj accepted
          exact ⟨p, sameOrigin, .inr pending, pending⟩
      · split at accepted
        · contradiction
        · obtain rfl := Except.ok.inj accepted
          refine ⟨q, by simp [ClientRequest.sameOrigin], .inl rfl, ?_⟩
          rw [own_updateOwn inTable]
          exact List.mem_append_right _ (List.mem_singleton_self q)

/-- Buffering a request leaves those pending that are. -/
theorem pending_submit (inTable : site.me < s.records.length) (q : ClientRequest) :
    (s.own site).pending ⊆ (((s.submit site q).toOption.getD s).own site).pending := by
  rcases submit_eq_or site s q with same | ⟨-, buffered⟩
  · rw [same]
    exact List.Subset.refl _
  · rw [buffered, own_updateOwn inTable]
    exact List.subset_append_left _ _

end Agreement

namespace Ensemble

variable {c : Cluster} {e : Ensemble} {h : Histories} {k : NodeId} {s t : Agreement}
  {p q : ClientRequest}

/-! ### What happens to a replica -/

/-- Only its own rounds put another history behind the record of a replica. -/
theorem held_own_note {action : Action} (between : ∀ answers, action ≠ .round k answers) :
    (h.note c e action).held k k = h.held k k := by
  cases action with
  | submit | ask => rfl
  | round j answers =>
      have other : k ≠ j := fun same => between answers (same ▸ rfl)
      rw [Histories.note]
      split
      · rfl
      · exact congrFun (Function.update_of_ne other ..) k
  | deliver receiver index =>
      rw [Histories.note]
      split
      · next s sender r _ _ =>
          dsimp only [Histories.put]
          by_cases here : k = receiver
          · subst here
            rw [Function.update_self]
            split
            · next peer =>
                exact Function.update_of_ne (Ne.symm (Site.isPeer_iff.mp peer).1) ..
            · rfl
          · exact congrFun (Function.update_of_ne here ..) k
      · rfl

/-- Between its rounds a replica keeps its pending requests. -/
theorem pending_act {action : Action} (sized : e.Sized c)
    (between : ∀ answers, action ≠ .round k answers) (found : e.replicas[k]? = some s)
    (after : (e.act c action).replicas[k]? = some t) :
    (s.own (c.siteOf k)).pending ⊆ (t.own (c.siteOf k)).pending := by
  have same (u : Agreement) (there : e.replicas[k]? = some u) :
      (s.own (c.siteOf k)).pending ⊆ (u.own (c.siteOf k)).pending := by
    rw [Option.some.inj (found.symm.trans there)]
    exact List.Subset.refl _
  have changed {j : NodeId} {u v : Agreement} (there : e.replicas[j]? = some u)
      (keeps : j = k → (u.own (c.siteOf j)).pending ⊆ (v.own (c.siteOf j)).pending) :
      ∀ t, (e.put j v).replicas[k]? = some t →
        (s.own (c.siteOf k)).pending ⊆ (t.own (c.siteOf k)).pending := by
    intro t after
    rcases replicas_put after with ⟨rfl, rfl⟩ | ⟨-, before⟩
    · exact List.Subset.trans (same u there) (keeps rfl)
    · exact same t before
  revert t
  apply act_cases (P := fun e => ∀ t, e.replicas[k]? = some t →
    (s.own (c.siteOf k)).pending ⊆ (t.own (c.siteOf k)).pending) action same
  · intro j u q _ there
    exact changed there fun _ => Agreement.pending_submit (sized.inTable there) q
  · intro j u sender r there _
    refine changed there fun _ => ?_
    rw [Agreement.own_receive]
    exact List.Subset.refl _
  · intro j u answers isRound there
    exact changed there fun isMe => absurd isRound (isMe ▸ between answers)
  · intro j u v function reply _ there answered
    refine changed there fun _ => ?_
    rw [Agreement.own, Agreement.own, Agreement.recordOf, Agreement.recordOf,
      Agreement.records_call answered]
    exact List.Subset.refl _

/-- Across an action in which the replica does not flush, a request stays accounted for; unless the
action is a round in which it is lost. -/
theorem accountsFor_act (documented : Documented c e h) {action : Action}
    (found : e.replicas[k]? = some s) (after : (e.act c action).replicas[k]? = some t)
    (noFlush : (e.act c action).events.count (k, .localFlush) =
      e.events.count (k, .localFlush))
    (accounts : (s.own (c.siteOf k)).AccountsFor (h.held k k) p) :
    (t.own (c.siteOf k)).AccountsFor ((h.note c e action).held k k) p ∨
      ∃ answers, action = .round k answers ∧
        (s.CopiesAway p (c.siteOf k) answers (h.held k) ∨
          s.GivesUp p (c.siteOf k) answers (h.held k)) := by
  by_cases isRound : ∃ answers, action = .round k answers
  · obtain ⟨answers, rfl⟩ := isRound
    rw [act, found] at after noFlush
    obtain rfl : t = (s.round (c.siteOf k) answers).state :=
      ((replicas_put after).resolve_right fun different => different.1 rfl).2
    have quiet : .localFlush ∉ (s.round (c.siteOf k) answers).events := by
      dsimp only at noFlush
      rw [List.count_append, Nat.add_eq_left, List.count_eq_zero] at noFlush
      exact mt (List.mem_map_of_mem (f := fun event => (k, event))) noFlush
    rw [Histories.note, found]
    dsimp only [Histories.put]
    rw [Function.update_self, Function.update_self]
    exact (Agreement.accountsFor_round (documented.tables k s found) quiet accounts).imp_right
      fun lost => ⟨answers, rfl, lost⟩
  · have between : ∀ answers, action ≠ .round k answers :=
      fun answers isIt => isRound ⟨answers, isIt⟩
    rw [held_own_note between]
    exact .inl (accounts.imp_left fun pending =>
      pending_act documented.sized between found after pending)

/-! ### Runs -/

/-- In some round of the replica between two times this happens. -/
def InSomeRound (c : Cluster) (before between : List Action) (k : NodeId)
    (happens : Site → Answers → (NodeId → List AssignedRequest) → Agreement → Prop) : Prop :=
  ∃ early answers late s, between = early ++ .round k answers :: late ∧
    (run c (before ++ early)).replicas[k]? = some s ∧
    happens (c.siteOf k) answers ((histories c (before ++ early)).held k) s

theorem InSomeRound.append_singleton {before between : List Action}
    {happens : Site → Answers → (NodeId → List AssignedRequest) → Agreement → Prop}
    (happened : InSomeRound c before between k happens) (action : Action) :
    InSomeRound c before (between ++ [action]) k happens := by
  obtain ⟨early, answers, late, s, rfl, there⟩ := happened
  exact ⟨early, answers, late ++ [action], s, by simp, there⟩

theorem count_events_run (x : NodeId × Event) (before between : List Action) :
    (run c before).events.count x ≤ (run c (before ++ between)).events.count x := by
  induction between using List.reverseRecOn with
  | nil => rw [List.append_nil]
  | append_singleton between action ih =>
      rw [← List.append_assoc, run_append_singleton]
      exact Nat.le_trans ih (count_events_act x action)

/-- A request that is accounted for once stays so until the replica flushes, copies it away or gives
up the history. -/
theorem accountsFor_run {before : List Action}
    (found : (run c before).replicas[k]? = some s)
    (accounts : (s.own (c.siteOf k)).AccountsFor ((histories c before).held k k) p)
    (between : List Action) (after : (run c (before ++ between)).replicas[k]? = some t)
    (noFlush : (run c (before ++ between)).events.count (k, .localFlush) =
      (run c before).events.count (k, .localFlush)) :
    (t.own (c.siteOf k)).AccountsFor ((histories c (before ++ between)).held k k) p ∨
      InSomeRound c before between k (Agreement.CopiesAway p) ∨
      InSomeRound c before between k (Agreement.GivesUp p) := by
  induction between using List.reverseRecOn generalizing t with
  | nil =>
      rw [List.append_nil, found] at after
      rw [List.append_nil, ← Option.some.inj after]
      exact .inl accounts
  | append_singleton between action ih =>
      rw [← List.append_assoc, run_append_singleton] at after noFlush
      rw [← List.append_assoc, histories_append_singleton]
      have sofar := count_events_run (c := c) (k, .localFlush) before between
      have last := count_events_act (c := c) (e := run c (before ++ between)) (k, .localFlush)
        action
      obtain ⟨u, there⟩ : ∃ u, (run c (before ++ between)).replicas[k]? = some u := by
        obtain ⟨inRange, -⟩ := List.getElem?_eq_some_iff.mp after
        rw [length_replicas_act] at inRange
        exact ⟨_, List.getElem?_eq_getElem inRange⟩
      rcases ih there (by omega) with stays | copied | givenUp
      · rcases accountsFor_act (documented_run c _) there after (by omega) stays with
          now | ⟨answers, rfl, lost⟩
        · exact .inl now
        · have here : ∀ happens, happens (c.siteOf k) answers
              ((histories c (before ++ between)).held k) u →
              InSomeRound c before (between ++ [.round k answers]) k happens :=
            fun happens it => ⟨between, answers, [], u, rfl, there, it⟩
          exact .inr (lost.imp (here _) (here _))
      · exact .inr (.inl (copied.append_singleton action))
      · exact .inr (.inr (givenUp.append_singleton action))

/-- Nothing acknowledged is lost but to another record.  When a replica acknowledges a request, then
this one is pending, or one of its origin that was pending already.  As long as the replica does not
flush, the request stays pending, or the history that the list results from holds a request of its
client with the same timestamp or a later one; unless the replica has copied the record of a new
primary that had neither, or has exchanged a history with such a request for one without. -/
theorem acknowledged_stays_accounted_for {before : List Action} {s' : Agreement}
    (found : (run c before).replicas[k]? = some s)
    (accepted : s.submit (c.siteOf k) q = .ok s') :
    ∃ p : ClientRequest, p.sameOrigin q = true ∧
      (p = q ∨ p ∈ (s.own (c.siteOf k)).pending) ∧ p ∈ (s'.own (c.siteOf k)).pending ∧
      ∀ between t, (run c (before ++ [.submit k q] ++ between)).replicas[k]? = some t →
        (run c (before ++ [.submit k q] ++ between)).events.count (k, .localFlush) =
          (run c before).events.count (k, .localFlush) →
        let line := (histories c (before ++ [.submit k q] ++ between)).held k k
        (t.own (c.siteOf k)).ResultsFrom c.logCapacity line ∧
          (p ∈ (t.own (c.siteOf k)).pending ∨ Overtaken line p ∨
            InSomeRound c (before ++ [.submit k q]) between k (Agreement.CopiesAway p) ∨
            InSomeRound c (before ++ [.submit k q]) between k (Agreement.GivesUp p)) := by
  obtain ⟨p, sameOrigin, which, pending⟩ :=
    Agreement.exists_pending_of_submit ((documented_run c before).sized.inTable found) accepted
  refine ⟨p, sameOrigin, which, pending, fun between t after noFlush => ?_⟩
  have submitted : (run c (before ++ [.submit k q])).replicas[k]? = some s' := by
    rw [run_append_singleton, act, found]
    dsimp only
    rw [accepted]
    exact replicas_put_self found s'
  have events : (run c (before ++ [.submit k q])).events = (run c before).events := by
    rw [run_append_singleton, act, found]
    rfl
  refine ⟨((documented_run c _).tables k t after).results k, ?_⟩
  rw [← or_assoc]
  exact accountsFor_run submitted (.inl pending) between after (events ▸ noFlush)

/-- Two replicas, none of which is ever faulty. -/
def twoReplicas : Cluster :=
  .new 2 0

/-- The first replica leads the first view, and the other one follows it. -/
def settlingIn : List Action :=
  [.round 0 (reporting 0), .deliver 1 0, .round 1 (reporting 0)]

/-- The first replica executes a request of the client with a later timestamp, and the other one
hears of it. -/
def overtaking : List Action :=
  [.submit 0 (timedRequest 0 5), .round 0 (reporting 0), .deliver 1 2, .round 1 (reporting 0)]

/-- What can be seen of a submission: what the replica has pending at once, if it acknowledges the
request; and in the end what it has pending, how often it has flushed, and what it has executed. -/
def observe (c : Cluster) (before : List Action) (k : NodeId) (q : ClientRequest)
    (between : List Action) :
    Option (List ClientRequest) × Option (List ClientRequest) × Nat × List ClientRequest :=
  let after := before ++ [.submit k q] ++ between
  ((run c before).replicas[k]?.bind fun s =>
      (s.submit (c.siteOf k) q).toOption.map fun s' => (s'.own (c.siteOf k)).pending,
    (run c after).replicas[k]?.map fun t => (t.own (c.siteOf k)).pending,
    (run c after).events.count (k, .localFlush),
    ((histories c after).held k k).map AssignedRequest.request)

/-- In the end the request is still pending. -/
theorem observe_waiting :
    observe twoReplicas settlingIn 1 (timedRequest 0 3) [.round 1 (reporting 0)] =
      (some [timedRequest 0 3], some [timedRequest 0 3], 0, []) := by
  cbv

/-- In the end the request is not pending, but its client has overtaken it. -/
theorem observe_overtaking :
    observe twoReplicas settlingIn 1 (timedRequest 0 3) overtaking =
      (some [timedRequest 0 3], some [], 0, [timedRequest 0 5]) := by
  cbv

/-- The follower enters the view, and in the end the request is neither pending nor executed. -/
theorem observe_settlingIn :
    observe twoReplicas [] 1 (timedRequest 0 3) settlingIn =
      (some [timedRequest 0 3], some [], 0, []) := by
  cbv

theorem exists_of_observe {before between : List Action}
    {buffered pending executed : List ClientRequest} {flushes : Nat}
    (seen : observe c before k q between = (some buffered, some pending, flushes, executed)) :
    ∃ s s' t, (run c before).replicas[k]? = some s ∧ s.submit (c.siteOf k) q = .ok s' ∧
      (s'.own (c.siteOf k)).pending = buffered ∧
      (run c (before ++ [.submit k q] ++ between)).replicas[k]? = some t ∧
      (t.own (c.siteOf k)).pending = pending ∧
      (run c (before ++ [.submit k q] ++ between)).events.count (k, .localFlush) = flushes ∧
      ((histories c (before ++ [.submit k q] ++ between)).held k k).map
        AssignedRequest.request = executed := by
  simp only [observe, Prod.mk.injEq] at seen
  obtain ⟨accepts, isPending, count, isExecuted⟩ := seen
  obtain ⟨s, found, accepts⟩ := Option.bind_eq_some_iff.mp accepts
  obtain ⟨s', isOk, atOnce⟩ := Option.map_eq_some_iff.mp accepts
  obtain ⟨t, after, pending⟩ := Option.map_eq_some_iff.mp isPending
  cases accepted : s.submit (c.siteOf k) q with
  | error => simp [accepted, Except.toOption] at isOk
  | ok b =>
      rw [accepted] at isOk
      obtain rfl : b = s' := Option.some.inj isOk
      exact ⟨s, b, t, found, accepted, atOnce, after, pending, count, isExecuted⟩

/-- A replica acknowledges a request; in the end its list results from a history of the requests
given, and there is something to say of its state and that history. -/
def Accounted (c : Cluster) (before : List Action) (k : NodeId) (q : ClientRequest)
    (between : List Action) (executed : List ClientRequest)
    (how : Agreement → List AssignedRequest → Prop) : Prop :=
  ∃ s s' t, (run c before).replicas[k]? = some s ∧ s.submit (c.siteOf k) q = .ok s' ∧
    (run c (before ++ [.submit k q] ++ between)).replicas[k]? = some t ∧
    let line := (histories c (before ++ [.submit k q] ++ between)).held k k
    (t.own (c.siteOf k)).ResultsFrom c.logCapacity line ∧
      line.map AssignedRequest.request = executed ∧ how t line

theorem Accounted.imp {before between : List Action} {executed : List ClientRequest}
    {how how' : Agreement → List AssignedRequest → Prop}
    (accounted : Accounted c before k q between executed how)
    (brings : ∀ t line, line.map AssignedRequest.request = executed → how t line → how' t line) :
    Accounted c before k q between executed how' := by
  obtain ⟨s, s', t, found, accepted, after, results, isExecuted, it⟩ := accounted
  exact ⟨s, s', t, found, accepted, after, results, isExecuted, brings t _ isExecuted it⟩

/-- The only round of the follower while the replicas settle in. -/
theorem eq_of_settlingIn_eq {early late : List Action} {answers : Answers}
    (parts : settlingIn = early ++ .round 1 answers :: late) :
    early = [.round 0 (reporting 0), .deliver 1 0] ∧ answers = reporting 0 := by
  match early, parts with
  | [_, _], parts =>
      simp only [settlingIn, List.cons_append, List.nil_append, List.cons.injEq,
        Action.round.injEq] at parts
      obtain ⟨rfl, rfl, ⟨-, same⟩, -⟩ := parts
      exact ⟨rfl, same.symm⟩
  | [], parts => simp [settlingIn] at parts
  | [_], parts => simp [settlingIn] at parts
  | _ :: _ :: _ :: _, parts => simp [settlingIn] at parts

/-- When the follower enters the view, nobody has executed anything. -/
theorem unexecuted_settlingIn :
    let actions := [.submit 1 (timedRequest 0 3), .round 0 (reporting 0), .deliver 1 0]
    let lines := (histories twoReplicas actions).held 1
    lines 1 = [] ∧ (run twoReplicas actions).replicas[1]?.map (fun s =>
      lines (s.enteredFrom (twoReplicas.siteOf 1) (reporting 0))) = some [] := by
  cbv

theorem not_overtaken_nil : ¬ Overtaken [] q :=
  fun ⟨_, member, _⟩ => List.not_mem_nil member

theorem not_givesUp_settlingIn :
    ¬ InSomeRound twoReplicas [.submit 1 (timedRequest 0 3)] settlingIn 1
      (Agreement.GivesUp (timedRequest 0 3)) := by
  rintro ⟨early, answers, late, s, parts, found, overtaken, -⟩
  obtain ⟨rfl, rfl⟩ := eq_of_settlingIn_eq parts
  obtain ⟨own, entered⟩ := unexecuted_settlingIn
  obtain ⟨s', found', entered⟩ := Option.map_eq_some_iff.mp entered
  obtain rfl := Option.some.inj (found.symm.trans found')
  rcases overtaken with mine | others
  · exact not_overtaken_nil (own ▸ mine)
  · exact not_overtaken_nil (entered ▸ others)

/-- A request waits while nobody orders it; it is overtaken when a later one of its client is
executed; and a follower that alone has it pending loses it when it copies the record of a new
primary. -/
theorem acknowledged_requests_accounted_for :
    Accounted twoReplicas settlingIn 1 (timedRequest 0 3) [.round 1 (reporting 0)] []
      (fun t _ => timedRequest 0 3 ∈ (t.own (twoReplicas.siteOf 1)).pending) ∧
    Accounted twoReplicas settlingIn 1 (timedRequest 0 3) overtaking [timedRequest 0 5]
      (fun _ line => Overtaken line (timedRequest 0 3)) ∧
    Accounted twoReplicas [] 1 (timedRequest 0 3) settlingIn []
      (fun _ _ => InSomeRound twoReplicas [.submit 1 (timedRequest 0 3)] settlingIn 1
        (Agreement.CopiesAway (timedRequest 0 3))) := by
  have account {before between : List Action} {pending executed : List ClientRequest}
      (seen : observe twoReplicas before 1 (timedRequest 0 3) between =
        (some [timedRequest 0 3], some pending, 0, executed)) :
      Accounted twoReplicas before 1 (timedRequest 0 3) between executed fun t line =>
        (t.own (twoReplicas.siteOf 1)).pending = pending ∧
          (timedRequest 0 3 ∈ pending ∨ Overtaken line (timedRequest 0 3) ∨
            InSomeRound twoReplicas (before ++ [.submit 1 (timedRequest 0 3)]) between 1
              (Agreement.CopiesAway (timedRequest 0 3)) ∨
            InSomeRound twoReplicas (before ++ [.submit 1 (timedRequest 0 3)]) between 1
              (Agreement.GivesUp (timedRequest 0 3))) := by
    obtain ⟨s, s', t, found, accepted, atOnce, after, rfl, flushes, executed⟩ :=
      exists_of_observe seen
    have unflushed : (run twoReplicas before).events.count (1, .localFlush) = 0 := by
      have bound := count_events_run (c := twoReplicas) (1, .localFlush) before
        ([.submit 1 (timedRequest 0 3)] ++ between)
      rw [← List.append_assoc, flushes] at bound
      exact Nat.le_zero.mp bound
    obtain ⟨p, -, -, buffered, stays⟩ := acknowledged_stays_accounted_for found accepted
    rw [atOnce, List.mem_singleton] at buffered
    subst buffered
    have ⟨results, accounts⟩ := stays between t after (flushes.trans unflushed.symm)
    exact ⟨s, s', t, found, accepted, after, results, executed, rfl, accounts⟩
  refine ⟨(account observe_waiting).imp ?_, (account observe_overtaking).imp ?_,
    (account observe_settlingIn).imp ?_⟩
  · rintro t line - ⟨pending, -⟩
    rw [pending]
    exact List.mem_cons_self
  · rintro t line executed -
    obtain ⟨a, rfl, isLater⟩ := List.map_eq_singleton_iff.mp executed
    exact ⟨a, List.mem_cons_self, by rw [isLater]; decide⟩
  · rintro t line executed ⟨-, isPending | isOvertaken | copied | givenUp⟩
    · exact absurd isPending List.not_mem_nil
    · rw [List.map_eq_nil_iff.mp executed] at isOvertaken
      exact absurd isOvertaken not_overtaken_nil
    · exact copied
    · exact absurd givenUp not_givesUp_settlingIn

/-- The replica acknowledges the request; in the end it has not flushed, and neither has the request
pending nor has executed it. -/
def Loses (c : Cluster) (before : List Action) (k : NodeId) (q : ClientRequest)
    (between : List Action) : Prop :=
  ∃ s s' t, (run c before).replicas[k]? = some s ∧ s.submit (c.siteOf k) q = .ok s' ∧
    (run c (before ++ [.submit k q] ++ between)).replicas[k]? = some t ∧
    (run c (before ++ [.submit k q] ++ between)).events.count (k, .localFlush) = 0 ∧
    q ∉ (t.own (c.siteOf k)).pending ∧
    q ∉ ((histories c (before ++ [.submit k q] ++ between)).held k k).map AssignedRequest.request

theorem Loses.of_observe {before between : List Action}
    {buffered pending executed : List ClientRequest}
    (seen : observe c before k q between = (some buffered, some pending, 0, executed))
    (absent : q ∉ pending ++ executed) : Loses c before k q between := by
  obtain ⟨s, s', t, found, accepted, -, after, rfl, count, rfl⟩ := exists_of_observe seen
  rw [List.mem_append, not_or] at absent
  exact ⟨s, s', t, found, accepted, after, count, absent⟩

/-- An acknowledged request is lost at once where one of its origin with another operation is
pending; a follower loses what only it had pending when it enters a view; and a request is lost that
its client has overtaken. -/
theorem acknowledged_requests_lost :
    5 * twoReplicas.faults < twoReplicas.size ∧
      Loses twoReplicas [.submit 0 (timedRequest 0 1)] 0
        { timedRequest 0 1 with operation := .append 2 } [] ∧
      Loses twoReplicas [] 1 (timedRequest 0 3) settlingIn ∧
      Loses twoReplicas settlingIn 1 (timedRequest 0 3) overtaking := by
  have second : observe twoReplicas [.submit 0 (timedRequest 0 1)] 0
      { timedRequest 0 1 with operation := .append 2 } [] =
        (some [timedRequest 0 1], some [timedRequest 0 1], 0, []) := by cbv
  exact ⟨by decide, .of_observe second (by decide), .of_observe observe_settlingIn (by decide),
    .of_observe observe_overtaking (by decide)⟩

end Ensemble

end QuorumList
