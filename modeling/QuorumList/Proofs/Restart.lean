import QuorumList.Node.Basic
import QuorumList.Proofs.Phases
import QuorumList.Proofs.Stances

/-!
Starting over.

A process whose establishment starts over is in no view.  It stays in none, whatever it hears, until
it establishes one, and on that occasion it has agreement drop its record.  The request is a mark
that stays until the next round of agreement, and a round looks at the mark before it looks at the
view.  So no record from before the restart is ever used in a view established after it.
-/
namespace QuorumList

namespace Agreement

variable {site : Site} {s : Agreement} {answers : Answers}

/-- The round of this replica is the one that it would run with the record of a fresh replica in
place of its own and without a mark to flush, and it counts one more flush. -/
def FlushesFirst (site : Site) (answers : Answers) (s : Agreement) : Prop :=
  let flushed : Agreement :=
    { s with
      records := s.records.set site.me (.new site.cluster.clients)
      flush := false }
  let outcome := flushed.round site answers
  flushed.own site = .new site.cluster.clients ∧
    s.round site answers = { outcome with events := .localFlush :: outcome.events }

theorem flushOwn_eq_set (site : Site) (s : Agreement) :
    s.flushOwn site = { s with records := s.records.set site.me (.new site.cluster.clients) } := by
  have : Inhabited Record := ⟨.blank⟩
  rw [flushOwn, updateOwn, List.modify_eq_set]

/-- A round honours a mark to flush before it looks at the view. -/
theorem flushesFirst_of_marked (marked : s.flush = true) (inTable : site.me < s.records.length) :
    s.FlushesFirst site answers := by
  refine ⟨by simp [own, recordOf, inTable], ?_⟩
  unfold round
  simp only [marked, if_true, flushOwn_eq_set, Bool.false_eq_true, if_false, List.nil_append]
  cases answers.viewOf site.me <;> rfl

end Agreement

namespace Establishment

variable {site : Site} {s : Establishment}

/-- The process is in no view, whichever it may be moving to. -/
def Viewless (site : Site) (s : Establishment) : Prop :=
  (s.own site).pair.current = .tee

theorem currentView_of_viewless (unforced : site.switches.forceView = none)
    (viewless : s.Viewless site) : s.currentView site site.me = .tee := by
  unfold currentView ownView
  simp only [unforced, if_true]
  split
  · rfl
  · split
    · exact viewless
    · rfl

/-- Without a view of its own, a process moves to the next view of the target but not into its
present one.  The target could only be taken as it is if it moved to no view. -/
theorem current_adoptedPair {mine target : ViewPair} (viewless : mine.current = .tee)
    (defined : target.next ≠ .tee) : (adoptedPair mine target).current = .tee := by
  have moves : mine.current ≠ target.next := by
    rw [viewless]
    exact Ne.symm defined
  simp only [adoptedPair, if_neg moves]
  exact viewless

theorem viewless_setOwn (sized : s.Sized site) {x : Stance} :
    (s.setOwn site x).Viewless site ↔ x.pair.current = .tee := by
  rw [Viewless, own_setOwn sized]

theorem viewless_resetAll (sized : s.Sized site) : s.resetAll.state.Viewless site := by
  rw [Viewless, own_resetAll sized]
  rfl

/-- A process in no view stays in none, or it establishes one and has its record dropped. -/
theorem Viewless.perform (viewless : s.Viewless site) (sized : s.Sized site) (action : Case)
    (defined : ∀ k, action = .adopt k → (s.pairOf k).next ≠ .tee) :
    (s.perform site action).state.Viewless site ∨
      .replicaFlush ∈ (s.perform site action).directives := by
  cases action with
  | adopt k =>
      left
      exact (viewless_setOwn sized).mpr (current_adoptedPair viewless (defined k rfl))
  | advance =>
      unfold Establishment.perform
      dsimp only
      split
      · left
        exact (viewless_setOwn sized).mpr viewless
      · right
        have none : (s.own site).pair.current.isTee = true := by
          rw [viewless]
          rfl
        simp [establish, none]
  | stay => exact .inl viewless
  | reset => exact .inl (viewless_resetAll sized)

theorem next_ne_tee_of_typeCheck {n : Nat} {pair : ViewPair} (fine : pair.typeCheck n = true) :
    pair.next ≠ .tee := by
  intro undefined
  simp [ViewPair.typeCheck, undefined, View.isTee] at fine

theorem Viewless.round (viewless : s.Viewless site) (sized : s.Sized site) (answers : Answers) :
    (s.round site answers).state.Viewless site ∨
      .replicaFlush ∈ (s.round site answers).directives := by
  refine round_cases
    (P := fun outcome => outcome.state.Viewless site ∨ .replicaFlush ∈ outcome.directives)
    (.inl (viewless_resetAll sized.sanitizePeers)) fun _ _ => ?_
  have tidied : (s.sanitizePeers site).Viewless site := by
    rw [Viewless, own_sanitizePeers]
    exact viewless
  refine tidied.perform sized.sanitizePeers _ fun k adopts => ?_
  obtain ⟨other, inRange⟩ := of_select_eq_adopt adopts
  exact next_ne_tee_of_typeCheck (typeCheck_sanitizePeers sized other inRange)

/-- A round that starts over leaves the process in no view. -/
theorem viewless_of_reset (sized : s.Sized site) {answers : Answers}
    (resets : .reset ∈ (s.round site answers).events) :
    (s.round site answers).state.Viewless site := by
  revert resets
  refine round_cases (P := fun outcome => .reset ∈ outcome.events → outcome.state.Viewless site)
    (fun _ => viewless_resetAll sized.sanitizePeers) fun goesOn _ resets => ?_
  exact absurd resets (reset_not_mem_events_perform goesOn)

end Establishment

namespace Node

/-! ### Runs of a process -/

/-- Something that happens at a process. -/
inductive Action where
  | run (component : Component)
  | submit (q : ClientRequest)
  /-- A text arrives on the link of a process. -/
  | hear (link : NodeId) (text : Text)
  | dispatch (message : Message)

/-- What an action makes of a process; messages that it sends are left aside. -/
def act (node : Node) : Action → Node
  | .run component => (node.round component).1
  | .submit q => (node.submit q).1
  | .hear link text => (node.onMessage link text).1
  | .dispatch message => node.dispatch message

/-- What a sequence of actions makes of a process. -/
def runs (node : Node) (actions : List Action) : Node :=
  actions.foldl act node

/-- In this action establishment starts over. -/
def startsOver (node : Node) : Action → Bool
  | .run .establishment =>
      node.establishment.any fun e => (e.round node.site node.answers).events.contains .reset
  | _ => false

/-- In this action establishment asks agreement to drop its record. -/
def asksFlush (node : Node) : Action → Bool
  | .run .establishment =>
      node.establishment.any fun e =>
        (e.round node.site node.answers).directives.contains .replicaFlush
  | _ => false

/-- A round of agreement, if it ran now, would first replace its record by that of a fresh replica,
as it has been asked to. -/
def FlushesFirst (node : Node) : Prop :=
  ∃ a, node.agreement = some a ∧ a.flush = true ∧ a.FlushesFirst node.site node.answers

/-- No action of a sequence has a property in the state in which it happens. -/
def never (p : Node → Action → Bool) : Node → List Action → Bool
  | _, [] => true
  | node, action :: rest => !p node action && (node.act action).never p rest

/-! ### What an action leaves alone -/

theorem direct_viewChange (node : Node) :
    node.direct .viewChange =
      match node.establishment with
      | none => node
      | some e =>
          { node with establishment := some e.wantChange.state }.count e.wantChange.events := by
  cases node with
  | mk site e a m d metrics =>
      cases e <;> rfl

theorem direct_replicaFlush (node : Node) :
    node.direct .replicaFlush =
      { node with agreement := node.agreement.map fun a => { a with flush := true } } := by
  cases node with
  | mk site e a m d metrics =>
      cases a <;> rfl

theorem direct_requestReset (node : Node) :
    node.direct .requestReset =
      { node with agreement := node.agreement.map fun a => { a with needFlush := false } } := by
  cases node with
  | mk site e a m d metrics =>
      cases a <;> rfl

/-- Neither the own stance nor a mark to flush is lost from one state of a process to another. -/
structure Keeps (node after : Node) : Prop where
  site : after.site = node.site
  establishment : ∀ e, node.establishment = some e → ∃ e', after.establishment = some e' ∧
    (e.Sized node.site → e'.Sized node.site) ∧ e'.own node.site = e.own node.site
  agreement : ∀ a, node.agreement = some a → ∃ a', after.agreement = some a' ∧
    a'.records.length = a.records.length ∧ (a.flush = true → a'.flush = true)

namespace Keeps

variable {node mid after : Node}

theorem of_eq (site : after.site = node.site)
    (establishment : after.establishment = node.establishment)
    (agreement : after.agreement = node.agreement) : node.Keeps after :=
  ⟨site, fun e found => ⟨e, establishment.trans found, id, rfl⟩,
    fun a found => ⟨a, agreement.trans found, rfl, id⟩⟩

theorem refl (node : Node) : node.Keeps node :=
  of_eq rfl rfl rfl

theorem trans (first : node.Keeps mid) (second : mid.Keeps after) : node.Keeps after := by
  refine ⟨second.site.trans first.site, fun e found => ?_, fun a found => ?_⟩
  · obtain ⟨e', found', sized, own⟩ := first.establishment e found
    obtain ⟨e'', found'', sized', own'⟩ := second.establishment e' found'
    rw [first.site] at sized' own'
    exact ⟨e'', found'', sized' ∘ sized, own'.trans own⟩
  · obtain ⟨a', found', length, marked⟩ := first.agreement a found
    obtain ⟨a'', found'', length', marked'⟩ := second.agreement a' found'
    exact ⟨a'', found'', length'.trans length, marked' ∘ marked⟩

theorem direct (node : Node) (d : Directive) : node.Keeps (node.direct d) := by
  cases d with
  | viewChange =>
      rw [direct_viewChange]
      split
      · exact refl node
      · next e found =>
          refine ⟨rfl, fun e' found' => ?_, fun a found => ⟨a, found, rfl, id⟩⟩
          obtain rfl := Option.some.inj (found.symm.trans found')
          exact ⟨e.wantChange.state, rfl, fun sized => ⟨sized.1, sized.2, sized.3, sized.4⟩, rfl⟩
  | replicaFlush =>
      rw [direct_replicaFlush]
      refine ⟨rfl, fun e found => ⟨e, found, id, rfl⟩, fun a found => ?_⟩
      exact ⟨{ a with flush := true }, by simp [found], rfl, fun _ => rfl⟩
  | requestReset =>
      rw [direct_requestReset]
      refine ⟨rfl, fun e found => ⟨e, found, id, rfl⟩, fun a found => ?_⟩
      exact ⟨{ a with needFlush := false }, by simp [found], rfl, id⟩

theorem directed (node : Node) (directives : List Directive) :
    node.Keeps (directives.foldl Node.direct node) :=
  List.foldlRecOn _ _ (refl node) fun mid kept d _ => kept.trans (direct mid d)

theorem settle (node : Node) (directives : List Directive) (events : List Event) :
    node.Keeps (node.settle directives events) :=
  (directed node directives).trans (of_eq rfl rfl rfl)

theorem dispatch (node : Node) (message : Message) : node.Keeps (node.dispatch message) := by
  unfold Node.dispatch
  dsimp only
  generalize told : (if message.kind.isToken = true then _ else node) = after
  have kept : node.Keeps after := by
    rw [← told]
    split
    · exact of_eq rfl rfl rfl
    · exact refl node
  refine kept.trans ?_
  cases message.payload with
  | establishment announced =>
      refine ⟨rfl, fun e found => ?_, fun a found => ⟨a, found, rfl, id⟩⟩
      refine ⟨e.receive node.site message.sender announced, by simp [found], ?_⟩
      rw [kept.site]
      exact ⟨fun sized => sized.receive _ _, Establishment.own_receive ..⟩
  | agreement r =>
      refine ⟨rfl, fun e found => ⟨e, found, id, rfl⟩, fun a found => ?_⟩
      refine ⟨a.receive node.site message.sender r, by simp [found],
        Agreement.length_records_receive .., fun marked => ?_⟩
      unfold Agreement.receive
      split <;> exact marked
  | monitoring o => exact of_eq rfl rfl rfl
  | detection m => exact of_eq rfl rfl rfl
  | heartbeat => exact refl after

theorem onMessage (node : Node) (link : NodeId) (text : Text) :
    node.Keeps (node.onMessage link text).1 := by
  unfold Node.onMessage
  split
  · exact of_eq rfl rfl rfl
  · split
    · exact of_eq rfl rfl rfl
    · exact (of_eq rfl rfl rfl : node.Keeps (node.count [.messageReceived])).trans (dispatch _ _)

theorem submit (node : Node) (q : ClientRequest) : node.Keeps (node.submit q).1 := by
  unfold Node.submit
  split
  · exact of_eq rfl rfl rfl
  · next a installed =>
      split
      · next b buffered =>
          refine ⟨rfl, fun e found => ⟨e, found, id, rfl⟩, fun a' found => ?_⟩
          obtain rfl := Option.some.inj (installed.symm.trans found)
          have same : (a.submit node.site q).toOption.getD a = b := by
            rw [buffered]
            rfl
          rcases Agreement.submit_eq_or node.site a q with unchanged | ⟨_, pending⟩
          · exact ⟨b, rfl, by rw [← same, unchanged], by rw [← same, unchanged]; exact id⟩
          · refine ⟨b, rfl, ?_, ?_⟩
            · rw [← same, pending, Agreement.length_records_updateOwn]
            · rw [← same, pending]
              exact id
      · exact of_eq rfl rfl rfl

/-- Only the rounds of establishment and agreement may lose them. -/
theorem act (node : Node) {action : Action} (notEstablishment : action ≠ .run .establishment)
    (notAgreement : action ≠ .run .agreement) : node.Keeps (node.act action) := by
  cases action with
  | run component =>
      cases component with
      | establishment => contradiction
      | agreement => contradiction
      | monitoring =>
          simp only [Node.act, Node.round]
          split
          · exact refl node
          · next m _ =>
              have ran : node.Keeps
                  { node with monitoring := some (m.round node.site node.answers).state } :=
                of_eq rfl rfl rfl
              exact ran.trans (settle _ _ _)
      | detection =>
          simp only [Node.act, Node.round]
          split
          · exact refl node
          · split <;> exact refl node
  | submit q => exact submit node q
  | hear link text => exact onMessage node link text
  | dispatch message => exact dispatch node message

end Keeps

/-! ### What an action can do -/

/-- Both components of a process are installed. -/
structure Installed (node : Node) (e : Establishment) (a : Agreement) : Prop where
  establishment : node.establishment = some e
  agreement : node.agreement = some a
  sized : e.Sized node.site
  inTable : node.site.me < a.records.length

variable {node after : Node} {e : Establishment} {a : Agreement}

theorem Installed.of_keeps (installed : node.Installed e a) (keeps : node.Keeps after) :
    ∃ e' a', after.Installed e' a' ∧ e'.own node.site = e.own node.site ∧
      (a.flush = true → a'.flush = true) := by
  obtain ⟨e', foundE, sized, own⟩ := keeps.establishment e installed.establishment
  obtain ⟨a', foundA, length, marked⟩ := keeps.agreement a installed.agreement
  refine ⟨e', a', ⟨foundE, foundA, ?_, ?_⟩, own, marked⟩
  · rw [keeps.site]
    exact sized installed.sized
  · rw [keeps.site, length]
    exact installed.inTable

/-- Once the request to flush is carried out, the mark is there. -/
theorem Installed.flush_settle (installed : node.Installed e a) {directives : List Directive}
    (asks : .replicaFlush ∈ directives) (events : List Event) :
    ∃ e' a', (node.settle directives events).Installed e' a' ∧
      e'.own node.site = e.own node.site ∧ a'.flush = true := by
  -- The mark is set in the middle of the list, and no later directive takes it away.
  obtain ⟨earlier, later, rfl⟩ := List.append_of_mem asks
  have before := Keeps.directed node earlier
  obtain ⟨e', a', found, own, -⟩ := installed.of_keeps before
  have marks : (earlier.foldl direct node).direct .replicaFlush |>.Installed e'
      { a' with flush := true } := by
    rw [direct_replicaFlush]
    exact ⟨found.establishment, by simp [found.agreement], found.sized, found.inTable⟩
  obtain ⟨e'', a'', found', own', marked⟩ := marks.of_keeps (Keeps.settle _ later events)
  rw [(Keeps.direct _ _).site, before.site] at own'
  refine ⟨e'', a'', ?_, own'.trans own, marked rfl⟩
  rw [settle, List.foldl_append, List.foldl_cons]
  exact found'

theorem site_act (node : Node) (action : Action) : (node.act action).site = node.site := by
  by_cases runsEstablishment : action = .run .establishment
  · subst runsEstablishment
    simp only [act, round]
    split
    · rfl
    · exact (Keeps.settle _ _ _).site
  · by_cases runsAgreement : action = .run .agreement
    · subst runsAgreement
      simp only [act, round]
      split
      · rfl
      · exact (Keeps.settle _ _ _).site
    · exact (Keeps.act node runsEstablishment runsAgreement).site

theorem site_runs (node : Node) (actions : List Action) : (node.runs actions).site = node.site :=
  List.foldlRecOn (motive := fun after : Node => after.site = node.site) _ _ rfl
    fun mid same action _ => (site_act mid action).trans same

theorem eq_run_of_startsOver {action : Action} (starts : node.startsOver action = true) :
    action = .run .establishment := by
  unfold startsOver at starts
  split at starts
  · rfl
  · contradiction

/-- A round of establishment leaves a process that starts over in no view, and one in no view either
there or with a mark to flush. -/
theorem Installed.runEstablishment (installed : node.Installed e a) :
    ∃ e' a', (node.act (.run .establishment)).Installed e' a' ∧
      (node.startsOver (.run .establishment) = true → e'.Viewless node.site) ∧
      (e.Viewless node.site → e'.Viewless node.site ∨
        node.asksFlush (.run .establishment) = true ∧ a'.flush = true) ∧
      (a.flush = true → a'.flush = true) := by
  have ran : ({ node with
      establishment := some (e.round node.site node.answers).state } : Node).Installed
        (e.round node.site node.answers).state a :=
    ⟨rfl, installed.agreement, installed.sized.round _, installed.inTable⟩
  have acted : node.act (.run .establishment) =
      ({ node with establishment := some (e.round node.site node.answers).state } : Node).settle
        (e.round node.site node.answers).directives
        (e.round node.site node.answers).events := by
    simp [Node.act, Node.round, installed.establishment]
  have starts : node.startsOver (.run .establishment) = true →
      (e.round node.site node.answers).state.Viewless node.site := by
    intro starts
    refine Establishment.viewless_of_reset installed.sized ?_
    simpa [startsOver, installed.establishment] using starts
  rw [acted]
  by_cases asks : .replicaFlush ∈ (e.round node.site node.answers).directives
  · obtain ⟨e', a', found, own, marked⟩ :=
      ran.flush_settle asks (e.round node.site node.answers).events
    refine ⟨e', a', found, fun resets => ?_, fun _ => .inr ⟨?_, marked⟩, fun _ => marked⟩
    · rw [Establishment.Viewless, own]
      exact starts resets
    · simpa [asksFlush, installed.establishment] using asks
  · obtain ⟨e', a', found, own, marked⟩ := ran.of_keeps (Keeps.settle _
      (e.round node.site node.answers).directives (e.round node.site node.answers).events)
    refine ⟨e', a', found, fun resets => ?_, fun viewless => .inl ?_, marked⟩
    · rw [Establishment.Viewless, own]
      exact starts resets
    · rw [Establishment.Viewless, own]
      exact (viewless.round installed.sized _).resolve_right asks

/-- A round of agreement leaves the own stance alone. -/
theorem Installed.runAgreement (installed : node.Installed e a) :
    ∃ e' a', (node.act (.run .agreement)).Installed e' a' ∧
      e'.own node.site = e.own node.site := by
  have ran : ({ node with
      agreement := some (a.round node.site node.answers).state } : Node).Installed e
        (a.round node.site node.answers).state := by
    refine ⟨installed.establishment, rfl, installed.sized, ?_⟩
    rw [Agreement.length_records_round]
    exact installed.inTable
  obtain ⟨e', a', found, own, -⟩ := ran.of_keeps (Keeps.settle _
    (a.round node.site node.answers).directives (a.round node.site node.answers).events)
  refine ⟨e', a', ?_, own⟩
  simpa [Node.act, Node.round, installed.agreement] using found

theorem Installed.flushesFirst (installed : node.Installed e a) (marked : a.flush = true) :
    node.FlushesFirst :=
  ⟨a, installed.agreement, marked, Agreement.flushesFirst_of_marked marked installed.inTable⟩

/-- What an action can do.  Starting over leaves the process in no view; it remains in none unless
it asks for a flush in that action; and a mark to flush stays unless agreement runs a round. -/
theorem Installed.act (installed : node.Installed e a) (action : Action) :
    ∃ e' a', (node.act action).Installed e' a' ∧
      (node.startsOver action = true → e'.Viewless node.site) ∧
      (e.Viewless node.site → e'.Viewless node.site ∨
        node.asksFlush action = true ∧ a'.flush = true) ∧
      (a.flush = true → a'.flush = true ∨ action = .run .agreement) := by
  by_cases runsEstablishment : action = .run .establishment
  · subst runsEstablishment
    obtain ⟨e', a', found, starts, viewless, marked⟩ := installed.runEstablishment
    exact ⟨e', a', found, starts, viewless, fun mark => .inl (marked mark)⟩
  have noStart : node.startsOver action = true → False :=
    fun starts => runsEstablishment (eq_run_of_startsOver starts)
  by_cases runsAgreement : action = .run .agreement
  · subst runsAgreement
    obtain ⟨e', a', found, own⟩ := installed.runAgreement
    refine ⟨e', a', found, fun starts => (noStart starts).elim, fun viewless => .inl ?_,
      fun _ => .inr rfl⟩
    rw [Establishment.Viewless, own]
    exact viewless
  · obtain ⟨e', a', found, own, marked⟩ :=
      installed.of_keeps (Keeps.act node runsEstablishment runsAgreement)
    refine ⟨e', a', found, fun starts => (noStart starts).elim, fun viewless => .inl ?_,
      fun mark => .inl (marked mark)⟩
    rw [Establishment.Viewless, own]
    exact viewless

/-! ### Runs -/

theorem Installed.runs (installed : node.Installed e a) (actions : List Action) :
    ∃ e' a', (node.runs actions).Installed e' a' :=
  List.foldlRecOn (motive := fun after : Node => ∃ e' a', after.Installed e' a') _ _
    ⟨e, a, installed⟩ fun _ ⟨_, _, found⟩ action _ =>
      have ⟨e', a', found', _⟩ := found.act action
      ⟨e', a', found'⟩

/-- A process in no view is in none until it asks for a flush. -/
theorem Installed.viewless_runs (installed : node.Installed e a)
    (viewless : e.Viewless node.site) {actions : List Action}
    (unasked : node.never asksFlush actions = true) :
    ∃ e' a', (node.runs actions).Installed e' a' ∧ e'.Viewless node.site := by
  induction actions generalizing node e a with
  | nil => exact ⟨e, a, installed, viewless⟩
  | cons action rest ih =>
      simp only [never, Bool.and_eq_true, Bool.not_eq_true'] at unasked
      obtain ⟨e', a', found, -, remains, -⟩ := installed.act action
      have viewless' : e'.Viewless node.site := by
        refine (remains viewless).resolve_right fun asked => ?_
        rw [unasked.1] at asked
        exact absurd asked.1 Bool.false_ne_true
      rw [← site_act node action] at viewless' ⊢
      exact ih found viewless' unasked.2

/-- A process that is in no view or has a mark to flush is so until a round of agreement honours the
mark. -/
theorem Installed.owing_runs (installed : node.Installed e a)
    (owing : e.Viewless node.site ∨ a.flush = true) (actions : List Action) :
    (∃ e' a', (node.runs actions).Installed e' a' ∧
      (e'.Viewless node.site ∨ a'.flush = true)) ∨
    ∃ early late, actions = early ++ .run .agreement :: late ∧
      (node.runs early).FlushesFirst := by
  induction actions generalizing node e a with
  | nil => exact .inl ⟨e, a, installed, owing⟩
  | cons action rest ih =>
      obtain ⟨e', a', found, -, remains, marked⟩ := installed.act action
      have next : (e'.Viewless node.site ∨ a'.flush = true) ∨
          a.flush = true ∧ action = .run .agreement := by
        rcases owing with viewless | mark
        · exact .inl ((remains viewless).imp_right And.right)
        · exact (marked mark).imp .inr fun runs => ⟨mark, runs⟩
      rcases next with owing' | ⟨mark, rfl⟩
      · rw [← site_act node action] at owing' ⊢
        refine (ih found owing').imp_right ?_
        rintro ⟨early, late, rfl, flushes⟩
        exact ⟨action :: early, late, rfl, flushes⟩
      · exact .inr ⟨[], rest, rfl, installed.flushesFirst mark⟩

/-- Establishment and agreement have not run yet, and no view is forced. -/
structure Fresh (node : Node) : Prop where
  establishment : node.establishment = some (.new node.site)
  agreement : node.agreement = some (.new node.site)
  unforced : node.site.switches.forceView = none

theorem viewOf_of_outside (outside : node.site.cluster.size ≤ node.site.me) :
    node.answers.viewOf node.site.me = .tee := by
  unfold answers
  dsimp only
  split
  · rw [Establishment.currentView, if_pos outside]
  · rfl

theorem Installed.viewOf (installed : node.Installed e a)
    (unforced : node.site.switches.forceView = none) (viewless : e.Viewless node.site) :
    node.answers.viewOf node.site.me = .tee := by
  simp only [answers, installed.establishment]
  exact Establishment.currentView_of_viewless unforced viewless

theorem Fresh.installed (fresh : node.Fresh)
    (member : node.site.me < node.site.cluster.size) :
    node.Installed (.new node.site) (.new node.site) :=
  ⟨fresh.establishment, fresh.agreement, Establishment.sized_new member,
    by simpa [Agreement.new] using member⟩

/-- After establishment has started over, the process is in no view until establishment asks
agreement to drop its record.  And when it is in a view, a round of agreement would drop the record
before it acts in that view, unless one has done so since establishment started over. -/
theorem restart_contract (fresh : node.Fresh) (before between : List Action)
    (starts : (node.runs before).startsOver (.run .establishment) = true) :
    let restarted := (node.runs before).act (.run .establishment)
    let now := restarted.runs between
    (restarted.never asksFlush between = true → now.answers.viewOf node.site.me = .tee) ∧
      (now.answers.viewOf node.site.me ≠ .tee → now.FlushesFirst ∨
        ∃ early late, between = early ++ .run .agreement :: late ∧
          (restarted.runs early).FlushesFirst) := by
  intro restarted now
  have same : restarted.site = node.site := (site_act _ _).trans (site_runs node before)
  have sameNow : now.site = node.site := (site_runs restarted between).trans same
  have unforced : now.site.switches.forceView = none := by rw [sameNow]; exact fresh.unforced
  by_cases member : node.site.me < node.site.cluster.size
  · obtain ⟨e, a, installed⟩ := (fresh.installed member).runs before
    obtain ⟨e', a', found, viewless, -, -⟩ := installed.act (.run .establishment)
    replace viewless := viewless starts
    rw [← site_act _ (.run .establishment)] at viewless
    constructor
    · intro unasked
      obtain ⟨e'', a'', foundNow, viewlessNow⟩ := found.viewless_runs viewless unasked
      rw [same, ← sameNow] at viewlessNow
      rw [← sameNow]
      exact foundNow.viewOf unforced viewlessNow
    · intro acts
      refine (found.owing_runs (.inl viewless) between).imp_left ?_
      rintro ⟨e'', a'', foundNow, owing⟩
      rw [← sameNow] at acts
      rw [same, ← sameNow] at owing
      exact foundNow.flushesFirst (owing.resolve_left fun viewlessNow =>
        acts (foundNow.viewOf unforced viewlessNow))
  · -- A site outside the cluster is in no view at all.
    have viewless : now.answers.viewOf node.site.me = .tee := by
      rw [← sameNow] at member ⊢
      exact viewOf_of_outside (Nat.le_of_not_lt member)
    exact ⟨fun _ => viewless, fun acts => absurd viewless acts⟩

/-- The announcement of a stance by a process that last saw the receiver in the same stance. -/
def announcing (k : NodeId) (stance : Stance) : Action :=
  .dispatch (.targeted k 0 (.establishment { stance := stance, echo := stance }))

/-- Three others of six are seen in three different views. -/
def scattered : List Action :=
  [announcing 1 (.steadyIn 1), announcing 2 (.steadyIn 2), announcing 3 (.steadyIn 3)]

/-- A process that has started over is on its way to the initial view, as are four others. -/
def underWay : List Action :=
  .run .establishment :: [1, 2, 3, 4].map fun k => announcing k { phase := .change, pair := .reset }

/-- It establishes the initial view, and hears four others do so. -/
def arrived : List Action :=
  .run .establishment :: [1, 2, 3, 4].map fun k => announcing k (.steadyIn 0)

/-- A fresh process among six. -/
def firstOfSix : Node :=
  .new { me := 0, cluster := .new 6 1, switches := .none }

theorem fresh_firstOfSix : firstOfSix.Fresh :=
  ⟨rfl, rfl, rfl⟩

/-- The process has seen the others scattered and has started over. -/
def startedOver : Node :=
  (firstOfSix.runs scattered).act (.run .establishment)

/-- A process that sees the others scattered starts over.  On its way it serves no view, and the
first round of agreement in the view that it establishes drops the record. -/
theorem restart_contract_scattered :
    (firstOfSix.runs scattered).startsOver (.run .establishment) = true ∧
      (startedOver.runs underWay).answers.viewOf firstOfSix.site.me = .tee ∧
      (startedOver.runs (underWay ++ arrived)).answers.viewOf firstOfSix.site.me = .id 0 ∧
      (startedOver.runs (underWay ++ arrived)).FlushesFirst := by
  have starts : (firstOfSix.runs scattered).startsOver (.run .establishment) = true := by
    decide +kernel
  have view :
      (startedOver.runs (underWay ++ arrived)).answers.viewOf firstOfSix.site.me = .id 0 := by
    decide +kernel
  have unasked : startedOver.never asksFlush underWay = true := by decide +kernel
  have acts :
      (startedOver.runs (underWay ++ arrived)).answers.viewOf firstOfSix.site.me ≠ .tee := by
    rw [view]
    exact View.noConfusion
  have unrun : .run .agreement ∉ underWay ++ arrived := by
    simp [underWay, arrived, announcing]
  refine ⟨starts,
    (restart_contract fresh_firstOfSix scattered underWay starts).1 unasked, view,
    ((restart_contract fresh_firstOfSix scattered (underWay ++ arrived) starts).2
      acts).resolve_right ?_⟩
  rintro ⟨early, late, parts, -⟩
  exact unrun (parts ▸ List.mem_append_right early List.mem_cons_self)

end Node

end QuorumList
