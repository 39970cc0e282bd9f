import Mathlib.Data.List.DropRight
import QuorumList.Proofs.Heartbeats
import QuorumList.Proofs.Revival

/-!
Who counts as responsive.

Views change, service is lost and suspicions come and go, but none of this touches the beats of a
detector.  They can be read off the tokens alone: the beat of another process is the number of
tokens that its peers have sent since its own last one, as far as a beat can count.  Those that the
last token left below the threshold are responsive, and so are its sender and the process itself.
-/
namespace QuorumList

namespace Detection

variable {site : Site} {s : Detection} {answers : Answers} {sender k : NodeId} {view : View}
  {senders : List NodeId} {inputs : List Input}

/-! ### What leaves the beats alone -/

@[simp] theorem beats_clear : s.clear.beats = s.beats :=
  rfl

@[simp] theorem beats_trackView : (s.trackView view).beats = s.beats := by
  unfold trackView
  split <;> rfl

@[simp] theorem beats_followPrimary {primary : NodeId} :
    (s.followPrimary site answers sender primary).beats = s.beats := by
  have progress : (s.checkProgress answers.pending).beats = s.beats := by
    unfold checkProgress
    split <;> rfl
  unfold followPrimary
  dsimp only
  split
  · rfl
  · split
    · exact progress
    · rfl

@[simp] theorem beats_receive {m : Suspicion} : (s.receive site sender m).beats = s.beats := by
  unfold receive
  split <;> rfl

/-- Whatever the other components answer, a token of a peer ages the beats. -/
theorem beats_onToken_of_peer (peer : site.isPeer sender = true) :
    (s.onToken site answers sender).beats = (s.ageBeats site sender).beats := by
  refine onToken_cases (P := fun t => t.beats = (s.ageBeats site sender).beats)
    (fun stranger => ?_) (fun stranger => ?_) (fun _ => ?_) (fun _ _ => ?_) fun _ _ _ _ => ?_
  · exact absurd peer (Bool.eq_false_iff.mp stranger)
  · exact absurd peer (Bool.eq_false_iff.mp stranger)
  all_goals simp

/-! ### Tokens since the last one of a process -/

/-- The tokens that count for the silence of a process are those of its peers behind its last
one. -/
theorem silence_eq_countP (peer : site.isPeer k = true) :
    silence site k senders = (senders.rtakeWhile (· ≠ k)).countP site.isPeer := by
  induction senders using List.reverseRecOn with
  | nil => rfl
  | append_singleton senders sender ih =>
      rw [silence_concat, List.rtakeWhile_concat, ih]
      by_cases own : sender = k
      · simp [own, peer]
      · have behind : decide (sender ≠ k) = true := decide_eq_true own
        rw [if_neg own, if_pos behind, List.countP_append, List.countP_singleton]
        cases site.isPeer sender <;> simp

theorem getElem?_heartbeats (inRange : k < site.cluster.size) :
    (heartbeats site senders)[k]? =
      some (if k = site.me then 0 else min (silence site k senders) Json.maxUnsigned) := by
  simp [heartbeats, Cluster.nodes, inRange]

/-- The senders of the tokens among some inputs, in their order. -/
def tokenSenders (inputs : List Input) : List NodeId :=
  inputs.filterMap fun
    | .token sender _ => some sender
    | .suspicion .. => none

theorem tokenSenders_append (early late : List Input) :
    tokenSenders (early ++ late) = tokenSenders early ++ tokenSenders late :=
  List.filterMap_append

/-- The beats and the responsive processes are what the tokens of these senders make of them. -/
structure Counts (site : Site) (senders : List NodeId) (s : Detection) : Prop where
  beats : s.beats = heartbeats site senders
  responsive : ∀ last, (senders.filter site.isPeer).getLast? = some last → ∀ k,
    k ∈ s.responsive ↔
      k = site.me ∨ k = last ∨ ∃ beat, s.beats[k]? = some beat ∧ beat < site.cluster.threshold

namespace Counts

theorem new : (Detection.new site).Counts site [] where
  beats := heartbeats_nil.symm
  responsive := fun _ none => nomatch none

theorem receive (counts : s.Counts site senders) (m : Suspicion) :
    (s.receive site sender m).Counts site senders where
  beats := beats_receive.trans counts.beats
  responsive := by
    rw [responsive_receive, beats_receive]
    exact counts.responsive

/-- The own token and those of strangers change nothing: the own beat is zero already. -/
theorem onToken_of_not_peer (counts : s.Counts site senders) (member : site.me < site.cluster.size)
    (unknown : site.isPeer sender = false) :
    (s.onToken site answers sender).Counts site (senders ++ [sender]) := by
  have zero : s.beats.set site.me 0 = s.beats := by
    have held : s.beats[site.me]? = some 0 := by
      rw [counts.beats, getElem?_heartbeats member, if_pos rfl]
    obtain ⟨inTable, here⟩ := List.getElem?_eq_some_iff.mp held
    rw [← here, List.set_getElem_self]
  rw [Detection.onToken_of_not_peer unknown, zero, ite_self]
  refine ⟨?_, ?_⟩
  · rw [heartbeats_concat_of_not_peer unknown, ← counts.beats]
  · rw [List.filter_append, List.filter_singleton, unknown]
    simpa using counts.responsive

/-- A token of a peer makes it and this process responsive, and settles who else is. -/
theorem onToken_of_peer (counts : s.Counts site senders) (member : site.me < site.cluster.size)
    (peer : site.isPeer sender = true) :
    (s.onToken site answers sender).Counts site (senders ++ [sender]) := by
  have aged : (s.onToken site answers sender).beats = heartbeats site (senders ++ [sender]) := by
    rw [beats_onToken_of_peer peer, heartbeats_concat_of_peer peer, ← counts.beats]
    rfl
  refine ⟨aged, fun last isLast k => ?_⟩
  obtain rfl : sender = last := by
    simpa [List.filter_append, peer] using isLast
  have inTable : (s.ageBeats site sender).beats.length = site.cluster.size := by
    have held := (beats_onToken_of_peer peer).symm.trans aged
    simp [held, heartbeats, Cluster.nodes]
  rw [responsive_onToken, if_pos peer, beats_onToken_of_peer peer]
  have listed : k ∈ (s.ageBeats site sender).responsive ↔ k < site.cluster.size ∧
      ((k = site.me ∨ k = sender) ∨
        (s.ageBeats site sender).beats.getD k 0 < site.cluster.threshold) := by
    simp [ageBeats]
  rw [listed]
  constructor
  · rintro ⟨inRange, (itself | heard) | recent⟩
    · exact .inl itself
    · exact .inr (.inl heard)
    · have there : k < (s.ageBeats site sender).beats.length := inTable ▸ inRange
      refine .inr (.inr ⟨_, List.getElem?_eq_getElem there, ?_⟩)
      simpa [there] using recent
  · rintro (rfl | rfl | ⟨beat, found, recent⟩)
    · exact ⟨member, .inl (.inl rfl)⟩
    · exact ⟨(Site.isPeer_iff.mp peer).2, .inl (.inr rfl)⟩
    · have there := (List.getElem?_eq_some_iff.mp found).1
      refine ⟨inTable ▸ there, .inr ?_⟩
      rwa [List.getD_eq_getElem?_getD, found]

end Counts

/-- Whatever comes, the beats count the tokens that came. -/
theorem counts_reacts (member : site.me < site.cluster.size) :
    ((Detection.new site).reacts site inputs).Counts site (tokenSenders inputs) := by
  induction inputs using List.reverseRecOn with
  | nil => exact .new
  | append_singleton inputs input ih =>
      rw [reacts, List.foldl_append, tokenSenders_append]
      cases input with
      | token sender answers =>
          cases peer : site.isPeer sender with
          | false => exact ih.onToken_of_not_peer member peer
          | true => exact ih.onToken_of_peer member peer
      | suspicion sender m =>
          have unheard : tokenSenders [.suspicion sender m] = [] := rfl
          rw [unheard, List.append_nil]
          exact ih.receive m

/-- After any tokens and suspicions, with any answers of the other components, the beat of a peer is
the number of tokens that other peers have sent since its last one, or since the start, and the own
beat is zero.  Once a peer has sent a token, the responsive processes are this process, the sender of
the last such token, and all whose beats are below the threshold. -/
theorem beats_count_tokens (member : site.me < site.cluster.size) (inputs : List Input) :
    let s := (Detection.new site).reacts site inputs
    let senders := tokenSenders inputs
    s.beats.length = site.cluster.size ∧
      (∀ k, site.isPeer k = true → s.beats[k]? =
        some (min Json.maxUnsigned ((senders.rtakeWhile (· ≠ k)).countP site.isPeer))) ∧
      s.beats[site.me]? = some 0 ∧
      ∀ last, (senders.filter site.isPeer).getLast? = some last → ∀ k,
        k ∈ s.responsive ↔ k = site.me ∨ k = last ∨
          ∃ beat, s.beats[k]? = some beat ∧ beat < site.cluster.threshold := by
  intro s senders
  have counts : s.Counts site senders := counts_reacts member
  refine ⟨?_, fun k peer => ?_, ?_, counts.responsive⟩
  · simp [counts.beats, heartbeats, Cluster.nodes]
  · obtain ⟨other, inRange⟩ := Site.isPeer_iff.mp peer
    rw [counts.beats, getElem?_heartbeats inRange, if_neg other, silence_eq_countP peer,
      Nat.min_comm]
  · rw [counts.beats, getElem?_heartbeats member, if_pos rfl]

/-- Three tokens of process 1, between them a token of the process itself, one of a stranger and a
suspicion, while a view comes and goes. -/
def threeTokens : List Input :=
  [ .token 1 .unavailable,
    .token 0 (Ensemble.reporting 2),
    .token 1 { Ensemble.reporting 2 with serviceAllowed := true },
    .suspicion 3 { view := .id 2, suspected := true },
    .token 9 .unavailable,
    .token 1 (Ensemble.reporting 2) ]

/-- With a threshold of three, only process 1 and the process that heard it are then responsive. -/
theorem three_tokens_counted :
    let site : Site :=
      { me := 0, cluster := (Cluster.new 6 1).withThreshold 3, switches := .none }
    let s := (Detection.new site).reacts site threeTokens
    site.me < site.cluster.size ∧ s.beats[1]? = some 0 ∧ s.beats[2]? = some 3 ∧
      1 ∈ s.responsive ∧ 2 ∉ s.responsive := by
  intro site s
  have member : site.me < site.cluster.size := by decide
  obtain ⟨-, beats, -, responsive⟩ := beats_count_tokens member threeTokens
  have silent : s.beats[2]? = some 3 := beats 2 (by decide)
  have last : ((tokenSenders threeTokens).filter site.isPeer).getLast? = some 1 := by decide
  refine ⟨member, beats 1 (by decide), silent, ?_, fun recent => ?_⟩
  · exact (responsive 1 last 1).mpr (.inr (.inl rfl))
  · rcases (responsive 1 last 2).mp recent with own | heard | ⟨beat, found, short⟩
    · exact absurd own (by decide)
    · exact absurd heard (by decide)
    · obtain rfl : 3 = beat := Option.some.inj (silent.symm.trans found)
      exact absurd short (by decide)

end Detection

end QuorumList
