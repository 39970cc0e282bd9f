import Mathlib.Data.List.Destutter
import QuorumList.Proofs.Delivery

/-!
In which order a link delivers.

Tokens tell frames apart and say nothing about their order: every data frame that arrives is handed
on unless it repeats the one handed on before it.  So a frame that the network kept back is handed
on once more.  As long as no token comes round again, a payload is still handed on for the first
time after all earlier ones, and everything is handed on in the order of the queue exactly when the
frames arrive in the order of their tokens.
-/
namespace QuorumList

/-! ### Repetitions -/

section Repetitions

variable {α : Type} [DecidableEq α] {x : α}

theorem destutter'_concat (l : List α) (a x : α) :
    (l ++ [x]).destutter' (· ≠ ·) a =
      if (l.destutter' (· ≠ ·) a).getLast? = some x then l.destutter' (· ≠ ·) a
      else l.destutter' (· ≠ ·) a ++ [x] := by
  induction l generalizing a with
  | nil =>
      by_cases same : a = x <;> simp [same]
  | cons b l ih =>
      by_cases same : a = b
      · rw [List.cons_append, List.destutter'_cons_neg _ (not_not.mpr same),
          List.destutter'_cons_neg _ (not_not.mpr same), ih]
      · rw [List.cons_append, List.destutter'_cons_pos _ same, List.destutter'_cons_pos _ same, ih,
          List.getLast?_cons_of_ne_nil (List.destutter'_ne_nil _ _)]
        split <;> rfl

/-- A further element is dropped if it repeats the last one. -/
theorem destutter_concat (l : List α) (x : α) :
    (l ++ [x]).destutter (· ≠ ·) =
      if (l.destutter (· ≠ ·)).getLast? = some x then l.destutter (· ≠ ·)
      else l.destutter (· ≠ ·) ++ [x] := by
  cases l with
  | nil => rfl
  | cons a l => exact destutter'_concat l a x

theorem mem_destutter_ne (l : List α) : x ∈ l.destutter (· ≠ ·) ↔ x ∈ l := by
  induction l using List.reverseRecOn with
  | nil => rfl
  | append_singleton l y ih =>
      rw [destutter_concat, List.mem_append, List.mem_singleton]
      split
      · next repeats =>
          rw [ih]
          refine ⟨.inl, fun either => either.elim id fun same => ih.mp ?_⟩
          rw [same]
          exact List.mem_of_getLast? repeats
      · rw [List.mem_append, List.mem_singleton, ih]

/-- Elements that repeat the last one do not disturb an order. -/
theorem pairwise_destutter_ne_iff {R : α → α → Prop} (refl : ∀ a, R a a) (l : List α) :
    (l.destutter (· ≠ ·)).Pairwise R ↔ l.Pairwise R := by
  constructor
  · intro ordered
    induction l using List.reverseRecOn with
    | nil => exact .nil
    | append_singleton l y ih =>
        rw [destutter_concat] at ordered
        rw [List.pairwise_append]
        split at ordered
        · next repeats =>
            refine ⟨ih ordered, List.pairwise_singleton _ _, fun b member z last => ?_⟩
            obtain ⟨front, whole⟩ := List.getLast?_eq_some_iff.mp repeats
            rw [← mem_destutter_ne, whole, List.mem_append, List.mem_singleton] at member
            rw [whole, List.pairwise_append] at ordered
            rw [List.mem_singleton.mp last]
            rcases member with before | same
            · exact ordered.2.2 b before y (List.mem_singleton.mpr rfl)
            · exact same ▸ refl b
        · rw [List.pairwise_append] at ordered
          exact ⟨ih ordered.1, List.pairwise_singleton _ _,
            fun b member => ordered.2.2 b ((mem_destutter_ne l).mpr member)⟩
  · exact List.Pairwise.sublist (List.destutter_sublist _ l)

end Repetitions

section Occurrences

variable {α : Type} {l m : List α} {x : α}

theorem eraseDups_concat [BEq α] [LawfulBEq α] (l : List α) (x : α) :
    (l ++ [x]).eraseDups = if x ∈ l then l.eraseDups else l.eraseDups ++ [x] := by
  rw [List.eraseDups_append]
  by_cases member : x ∈ l <;> simp [List.removeAll, member, List.eraseDups_cons]

theorem eraseDups_of_nodup [BEq α] [LawfulBEq α] (distinct : l.Nodup) : l.eraseDups = l := by
  induction l using List.reverseRecOn with
  | nil => rfl
  | append_singleton l x ih =>
      obtain ⟨front, -, apart⟩ := List.nodup_append.mp distinct
      have new : x ∉ l := fun member => apart x member x (List.mem_singleton.mpr rfl) rfl
      rw [eraseDups_concat, if_neg new, ih front]

theorem concat_prefix (front : l <+: m) (next : m[l.length]? = some x) : l ++ [x] <+: m := by
  rw [List.prefix_iff_eq_take] at front ⊢
  rw [List.length_append, List.length_singleton, List.take_add_one, next, ← front]
  rfl

end Occurrences

namespace Connection

/-- Payloads with their tokens, which count them. -/
def numbered (payloads : List String) : List (Nat × String) :=
  payloads.mapIdx Prod.mk

/-- The token and payload of the data frame that an action lets arrive.  Where the answer finds no
route, the frame counts as lost. -/
def arrival? (s : Connection) : Action → Option (Nat × String)
  | .arrive .reachable index =>
      match (s.data[index]?).bind fun datagram => Link.Frame.decode? (.ofString datagram) with
      | some (.data token payload) => some (token, payload)
      | _ => none
  | _ => none

/-- The data frames that arrive, in the order of their arrival. -/
def arrivals (ends : Ends) (s : Connection) : List Action → List (Nat × String)
  | [] => []
  | action :: rest => (s.arrival? action).toList ++ arrivals ends (s.act ends action) rest

variable {ends : Ends} {s : Connection} {link : Link.Outbound}

theorem arrivals_concat (ends : Ends) (s : Connection) (actions : List Action) (action : Action) :
    arrivals ends s (actions ++ [action]) =
      arrivals ends s actions ++ ((s.runs ends actions).arrival? action).toList := by
  induction actions generalizing s with
  | nil => simp [arrivals, runs]
  | cons first rest ih => rw [List.cons_append, arrivals, arrivals, ih, List.append_assoc]; rfl

theorem getElem?_numbered {payloads : List String} {token : Nat} :
    (numbered payloads)[token]? = payloads[token]?.map fun payload => (token, payload) := by
  rw [numbered, List.getElem?_mapIdx]

theorem numbered_append (payloads more : List String) :
    numbered payloads <+: numbered (payloads ++ more) := by
  rw [numbered, numbered, List.mapIdx_append]
  exact List.prefix_append _ _

/-! ### One action -/

/-- Nothing is handed on, the last accepted token stays, and at most more is sent and offered. -/
structure Quiet (ends : Ends) (s after : Connection) : Prop where
  handed : after.handed = s.handed
  last : after.target.inbound.last[ends.source]? = s.target.inbound.last[ends.source]?
  data : s.data <+: after.data
  offered : s.offered <+: after.offered

theorem Quiet.refl (ends : Ends) (s : Connection) : Quiet ends s s :=
  ⟨rfl, rfl, List.prefix_rfl, List.prefix_rfl⟩

/-- A datagram that is no data frame, or whose answer finds no route, is not handed on. -/
theorem receive_quiet {endpoint : Endpoint} {route : Link.Route} {address : Net.SocketAddress}
    {sender : NodeId} {datagram : Text} (knows : endpoint.hosts.nodeAt? address = some sender)
    (useless : route = .unreachable ∨
      (Link.Frame.decode? datagram).map Link.Frame.kind ≠ some .data) :
    endpoint.hands? route sender datagram = none ∧
      (endpoint.receive route address datagram).1.inbound.last[sender]? =
        endpoint.inbound.last[sender]? := by
  by_cases data : (Link.Frame.decode? datagram).map Link.Frame.kind = some .data
  · obtain rfl := useless.resolve_right (not_not.mpr data)
    obtain ⟨frame, decoded, kind⟩ := Option.map_eq_some_iff.mp data
    cases frame with
    | ack token => cases kind
    | data token payload =>
        obtain ⟨unchanged, nothing⟩ := Endpoint.receive_unreachable knows decoded
        exact ⟨nothing, by rw [unchanged]⟩
  · refine ⟨?_, Endpoint.last_receive fun both => data both.2⟩
    unfold Endpoint.hands?
    split
    · next decoded => exact absurd (congrArg (Option.map Link.Frame.kind) decoded) data
    · rfl

/-- An action that lets no data frame arrive is quiet. -/
theorem act_of_silent {action : Action}
    (knows : s.target.hosts.nodeAt? ends.sourceAddress = some ends.source)
    (silent : s.arrival? action = none) : Quiet ends s (s.act ends action) := by
  cases action with
  | offer text =>
      unfold Connection.act
      dsimp only
      split
      · exact .refl ends s
      · exact ⟨rfl, rfl, List.prefix_rfl, List.prefix_append _ _⟩
  | run =>
      unfold Connection.act
      dsimp only
      split
      · exact .refl ends s
      · exact ⟨rfl, rfl, List.prefix_append _ _, List.prefix_rfl⟩
  | arrive route index =>
      cases sent : s.data[index]? with
      | none =>
          simp only [Connection.act, sent]
          exact .refl ends s
      | some datagram =>
          have useless : route = .unreachable ∨
              (Link.Frame.decode? (.ofString datagram)).map Link.Frame.kind ≠ some .data := by
            cases route with
            | unreachable => exact .inl rfl
            | reachable =>
                refine .inr fun data => ?_
                obtain ⟨frame, decoded, kind⟩ := Option.map_eq_some_iff.mp data
                cases frame with
                | ack token => cases kind
                | data token payload => simp [arrival?, sent, decoded] at silent
          obtain ⟨nothing, kept⟩ := receive_quiet knows useless
          simp only [Connection.act, sent, nothing, Option.toList_none, List.append_nil]
          exact ⟨rfl, kept, List.prefix_rfl, List.prefix_rfl⟩
  | answer route index =>
      unfold Connection.act
      dsimp only
      split <;> exact ⟨rfl, rfl, List.prefix_rfl, List.prefix_rfl⟩
  | targetHears route address datagram =>
      unfold Connection.act
      dsimp only
      split
      · exact .refl ends s
      · next foreign =>
          exact ⟨rfl, Endpoint.last_receive foreign, List.prefix_rfl, List.prefix_rfl⟩
  | sourceHears route address datagram =>
      unfold Connection.act
      dsimp only
      split <;> exact ⟨rfl, rfl, List.prefix_rfl, List.prefix_rfl⟩
  | work source target => exact ⟨rfl, rfl, List.prefix_rfl, List.prefix_rfl⟩

/-- An action that lets a data frame arrive. -/
theorem of_arrival? {action : Action} {token : Nat} {payload : String}
    (arrives : s.arrival? action = some (token, payload)) :
    ∃ index datagram, action = .arrive .reachable index ∧ s.data[index]? = some datagram ∧
      Link.Frame.decode? (.ofString datagram) = some (.data token payload) := by
  unfold arrival? at arrives
  split at arrives
  · next index =>
      split at arrives
      · next found =>
          obtain ⟨datagram, sent, decoded⟩ := Option.bind_eq_some_iff.mp found
          cases arrives
          exact ⟨index, datagram, rfl, sent, decoded⟩
      · cases arrives
  · cases arrives

theorem hands?_eq (endpoint : Endpoint) {sender : NodeId} {datagram : Text} {token : Nat}
    {payload : String} {last : Option Nat}
    (decoded : Link.Frame.decode? datagram = some (.data token payload))
    (held : endpoint.inbound.last[sender]? = some last) :
    endpoint.hands? .reachable sender datagram =
      if last = some token then none else some (token, payload) := by
  simp only [Endpoint.hands?, decoded, Link.Inbound.accept, held]
  split <;> simp [*]

/-! ### All actions -/

/-- Everything that arrived was sent, and all of it was handed on but repetitions of the last.  The
target remembers the last, and first occurrences come in the order of the payloads. -/
structure InOrder (ends : Ends) (arrived : List (Nat × String)) (s : Connection) : Prop where
  sent : ∀ token payload, (token, payload) ∈ arrived →
    (Link.Frame.data token payload).encode ∈ s.data
  handed : s.handed = arrived.destutter (· ≠ ·)
  last : s.target.inbound.last[ends.source]? = some (s.handed.getLast?.map Prod.fst)
  firsts : s.handed.eraseDups <+: numbered s.payloads

namespace InOrder

variable {arrived : List (Nat × String)}

theorem atStart {source target : Endpoint} {waiting : List Text}
    (fresh : Fresh ends none source target waiting) :
    InOrder ends [] (Connection.start source target waiting) :=
  ⟨fun _ _ member => absurd member List.not_mem_nil, rfl, fresh.last, List.nil_prefix⟩

theorem silent (ordered : InOrder ends arrived s) (sound : Sound ends none s link)
    {action : Action} (silent : s.arrival? action = none) :
    InOrder ends arrived (s.act ends action) := by
  have quiet := act_of_silent sound.targetKnows silent
  refine ⟨fun token payload member => quiet.data.subset (ordered.sent token payload member),
    quiet.handed.trans ordered.handed, ?_, ?_⟩
  · rw [quiet.last, quiet.handed, ordered.last]
  · obtain ⟨more, whole⟩ := quiet.offered
    rw [quiet.handed, payloads, ← whole, List.filterMap_append]
    exact ordered.firsts.trans (numbered_append _ _)

/-- The first payload that was not handed on yet is the only new one that can arrive. -/
theorem firsts_concat (ordered : InOrder ends arrived s) (sound : Sound ends none s link)
    {token : Nat} {payload : String} (sent : link.Sent token)
    (named : s.payloads[token]? = some payload) :
    (s.handed ++ [(token, payload)]).eraseDups <+: numbered s.payloads := by
  rw [eraseDups_concat]
  split
  · exact ordered.firsts
  · next new =>
      apply concat_prefix ordered.firsts
      have place := List.prefix_iff_getElem?.mp ordered.firsts
      have reached : token = s.handed.eraseDups.length := by
        rcases Nat.lt_trichotomy token s.handed.eraseDups.length with before | same | after
        · have found := place token before
          rw [getElem?_numbered, named, Option.map_some, Option.some.injEq] at found
          exact absurd (List.mem_eraseDups.mp (found ▸ List.getElem_mem before)) new
        · exact same
        · -- All payloads before the token have been acknowledged, so they were handed on.
          have passed : s.handed.eraseDups.length < link.token := by
            rcases sent with below | ⟨current, -⟩ <;> omega
          obtain ⟨other, given⟩ | ⟨-, never⟩ := sound.passed _ passed
          · obtain ⟨i, below, found⟩ := List.mem_iff_getElem.mp (List.mem_eraseDups.mpr given)
            have same := place i below
            rw [found, getElem?_numbered, Option.map_eq_some_iff] at same
            obtain ⟨_, -, equal⟩ := same
            have index : i = s.handed.eraseDups.length := congrArg Prod.fst equal
            omega
          · cases never
      rw [← reached, getElem?_numbered, named]
      rfl

theorem act (ordered : InOrder ends arrived s) (sound : Sound ends none s link)
    (few : s.payloads.length < Link.tokenCount) (action : Action) :
    InOrder ends (arrived ++ (s.arrival? action).toList) (s.act ends action) := by
  cases arrives : s.arrival? action with
  | none =>
      rw [Option.toList_none, List.append_nil]
      exact ordered.silent sound arrives
  | some frame =>
      obtain ⟨token, payload⟩ := frame
      obtain ⟨index, _, rfl, found, decoded⟩ := of_arrival? arrives
      have inData := List.mem_of_getElem? found
      obtain ⟨token', payload', rfl, named, sent⟩ := sound.data _ inData
      rw [sound.decode_data few sent] at decoded
      cases decoded
      have decoded := sound.decode_data few sent payload
      obtain ⟨-, taken⟩ := Endpoint.receive_data sound.targetKnows decoded ordered.last
      have hands := hands?_eq s.target decoded ordered.last
      have arrivedSent : ∀ token' payload', (token', payload') ∈ arrived ++ [(token, payload)] →
          (Link.Frame.data token' payload').encode ∈ s.data := by
        intro token' payload' member
        rcases List.mem_append.mp member with before | now
        · exact ordered.sent token' payload' before
        · cases List.mem_singleton.mp now
          exact inData
      simp only [Connection.act, found, Option.toList_some]
      by_cases repeats : s.handed.getLast?.map Prod.fst = some token
      · -- The payload of the last token is the same.
        have same : s.handed.getLast? = some (token, payload) := by
          obtain ⟨⟨_, other⟩, latest, rfl⟩ := Option.map_eq_some_iff.mp repeats
          have given := sound.handed _ other (List.mem_of_getLast? latest)
          rw [named, Option.some.injEq] at given
          rw [latest, given]
        have nothing := hands.trans (if_pos repeats)
        refine ⟨arrivedSent, ?_, ?_, ?_⟩
        · rw [nothing, Option.toList_none, List.append_nil, destutter_concat,
            ← ordered.handed, if_pos same]
        · rw [nothing, Option.toList_none, List.append_nil]
          rcases taken with ⟨-, -, kept⟩ | ⟨accepted, -⟩
          · exact kept
          · rw [nothing] at accepted
            cases accepted
        · rw [nothing, Option.toList_none, List.append_nil]
          exact ordered.firsts
      · have different : s.handed.getLast? ≠ some (token, payload) := by
          intro same
          exact repeats (by rw [same]; rfl)
        have accepted := hands.trans (if_neg repeats)
        refine ⟨arrivedSent, ?_, ?_, ?_⟩
        · rw [accepted, Option.toList_some, destutter_concat, ← ordered.handed, if_neg different]
        · rw [accepted, Option.toList_some, List.getLast?_append]
          rcases taken with ⟨same, -⟩ | ⟨-, kept⟩
          · exact absurd same repeats
          · exact kept
        · rw [accepted, Option.toList_some]
          exact ordered.firsts_concat sound sent named

theorem afterRuns {source target : Endpoint} {waiting : List Text}
    (fresh : Fresh ends none source target waiting) (actions : List Action)
    (few : ((start source target waiting).runs ends actions).payloads.length < Link.tokenCount) :
    InOrder ends (arrivals ends (start source target waiting) actions)
      ((start source target waiting).runs ends actions) := by
  induction actions using List.reverseRecOn with
  | nil => exact atStart fresh
  | append_singleton actions action ih =>
      have last : (start source target waiting).runs ends (actions ++ [action]) =
          ((start source target waiting).runs ends actions).act ends action := by
        rw [runs, List.foldl_append]
        rfl
      rw [last] at few ⊢
      have fewer := Nat.lt_of_le_of_lt (length_payloads_act _ action) few
      obtain ⟨link, sound⟩ := sound_runs fresh actions fewer
      rw [arrivals_concat]
      exact (ih fewer).act sound fewer action

/-- What was handed on was sent. -/
theorem sent_of_mem_handed (ordered : InOrder ends arrived s) (sound : Sound ends none s link)
    (few : s.payloads.length < Link.tokenCount) {token : Nat} {payload : String}
    (given : (token, payload) ∈ s.handed) : link.Sent token := by
  have below := (List.getElem?_eq_some_iff.mp (sound.handed token payload given)).1
  have fits : (Link.Frame.data token payload).token ≤ 0xffffffff := by
    simp only [Link.Frame.token, Link.tokenCount] at few ⊢
    omega
  rw [ordered.handed, mem_destutter_ne] at given
  obtain ⟨token', payload', written, -, sent⟩ := sound.data _ (ordered.sent token payload given)
  have read := Link.Frame.decode?_encode fits
  rw [written, sound.decode_data few sent] at read
  cases read
  exact sent

/-- First occurrences are payloads that the link has taken. -/
theorem firsts_prefix (ordered : InOrder ends arrived s) (sound : Sound ends none s link)
    (few : s.payloads.length < Link.tokenCount) {taken rest : List String}
    (whole : s.payloads = taken ++ rest)
    (enough : ∀ token, link.Sent token → token < taken.length) :
    s.handed.eraseDups <+: numbered taken := by
  apply List.prefix_of_prefix_length_le ordered.firsts (whole ▸ numbered_append taken rest)
  rw [numbered, List.length_mapIdx]
  by_contra more
  rw [Nat.not_le] at more
  have place := List.prefix_iff_getElem?.mp ordered.firsts _ more
  rw [getElem?_numbered, Option.map_eq_some_iff] at place
  obtain ⟨payload, -, same⟩ := place
  have given := List.mem_eraseDups.mp (same ▸ List.getElem_mem more)
  exact absurd (enough _ (ordered.sent_of_mem_handed sound few given)) (Nat.lt_irrefl _)

/-- Everything is handed on once and in the order of the payloads exactly if the frames arrive in
the order of their tokens. -/
theorem handed_prefix_iff (ordered : InOrder ends arrived s) (sound : Sound ends none s link)
    {taken : List String} (firsts : s.handed.eraseDups <+: numbered taken) :
    s.handed <+: numbered taken ↔ arrived.Pairwise fun a b => a.1 ≤ b.1 := by
  rw [← pairwise_destutter_ne_iff (fun a => Nat.le_refl a.1), ← ordered.handed]
  constructor
  · intro front
    apply List.Pairwise.sublist front.sublist
    rw [numbered, List.pairwise_iff_getElem]
    intro i j _ _ before
    rw [List.getElem_mapIdx, List.getElem_mapIdx]
    exact Nat.le_of_lt before
  · intro rising
    have apart : s.handed.IsChain (· ≠ ·) := by
      rw [ordered.handed]
      exact List.isChain_destutter _ _
    have counting : (s.handed.map Prod.fst).IsChain (· < ·) := by
      rw [List.isChain_map, List.isChain_iff_getElem]
      intro i next
      refine Nat.lt_of_le_of_ne ?_ fun same => apart.getElem i next ?_
      · exact List.pairwise_iff_getElem.mp rising i (i + 1) _ next (Nat.lt_succ_self i)
      · -- Equal tokens carry the same payload.
        have earlier : s.payloads[s.handed[i].1]? = some s.handed[i].2 :=
          sound.handed _ _ (List.getElem_mem _)
        have later : s.payloads[s.handed[i + 1].1]? = some s.handed[i + 1].2 :=
          sound.handed _ _ (List.getElem_mem _)
        rw [same, later, Option.some.injEq] at earlier
        exact Prod.ext same earlier.symm
    have once : s.handed.Nodup :=
      List.Nodup.of_map Prod.fst (counting.pairwise.imp Nat.ne_of_lt)
    rw [eraseDups_of_nodup once] at firsts
    exact firsts

end InOrder

/-- The order in which a link delivers.  As long as no token comes round again, a fresh target hands
on every data frame that arrives but repetitions of the one before.  What is handed on for the first
time comes in the order in which the link took it, with nothing left out; everything is handed on
once and in this order exactly when the frames arrive in the order of their tokens.  What is handed
on is what the process gets. -/
theorem handed_in_order_iff {source target : Endpoint} {waiting : List Text}
    (fresh : Fresh ends none source target waiting) (actions : List Action)
    (few : ((start source target waiting).runs ends actions).payloads.length < Link.tokenCount) :
    let s := (start source target waiting).runs ends actions
    let arrived := arrivals ends (start source target waiting) actions
    ∃ link taken, s.source.links.link? ends.target = some link ∧
      s.payloads = taken ++ link.queue.items.filterMap Text.toString? ∧
      s.handed = arrived.destutter (· ≠ ·) ∧
      s.handed.eraseDups <+: numbered taken ∧
      (s.handed <+: numbered taken ↔ arrived.Pairwise fun a b => a.1 ≤ b.1) ∧
      ∀ route datagram,
        (s.target.receive route ends.sourceAddress datagram).1.node =
          match s.target.hands? route ends.source datagram with
          | some (_, payload) => (s.target.node.onMessage ends.source (.ofString payload)).1
          | none => s.target.node := by
  intro s arrived
  obtain ⟨link, sound⟩ := sound_runs fresh actions few
  have ordered := InOrder.afterRuns fresh actions few
  obtain ⟨passed, whole, counted⟩ := sound.counted
  have whole : s.payloads =
      (passed ++ link.inFlight.toList) ++ link.queue.items.filterMap Text.toString? := by
    rw [List.append_assoc]
    exact whole
  have enough : ∀ token, link.Sent token → token < (passed ++ link.inFlight.toList).length := by
    intro token sent
    rw [List.length_append, ← counted]
    rcases sent with below | ⟨rfl, flying⟩
    · omega
    · obtain ⟨payload, found⟩ := Option.isSome_iff_exists.mp flying
      rw [found, Option.toList_some, List.length_singleton]
      omega
  have firsts := ordered.firsts_prefix sound few whole enough
  exact ⟨link, _, sound.found, whole, ordered.handed, firsts,
    ordered.handed_prefix_iff sound firsts, fun _ _ => Endpoint.node_receive sound.targetKnows⟩

/-- The second process, started anew. -/
def receptive : Endpoint :=
  Endpoint.new (.new { me := 1, cluster := .new 2 0, switches := .none }) pairHosts
    { me := 1, peers := [] }

theorem fresh_receptive : Fresh pair none restarted receptive [] :=
  ⟨by decide, by decide, by decide, ⟨.new 4, rfl, rfl, rfl, rfl, rfl⟩⟩

/-- In the exchange every frame arrives in its turn, and both payloads are handed on in order. -/
theorem exchange_handed_in_order :
    Fresh pair none restarted receptive [] ∧
      ((start restarted receptive []).runs pair exchange).payloads.length < Link.tokenCount ∧
      ((start restarted receptive []).runs pair exchange).handed <+: numbered ["a", "b"] := by
  have payloads : ((start restarted receptive []).runs pair exchange).payloads = ["a", "b"] := by
    decide +kernel
  have few : ((start restarted receptive []).runs pair exchange).payloads.length <
      Link.tokenCount := by
    rw [payloads]
    decide
  have rising : (arrivals pair (start restarted receptive []) exchange).Pairwise
      fun a b => a.1 ≤ b.1 := by
    decide +kernel
  obtain ⟨link, taken, -, whole, -, -, inOrder, -⟩ :=
    handed_in_order_iff fresh_receptive exchange few
  refine ⟨fresh_receptive, few, (inOrder.mpr rising).trans ?_⟩
  rw [← payloads, whole]
  exact numbered_append _ _

/-- The frame of the first payload arrives once more after that of the second one. -/
def lateCopy : List Action :=
  [ .offer (.ofString "a"), .offer (.ofString "b"), .run, .arrive .reachable 0,
    .answer .reachable 0, .run, .arrive .reachable 1, .arrive .reachable 0 ]

/-- The late copy is handed on again, after the payload that was sent later. -/
theorem late_copy_handed_again :
    Fresh pair none restarted receptive [] ∧
      ((start restarted receptive []).runs pair lateCopy).payloads = ["a", "b"] ∧
      ((start restarted receptive []).runs pair lateCopy).handed.map Prod.snd = ["a", "b", "a"] ∧
      ¬ ((start restarted receptive []).runs pair lateCopy).handed.map Prod.snd <+: ["a", "b"] := by
  have handed : ((start restarted receptive []).runs pair lateCopy).handed.map Prod.snd =
      ["a", "b", "a"] := by
    decide +kernel
  refine ⟨fresh_receptive, by decide +kernel, handed, ?_⟩
  rw [handed]
  decide

end Connection

end QuorumList
