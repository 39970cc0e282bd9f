import QuorumList.Cluster
import QuorumList.NodeSet
import QuorumList.Call

/-!
Primary monitoring: turning suspicion into a view change.

Every process broadcasts its opinion about its primary: the view it is in, whether it wants a
change, and which processes of its view it has seen wanting one.  A process asks for a view change
only when it suspects the primary itself and an establishing quorum in its view wants a change after
having seen one and the same establishing quorum want it.

Whether such a group exists is decided by peeling: starting from the members that enough opinions
list, the least listed member is taken off until enough opinions list all members that remain.
-/
namespace QuorumList

/-- The service that a process reports for its view. -/
inductive Service where
  | ok
  | noService
  | change
deriving DecidableEq, Repr, Inhabited

namespace Service

/-- The names of the service states. -/
def names : List (String × Service) :=
  [("OK", .ok), ("NO_SERVICE", .noService), ("V_CHANGE", .change)]

/-- The name of a service state. -/
def name : Service → String
  | .ok => "OK"
  | .noService => "NO_SERVICE"
  | .change => "V_CHANGE"

/-- A service state as a JSON value. -/
def toJson (s : Service) : Json :=
  .string s.name

/-- A service state from a JSON value. -/
def decoder : Json.Decoder Service :=
  .named names

end Service

/-- The opinion of a process about its primary. -/
structure Opinion where
  service : Service
  /-- The view that the opinion is about. -/
  view : View
  /-- The process wants a change. -/
  wantsChange : Bool
  /-- The processes in this view that want a change. -/
  seconded : NodeSet
deriving DecidableEq, Repr

namespace Opinion

/-- The opinion of a process that has just entered a view. -/
def fresh (view : View) : Opinion :=
  { service := .ok, view := view, wantsChange := false, seconded := .empty }

instance : Inhabited Opinion :=
  ⟨fresh .tee⟩

/-- An opinion as a JSON value. -/
def toJson (o : Opinion) : Json :=
  .object
    [ ("need_change", .bool o.wantsChange),
      ("need_chg_set", o.seconded.toJson),
      ("prim", o.view.toJson),
      ("v_status", o.service.toJson) ]

/-- An opinion from a JSON value. -/
def decoder : Json.Decoder Opinion :=
  .record
    [ .make "v_status" .optional Service.decoder fun s o => { o with service := s },
      .make "prim" .optional View.decoder fun v o => { o with view := v },
      .make "need_change" .optional .bool fun w o => { o with wantsChange := w },
      .make "need_chg_set" .optional NodeSet.decoder fun s o => { o with seconded := s } ]
    (fresh .tee)

end Opinion

/-- The state of primary monitoring: the opinion of each process, as last reported. -/
structure Monitoring where
  opinions : List Opinion
deriving DecidableEq, Repr, Inhabited

namespace Monitoring

/-- The monitoring of a fresh process. -/
def new (site : Site) : Monitoring :=
  { opinions := List.replicate site.cluster.size (.fresh .tee) }

/-- The opinion that a process last reported. -/
def opinionOf (s : Monitoring) (k : NodeId) : Opinion :=
  s.opinions.getD k (.fresh .tee)

/-- The opinion of this process. -/
def own (site : Site) (s : Monitoring) : Opinion :=
  s.opinionOf site.me

/-- Set the opinion of this process. -/
def setOwn (site : Site) (o : Opinion) (s : Monitoring) : Monitoring :=
  { s with opinions := s.opinions.set site.me o }

/-- No view change is under way. -/
def noViewChange (site : Site) (s : Monitoring) : Bool :=
  site.switches.forceNoViewChange || (s.own site).service = .ok

/-! ### Support for a change -/

/-- How many opinions list a member. -/
def support (opinions : List Opinion) (member : NodeId) : Nat :=
  opinions.countP fun o => o.seconded.contains member

/-- The first of the least listed members. -/
def weakest? (opinions : List Opinion) : List NodeId → Option NodeId
  | [] => none
  | m :: rest =>
      some (rest.foldl (fun w k => if support opinions k < support opinions w then k else w) m)

/-- The opinions that list all given members. -/
def holders (opinions : List Opinion) (members : List NodeId) : Nat :=
  opinions.countP fun o => members.all o.seconded.contains

/-- Peel members off until `threshold` opinions list all that remain, or fewer than `threshold`
remain.  Each step takes one member off; `bound` is their number. -/
def peel (opinions : List Opinion) (threshold : Nat) : Nat → List NodeId → Bool
  | 0, _ => false
  | bound + 1, members =>
      if members.length < threshold then false
      else if threshold ≤ holders opinions members then true
      else
        match weakest? opinions members with
        | none => false
        | some w => peel opinions threshold bound (members.filter (· ≠ w))

/-- The members that at least `threshold` opinions list. -/
def wellListed (opinions : List Opinion) (threshold : Nat) : List NodeId :=
  let listed := NodeSet.ofList (opinions.flatMap fun o => o.seconded.members)
  listed.members.filter fun m => threshold ≤ support opinions m

/-- Some `threshold` opinions list `threshold` members in common, as far as peeling finds out. -/
def shareMembers (opinions : List Opinion) (threshold : Nat) : Bool :=
  let members := wellListed opinions threshold
  peel opinions threshold members.length members

/-- The opinions of those who are in our view and want a change. -/
def candidates (site : Site) (s : Monitoring) : List Opinion :=
  s.opinions.filter fun o => o.wantsChange && o.view = (s.own site).view

/-- So many processes in our view want a change, and have seen as many in common want it. -/
def supportsChange (site : Site) (threshold : Nat) (s : Monitoring) : Bool :=
  threshold = 0 ||
    (threshold ≤ (s.candidates site).length && shareMembers (s.candidates site) threshold)

/-! ### The round -/

/-- Form an opinion about the reported view: a new view starts with a fresh one. -/
def formOpinion (site : Site) (answers : Answers) (s : Monitoring) : Monitoring :=
  let view := answers.viewOf site.me
  let own := if (s.own site).view = view then s.own site else .fresh view
  let wants (k : NodeId) : Bool :=
    if k = site.me then answers.suspected else (s.opinionOf k).wantsChange
  s.setOwn site
    { own with
      wantsChange := answers.suspected
      seconded :=
        .filterBelow site.cluster.size fun k => wants k && answers.viewOf k = view }

/-- The service that this process reports. -/
def assess (site : Site) (answers : Answers) (s : Monitoring) : Service :=
  if !(answers.viewOf site.me).isTee && s.supportsChange site site.cluster.establishQuorum &&
      answers.suspected then
    .change
  else if site.cluster.weakQuorum ≤ s.opinions.countP (fun o => o.service = .noService) then
    .noService
  else .ok

/-- A round: form an opinion, and ask for a view change if enough others agree. -/
def round (site : Site) (answers : Answers) (s : Monitoring) : Outcome Monitoring :=
  let s := s.formOpinion site answers
  let service := s.assess site answers
  { state := s.setOwn site { s.own site with service := service }
    directives := if service = .change then [.viewChange] else []
    events := [] }

/-- Keep the opinion that another process broadcast. -/
def receive (site : Site) (sender : NodeId) (o : Opinion) (s : Monitoring) : Monitoring :=
  if site.isPeer sender then { s with opinions := s.opinions.set sender o } else s

/-- Answer a call. -/
def call (site : Site) (function : Function) (s : Monitoring) : Except BadRoute Reply :=
  match function with
  | .noViewChange => .ok (.flag (s.noViewChange site))
  | other => .error { component := .monitoring, function := other }

/-! ### Snapshots -/

/-- The state of monitoring as it is shown and given: three fields of the own opinion, and all
opinions. -/
structure Snapshot where
  view : View
  service : Service
  wantsChange : Bool
  opinions : List Opinion
deriving DecidableEq, Repr, Inhabited

namespace Snapshot

/-- A snapshot as a JSON value. -/
def toJson (s : Snapshot) : Json :=
  .object
    [ ("need_change", .bool s.wantsChange),
      ("prim", s.view.toJson),
      ("v_status", s.service.toJson),
      ("vcm", .list Opinion.toJson s.opinions) ]

/-- A snapshot from a JSON value; opinions that are left out stand for those already held. -/
def decoder : Json.Decoder Snapshot :=
  .record
    [ .make "prim" .optional View.decoder fun v s => { s with view := v },
      .make "v_status" .optional Service.decoder fun v s => { s with service := v },
      .make "need_change" .optional .bool fun w s => { s with wantsChange := w },
      .make "vcm" .optional (.list Opinion.decoder) fun o s => { s with opinions := o } ]
    { view := .tee, service := .ok, wantsChange := false, opinions := [] }

end Snapshot

/-- The snapshot of a state. -/
def snapshot (site : Site) (s : Monitoring) : Snapshot :=
  { view := (s.own site).view
    service := (s.own site).service
    wantsChange := (s.own site).wantsChange
    opinions := s.opinions }

/-- Take over a given state; its own fields overwrite those of the own opinion. -/
def inject (site : Site) (s : Monitoring) (given : Snapshot) :
    Except SizeMismatch Monitoring := do
  SizeMismatch.check "vcm" given.opinions.length site.cluster.size
  let s : Monitoring := { opinions := replaceUnlessEmpty s.opinions given.opinions }
  pure
    (s.setOwn site
      { s.own site with
        view := given.view
        service := given.service
        wantsChange := given.wantsChange })

end Monitoring

end QuorumList
