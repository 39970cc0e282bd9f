import QuorumList.Cluster

/-!
Cluster parameters and switches as JSON.

An object may leave out any of them: the parameters of a cluster then have their defaults, and a
switch is off.
-/
namespace QuorumList

open Json (Decoder)

namespace Cluster

/-- The parameters that an object may name. -/
def fields : List (Json.Field Cluster) :=
  [ .make "n" .optional Decoder.unsigned fun v c => { c with size := v },
    .make "f" .optional Decoder.unsigned fun v c => { c with faults := v },
    .make "sigma" .optional Decoder.unsigned withSigma,
    .make "clients" .optional Decoder.unsigned withClients,
    .make "fd_threshold" .optional Decoder.unsigned withThreshold,
    .make "max_seq_num" .optional Decoder.unsigned withMaxSeq ]

/-- The parameters from a JSON value; a cluster has six processes of which one may misbehave unless
it says otherwise. -/
def decoder : Decoder Cluster :=
  .record fields (.new 6 1)

end Cluster

namespace Switches

/-- The switches that an object may name. -/
def fields : List (Json.Field Switches) :=
  [ .make "force_view" .optional (Decoder.optional View.decoder) fun v s =>
      { s with forceView := v },
    .make "allow_service" .optional Decoder.bool fun v s => { s with allowService := v },
    .make "force_no_view_change" .optional Decoder.bool fun v s =>
      { s with forceNoViewChange := v },
    .make "non_self_stab" .optional Decoder.bool fun v s => { s with nonSelfStab := v },
    .make "byzantine" .optional (Decoder.optional Misbehaviour.decoder) fun v s =>
      { s with misbehaviour := v } ]

/-- Switches from a JSON value. -/
def decoder : Decoder Switches :=
  .record fields none

/-- Switches as a JSON value. -/
def toJson (s : Switches) : Json :=
  .object
    [ ("allow_service", .bool s.allowService),
      ("byzantine", .optional Misbehaviour.toJson s.misbehaviour),
      ("force_no_view_change", .bool s.forceNoViewChange),
      ("force_view", .optional View.toJson s.forceView),
      ("non_self_stab", .bool s.nonSelfStab) ]

end Switches

end QuorumList
