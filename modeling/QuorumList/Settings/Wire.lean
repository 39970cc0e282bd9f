import QuorumList.Cluster.Wire
import QuorumList.Settings.Basic

/-!
Settings as JSON.

A settings object may leave out any field; what it leaves out has its default.
-/
namespace QuorumList.Settings

open Json (Decoder)

/-- The fields of a settings object. -/
def fields : List (Json.Field Settings) :=
  [ .make "id" .optional Decoder.unsigned fun v s => { s with id := v },
    .make "api_port" .optional (Decoder.naturalTo maxPort) fun v s => { s with apiPort := v },
    .make "hosts_path" .optional Decoder.string fun v s => { s with hostsPath := v },
    .make "number_of_nodes" .optional Decoder.unsigned fun v s => { s with size := v },
    .make "number_of_byzantine" .optional Decoder.unsigned fun v s => { s with faults := v },
    .make "run_sleep" .optional (Decoder.optional Decoder.unsigned) fun v s =>
      { s with runSleep := v },
    .make "integration_test" .optional Decoder.bool fun v s => { s with integrationTest := v },
    .make "force_view" .optional (Decoder.optional Decoder.unsigned) fun v s =>
      { s with forceView := v },
    .make "allow_service" .optional Decoder.bool fun v s => { s with allowService := v },
    .make "force_no_view_change" .optional Decoder.bool fun v s =>
      { s with forceNoViewChange := v },
    .make "byzantine" .optional Decoder.bool fun v s => { s with byzantine := v },
    .make "byzantine_behavior" .optional (Decoder.optional Misbehaviour.decoder) fun v s =>
      { s with misbehaviour := v },
    .make "non_self_stab" .optional Decoder.bool fun v s => { s with nonSelfStab := v },
    .make "sigma" .optional Decoder.unsigned fun v s => { s with sigma := v },
    .make "number_of_clients" .optional Decoder.unsigned fun v s => { s with clients := v },
    .make "fd_threshold" .optional Decoder.unsigned fun v s => { s with threshold := v },
    .make "max_queue_size" .optional Decoder.unsigned fun v s => { s with queueSize := v },
    .make "max_seq_num" .optional Decoder.unsigned fun v s => { s with maxSeq := v },
    .make "start_state" .optional (Decoder.optional Decoder.string) fun v s =>
      { s with startState := v },
    .make "resend_interval_ms" .optional Decoder.unsigned fun v s =>
      { s with resendInterval := v } ]

/-- Settings from a JSON value. -/
def decoder : Decoder Settings :=
  .record fields standard

/-- Settings as a JSON value. -/
def toJson (s : Settings) : Json :=
  .object
    [ ("allow_service", .bool s.allowService),
      ("api_port", .nat s.apiPort),
      ("byzantine", .bool s.byzantine),
      ("byzantine_behavior", .optional Misbehaviour.toJson s.misbehaviour),
      ("fd_threshold", .nat s.threshold),
      ("force_no_view_change", .bool s.forceNoViewChange),
      ("force_view", .optional .nat s.forceView),
      ("hosts_path", .string s.hostsPath),
      ("id", .nat s.id),
      ("integration_test", .bool s.integrationTest),
      ("max_queue_size", .nat s.queueSize),
      ("max_seq_num", .nat s.maxSeq),
      ("non_self_stab", .bool s.nonSelfStab),
      ("number_of_byzantine", .nat s.faults),
      ("number_of_clients", .nat s.clients),
      ("number_of_nodes", .nat s.size),
      ("resend_interval_ms", .nat s.resendInterval),
      ("run_sleep", .optional .nat s.runSleep),
      ("sigma", .nat s.sigma),
      ("start_state", .optional .string s.startState) ]

/-- Settings and what follows from them, as a JSON value; `valid` says how the check of the settings
ended. -/
def report (valid : Json) (s : Settings) : Json :=
  let c := s.cluster
  .object
    [ ("byzantine", .optional Misbehaviour.toJson s.activeMisbehaviour),
      ("cluster",
        .list .nat [c.size, c.faults, c.sigma, c.clients, c.threshold, c.maxSeq]),
      ("config", s.toJson),
      ("forced_view", .optional View.toJson s.forcedView),
      ("http_port", .nat s.httpPort),
      ("node_id", .nat s.id),
      ("resend_ms", .nat s.resendAfter),
      ("run_sleep_ms", .nat s.roundSleep),
      ("switches", s.switches.toJson),
      ("valid", valid) ]

end QuorumList.Settings
