import DeepDiffForge.Daemon.Metrics
import DeepDiffForge.Lib.Exposition
import DeepDiffForge.Lib.JsonValue
import DeepDiffForge.Lib.Fallible

/-! The daemon's metrics document in the text exposition format. -/

namespace DeepDiffForge.Daemon
open Text Json Exposition
open DeepDiffForge.Core (saturatingAdd64)

def duration : Str := "ddf_daemon_request_duration_seconds".toList

/-- One metric family: its `HELP` and `TYPE` lines, then its samples. -/
structure Family where
  text : Str
  samples : Nat

def escapeLabel (value : Str) : Str :=
  value.flatMap fun c =>
    if c = '\\' then ['\\', '\\'] else if c = '"' then ['\\', '"']
    else if c = '\n' then ['\\', 'n'] else [c]

namespace Family

def new (name : Str) (kind : Kind) (help : Str) : Family where
  text := "# HELP ".toList ++ (name ++ ' ' :: help) ++ "\n# TYPE ".toList ++
    (name ++ ' ' :: kind.label) ++ ['\n']
  samples := 0

def sample (family : Family) (name : Str) (labels : List (Str × Str)) (value : Str) :
    Family where
  text := family.text ++ name ++
    (labels.zipIdx.flatMap fun entry =>
      (if entry.2 = 0 then '\x7b' else ',') ::
        (entry.1.1 ++ '=' :: '"' :: (escapeLabel entry.1.2 ++ ['"']))) ++
    (if labels.isEmpty then [] else ['\x7d']) ++ ' ' :: (value ++ ['\n'])
  samples := family.samples + 1

def finish (family : Family) (out : Str) : Str :=
  if 0 < family.samples then out ++ family.text else out

end Family

def seconds (micros : Nat) : Str :=
  let whole := micros / 1000000
  let fraction := micros % 1000000
  if fraction = 0 then decimal whole
  else
    decimal whole ++ '.' :: trimEnd '0'
      (List.replicate (6 - (decimal fraction).length) '0' ++ decimal fraction)

inductive CountReading where
  | plain | seconds
  deriving DecidableEq, Repr

def CountReading.write : CountReading → Nat → Str
  | .plain => decimal
  | .seconds => Daemon.seconds

structure Scalar where
  name : Str
  kind : Kind
  help : Str
  part : Str
  field : Str
  value : CountReading

def scalars : List Scalar :=
  [⟨"ddf_daemon_admitted_total".toList, .counter, "Requests admitted to run.".toList,
      "admission".toList, "admitted".toList, .plain⟩,
    ⟨"ddf_daemon_admission_waits_total".toList, .counter,
      "Requests admitted after waiting for room.".toList, "admission".toList, "waited".toList,
      .plain⟩,
    ⟨"ddf_daemon_admission_wait_seconds_total".toList, .counter,
      "Seconds requests spent waiting for admission.".toList, "admission".toList,
      "wait_us".toList, .seconds⟩,
    ⟨"ddf_daemon_busy_refusals_total".toList, .counter,
      "Requests refused as busy after the admission wait.".toList, "admission".toList,
      "busy".toList, .plain⟩,
    ⟨"ddf_daemon_peak_in_flight_bytes".toList, .gauge,
      "The most request bytes admitted at once.".toList, "admission".toList,
      "peak_in_flight_bytes".toList, .plain⟩,
    ⟨"ddf_daemon_peak_running_requests".toList, .gauge,
      "The most requests running at once.".toList, "admission".toList, "peak_running".toList,
      .plain⟩,
    ⟨"ddf_daemon_connections_accepted_total".toList, .counter,
      "Connections accepted and given a worker.".toList, "connections".toList,
      "accepted".toList, .plain⟩,
    ⟨"ddf_daemon_connection_errors_total".toList, .counter,
      "Connections that ended in an I/O error.".toList, "connections".toList, "errors".toList,
      .plain⟩,
    ⟨"ddf_daemon_panics_total".toList, .counter, "Panics inside a request, contained.".toList,
      "engine".toList, "panics".toList, .plain⟩,
    ⟨"ddf_daemon_session_resets_total".toList, .counter,
      "Session table resets after a panic held it.".toList, "engine".toList,
      "session_resets".toList, .plain⟩,
    ⟨"ddf_daemon_sessions_opened_total".toList, .counter, "Sessions opened.".toList,
      "engine".toList, "sessions_opened".toList, .plain⟩,
    ⟨"ddf_daemon_sessions_closed_total".toList, .counter,
      "Sessions closed by their client.".toList, "engine".toList, "sessions_closed".toList,
      .plain⟩,
    ⟨"ddf_daemon_sessions_evicted_total".toList, .counter,
      "Sessions evicted to make room.".toList, "engine".toList, "sessions_evicted".toList,
      .plain⟩,
    ⟨"ddf_daemon_peak_retained_bytes".toList, .gauge,
      "The most bytes held in all sessions at once.".toList, "engine".toList,
      "peak_retained_bytes".toList, .plain⟩]

/-- What was looked for, or why the document is refused. -/
def required {α : Type} (found : Option α) (reason : Str) : Except Str α :=
  match found with
  | some value => .ok value
  | none => .error reason

def countAt (doc : Value) (part field : Str) : Option Nat :=
  ((doc.get part).bind (·.get field)).bind Value.asU64

def count (doc : Value) (part field : Str) : Except Str Nat :=
  required (countAt doc part field)
    ("the metrics document has no count at ".toList ++ part ++ '.' :: field)

/-- One method's entry: its requests, its errors by label, and its latency buckets. -/
structure MethodEntry where
  name : Str
  requests : Nat
  errors : List (Str × Nat)
  buckets : List Nat
  deriving DecidableEq, Repr

/-- An entry read; how `Debug` writes a method's name in an error is a parameter. -/
def methodEntry (debugText : Str → Str) (name : Str) (entry : Value) : Except Str MethodEntry := do
  let refuse (what : Str) : Str :=
    "the metrics document's method ".toList ++ debugText name ++ " has no ".toList ++ what
  let requests ← required ((entry.get "requests".toList).bind Value.asU64)
    (refuse "requests count".toList)
  let members ← required ((entry.get "errors".toList).bind Value.asObject)
    (refuse "errors object".toList)
  let errors ← required
    (members.mapM fun member => member.2.asU64.map fun n => (member.1, n))
    (refuse "count for every error".toList)
  let buckets ← required
    (((((entry.get "latency_us".toList).bind (·.get "buckets".toList)).bind Value.asArray).filter
      (·.length = latencyBuckets)).bind (·.mapM Value.asU64))
    (refuse "latency_us.buckets of 24 counts".toList)
  return { name, requests, errors, buckets }

def bucketLabel (i : Nat) : Str := (bucketBound i).elim "+Inf".toList seconds

def bucketSamples (name : Str) : Nat → Nat → List Nat → Family → Family × Nat
  | _, cumulative, [], latency => (latency, cumulative)
  | i, cumulative, n :: rest, latency =>
      let cumulative := saturatingAdd64 cumulative n
      bucketSamples name (i + 1) cumulative rest
        (latency.sample (duration ++ "_bucket".toList)
          [("method".toList, name), ("le".toList, bucketLabel i)] (decimal cumulative))

structure MethodTexts where
  requests : Family
  errors : Family
  latency : Family

def MethodTexts.method (texts : MethodTexts) (method : MethodEntry) : MethodTexts :=
  let buckets := bucketSamples method.name 0 0 method.buckets texts.latency
  { requests := texts.requests.sample "ddf_daemon_requests_total".toList
      [("method".toList, method.name)] (decimal method.requests)
    errors := method.errors.foldl (fun errors error =>
      errors.sample "ddf_daemon_request_errors_total".toList
        [("method".toList, method.name), ("error".toList, error.1)] (decimal error.2)) texts.errors
    latency := buckets.1.sample (duration ++ "_count".toList) [("method".toList, method.name)]
      (decimal buckets.2) }

def requestsHelp : Str :=
  "Requests answered, by method; (unknown) is a method the daemon does not have.".toList

def errorsHelp : Str := "Requests answered with an RPC error, by method and error.".toList

def latencyHelp : Str :=
  "Request latency by method, in log2 microsecond buckets; no _sum, the daemon keeps none.".toList

def methodFamilies (methods : List MethodEntry) (out : Str) : Str :=
  let texts := methods.foldl MethodTexts.method
    { requests := .new "ddf_daemon_requests_total".toList .counter requestsHelp
      errors := .new "ddf_daemon_request_errors_total".toList .counter errorsHelp
      latency := .new duration .histogram latencyHelp }
  texts.latency.finish (texts.errors.finish (texts.requests.finish out))

def infoHelp : Str := "The daemon's version, as a label; always 1.".toList

def uptimeHelp : Str := "Seconds since the daemon started; every counter here counts from then.".toList

def refusedHelp : Str :=
  "Connections refused: at_limit (every worker busy) or peer (another user).".toList

def scalarFamily (doc : Value) (out : Str) (scalar : Scalar) : Except Str Str := do
  let n ← count doc scalar.part scalar.field
  return ((Family.new scalar.name scalar.kind scalar.help).sample scalar.name []
    (scalar.value.write n)).finish out

def refusals : List (Str × Str) :=
  [("at_limit".toList, "refused_at_limit".toList), ("peer".toList, "refused_peer".toList)]

def refusedSample (doc : Value) (family : Family) (refusal : Str × Str) :
    Except Str Family := do
  let n ← count doc "connections".toList refusal.2
  return family.sample "ddf_daemon_connections_refused_total".toList
    [("reason".toList, refusal.1)] (decimal n)

def prometheusText (debugText : Str → Str) (doc : Value) : Except Str Str := do
  if (doc.get "schema".toList).bind Value.asText ≠
      some "deep-diff-forge.daemon-metrics.v0".toList then
    throw "not a deep-diff-forge.daemon-metrics.v0 document".toList
  let version ← required ((doc.get "version".toList).bind Value.asText)
    "the metrics document has no version".toList
  let uptime ← required ((doc.get "uptime_secs".toList).bind Value.asU64)
    "the metrics document has no uptime_secs".toList
  let members ← required ((doc.get "methods".toList).bind Value.asObject)
    "the metrics document has no methods object".toList
  let methods ← members.mapM fun member => methodEntry debugText member.1 member.2
  let out := ((Family.new "ddf_daemon_build_info".toList .gauge infoHelp).sample
    "ddf_daemon_build_info".toList [("version".toList, version)] "1".toList).finish []
  let out := ((Family.new "ddf_daemon_uptime_seconds".toList .gauge uptimeHelp).sample
    "ddf_daemon_uptime_seconds".toList [] (decimal uptime)).finish out
  let out := methodFamilies methods out
  let out ← scalars.foldlM (scalarFamily doc) out
  let refused ← refusals.foldlM (refusedSample doc)
    (.new "ddf_daemon_connections_refused_total".toList .counter refusedHelp)
  return refused.finish out

end DeepDiffForge.Daemon
