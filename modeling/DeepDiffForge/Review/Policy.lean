import DeepDiffForge.Review.Session

/-! The council gate: reports and receipts admitted, and the reasons that hold a run back. Model
verdicts remain claims; only measured receipts satisfy gates. -/

namespace DeepDiffForge.Review
open Text

inductive Provider where
  | codex | claudeCode
  deriving DecidableEq, Repr

def Provider.family : Provider → Str
  | .codex => "openai".toList
  | .claudeCode => "anthropic".toList

inductive BuilderFamily where
  | openai | anthropic | human | other
  deriving DecidableEq, Repr

def BuilderFamily.label : BuilderFamily → Str
  | .openai => "openai".toList
  | .anthropic => "anthropic".toList
  | .human => "human".toList
  | .other => "other".toList

inductive Disposition where
  | concur | rebut | needsTest
  deriving DecidableEq, Repr

inductive AssessmentState where
  | readyForHumanReview | hold
  deriving DecidableEq, Repr

inductive Persona where
  | general | correctness | security | architecture | performance | falsifier | subtractor
  deriving DecidableEq, Repr

/-- As `Debug` writes it. -/
def Persona.debug : Persona → Str
  | .general => "General".toList
  | .correctness => "Correctness".toList
  | .security => "Security".toList
  | .architecture => "Architecture".toList
  | .performance => "Performance".toList
  | .falsifier => "Falsifier".toList
  | .subtractor => "Subtractor".toList

structure Reviewer where
  id : Str
  provider : Provider
  model : Option Str
  persona : Persona
  deriving DecidableEq, Repr

inductive Profile where
  | roster | importantDecision
  deriving DecidableEq, Repr

structure Request where
  contextFiles : List Str
  builderFamily : BuilderFamily
  profile : Profile
  reviewers : List Reviewer
  mutationPackage : Str
  mutationBase : Option Str
  fuzzTargets : List Str
  timeoutSeconds : Nat
  fuzzSeconds : Nat
  deriving DecidableEq, Repr

structure Artifact where
  id : Str
  label : Str
  sha256 : Str
  text : Str
  deriving DecidableEq, Repr

structure Manifest where
  runId : Str
  sourceTree : Str
  request : Request
  artifacts : List Artifact
  deriving DecidableEq, Repr

inductive Round where
  | independent | challenge
  deriving DecidableEq, Repr

def Round.label : Round → Str
  | .independent => "independent".toList
  | .challenge => "challenge".toList

inductive Severity where
  | low | medium | high | critical
  deriving DecidableEq, Repr

def Severity.blocking : Severity → Bool
  | .high | .critical => true
  | .low | .medium => false

inductive Verdict where
  | noBlockers | changesRequested | abstain
  deriving DecidableEq, Repr

def Verdict.debug : Verdict → Str
  | .noBlockers => "NoBlockers".toList
  | .changesRequested => "ChangesRequested".toList
  | .abstain => "Abstain".toList

inductive Gate where
  | format | check | clippy | pedantic | tests | antipatterns | fuzz | mutation
  deriving DecidableEq, Repr

def Gate.label : Gate → Str
  | .format => "format".toList
  | .check => "check".toList
  | .clippy => "clippy".toList
  | .pedantic => "pedantic".toList
  | .tests => "tests".toList
  | .antipatterns => "antipatterns".toList
  | .fuzz => "fuzz".toList
  | .mutation => "mutation".toList

def Gate.all : List Gate :=
  [.format, .check, .clippy, .pedantic, .tests, .antipatterns, .fuzz, .mutation]

def Gate.required (profile : Profile) : List Gate :=
  [.format, .check, .clippy, .pedantic, .tests, .antipatterns] ++
    if profile = .importantDecision then [.fuzz, .mutation] else []

structure Citation where
  artifactId : Str
  startLine : Nat
  endLine : Nat
  deriving DecidableEq, Repr

structure Finding where
  id : Str
  severity : Severity
  claim : Str
  citations : List Citation
  falsifier : Str
  requestedChecks : List Gate
  deriving DecidableEq, Repr

structure Challenge where
  findingId : Str
  disposition : Disposition
  rationale : Str
  deriving DecidableEq, Repr

structure Report where
  runId : Str
  reviewerId : Str
  round : Round
  verdict : Verdict
  summary : Str
  findings : List Finding
  responses : List Challenge
  deriving DecidableEq, Repr

inductive Outcome where
  | passed | failed | timedOut | outputLimit | unavailable | stale | inconclusive
  deriving DecidableEq, Repr

def Outcome.debug : Outcome → Str
  | .passed => "Passed".toList
  | .failed => "Failed".toList
  | .timedOut => "TimedOut".toList
  | .outputLimit => "OutputLimit".toList
  | .unavailable => "Unavailable".toList
  | .stale => "Stale".toList
  | .inconclusive => "Inconclusive".toList

structure Execution where
  runId : Str
  job : Str
  sourceTreeBefore : Str
  sourceTreeAfter : Str
  outcome : Outcome
  exitCode : Option Int
  deriving DecidableEq, Repr

structure Assessment where
  runId : Str
  state : AssessmentState
  reasons : List Str
  reportsReceived : Nat
  reportsExpected : Nat
  providerFamilies : List Str
  decisionOwner : Str
  deriving DecidableEq, Repr

def require (ok : Bool) (message : Str) : Except Str Unit :=
  if ok then .ok () else .error message

def blankText (text : Str) : Bool := trim text = []

def isCommitId (base : Str) : Bool :=
  (byteLength base = 40 || byteLength base = 64) &&
    base.all fun c => c.isDigit || ('a' ≤ c && c ≤ 'f')

def validModel (model : Str) : Bool :=
  model ≠ [] && byteLength model ≤ 128 && model.head? ≠ some '-' && !model.any isWhitespace

def validateReviewers (seen : List Str) : List Reviewer → Except Str Unit
  | [] => .ok ()
  | reviewer :: rest => do
      require (identifier reviewer.id && reviewer.id ∉ seen) "invalid or duplicate reviewer ID".toList
      require (reviewer.model.all validModel) "invalid model argument".toList
      validateReviewers (reviewer.id :: seen) rest

def families (reviewers : List Reviewer) : List Str :=
  ((reviewers.map (·.provider.family)).foldl (fun set family => set.insert family ())
    (SortedMap.empty : SortedMap Str Unit)).keys

def lenses : List Persona := [.correctness, .security, .architecture, .falsifier]

def validateRequest (request : Request) : Except Str Unit := do
  require (2 ≤ request.reviewers.length && request.reviewers.length ≤ 12)
    "roster needs 2–12 reviewers".toList
  require (1 ≤ request.timeoutSeconds && request.timeoutSeconds ≤ 3600)
    "timeout must be 1–3600 seconds".toList
  require (1 ≤ request.fuzzSeconds && request.fuzzSeconds ≤ 600)
    "fuzz budget must be 1–600 seconds".toList
  require (request.contextFiles.length ≤ 32) "too many context files".toList
  require (identifier request.mutationPackage)
    "mutation package must be one explicit package".toList
  require (request.mutationBase.all isCommitId)
    "mutation base must be a full lowercase commit ID".toList
  require (request.fuzzTargets ≠ [] && request.fuzzTargets.length ≤ 8)
    "fuzz scope must be explicit and nonempty".toList
  request.fuzzTargets.forM fun target => require (identifier target) "invalid fuzz target".toList
  validateReviewers [] request.reviewers
  require (2 ≤ (families request.reviewers).length)
    "personas in one provider family are not independent providers".toList
  if request.profile = .importantDecision then
    lenses.forM fun persona =>
      require (request.reviewers.any fun r => r.persona = persona)
        ("important decision lacks ".toList ++ persona.debug ++ " lens".toList)

def validateCitation (manifest : Manifest) (citation : Citation) : Except Str Unit :=
  match manifest.artifacts.find? fun a => a.id = citation.artifactId with
  | none => .error "fabricated artifact citation".toList
  | some artifact =>
      require (0 < citation.startLine && citation.startLine ≤ citation.endLine &&
          citation.endLine ≤ (splitLines artifact.text).length)
        "citation line range is outside captured artifact".toList

def validateFindings (manifest : Manifest) (reviewerId : Str) (seen : List Str) :
    List Finding → Except Str Unit
  | [] => .ok ()
  | finding :: rest => do
      require (startsWith (reviewerId ++ [':']) finding.id && byteLength finding.id ≤ 164 &&
          finding.id ∉ seen)
        "invalid or duplicate finding identity".toList
      require (!blankText finding.claim && byteLength finding.claim ≤ 8192) "invalid claim".toList
      require (!blankText finding.falsifier && byteLength finding.falsifier ≤ 2048)
        "claim needs a concrete falsification route".toList
      require (finding.citations ≠ [] && finding.citations.length ≤ 16)
        "claim needs bounded citations".toList
      require (finding.requestedChecks.length ≤ 8) "too many requested checks".toList
      finding.citations.forM (validateCitation manifest)
      validateFindings manifest reviewerId (finding.id :: seen) rest

def validateResponses (seen : List Str) : List Challenge → Except Str Unit
  | [] => .ok ()
  | response :: rest => do
      require (response.findingId ∉ seen && !blankText response.rationale &&
          byteLength response.rationale ≤ 8192)
        "invalid or duplicate challenge response".toList
      validateResponses (response.findingId :: seen) rest

def validateReport (manifest : Manifest) (report : Report) : Except Str Unit := do
  require (report.runId = manifest.runId) "stale or unrelated report".toList
  require (manifest.request.reviewers.any fun r => r.id = report.reviewerId)
    "unknown reviewer".toList
  require (!blankText report.summary && byteLength report.summary ≤ 8192) "invalid summary".toList
  require (report.findings.length ≤ 128 && report.responses.length ≤ 1536)
    "report count budget exceeded".toList
  validateFindings manifest report.reviewerId [] report.findings
  require (report.verdict ≠ .noBlockers || !report.findings.any fun f => f.severity.blocking)
    "no_blockers contradicts a high/critical finding".toList
  require (report.round ≠ .independent || report.responses.isEmpty)
    "independent round must be blind".toList
  validateResponses [] report.responses

abbrev Received := SortedMap (Str ×ₗ Str) Report

def Report.pair (report : Report) : Str ×ₗ Str := toLex (report.reviewerId, report.round.label)

def receive (manifest : Manifest) : Received → List Report → Except Str Received
  | received, [] => .ok received
  | received, report :: reports => do
      validateReport manifest report
      require (received.get report.pair).isNone "duplicate report for reviewer/round".toList
      receive manifest (received.insert report.pair report) reports

def fileJobs : SortedMap Str Execution → List Execution → Except Str (SortedMap Str Execution)
  | jobs, [] => .ok jobs
  | jobs, execution :: executions => do
      require (jobs.get execution.job).isNone "duplicate execution receipt".toList
      fileJobs (jobs.insert execution.job execution) executions

def externalFindings (reports : List Report) : SortedMap Str Str :=
  ((reports.filter (·.round = .independent)).flatMap fun r =>
    r.findings.map fun f => (f.id, r.reviewerId)).foldl
      (fun owners entry => owners.insert entry.1 entry.2) SortedMap.empty

def Execution.measured (manifest : Manifest) (e : Execution) : Bool :=
  e.runId = manifest.runId && e.outcome = .passed && e.exitCode = some 0 &&
    e.sourceTreeBefore = manifest.sourceTree && e.sourceTreeAfter = manifest.sourceTree

def checkExecution (manifest : Manifest) (execution : Option Execution) (job : Str) : List Str :=
  match execution with
  | some e =>
      if e.measured manifest then []
      else [job ++ ": ".toList ++ e.outcome.debug ++ " or stale receipt".toList]
  | none => [job ++ ": no measured execution receipt".toList]

def checkChallenge (report : Report) (reviewer : Reviewer) (owners : SortedMap Str Str) :
    List Str :=
  if report.round ≠ .challenge then []
  else
    let needed := (owners.entries.filter fun entry => entry.2 ≠ reviewer.id).map (·.1)
    let addressed := report.responses.map (·.findingId)
    (if addressed.toFinset ≠ needed.toFinset then
      [reviewer.id ++ " challenge does not address exactly the other reviewers' findings".toList]
    else []) ++
    (if report.responses.any fun r => r.disposition = .needsTest then
      [reviewer.id ++ " requests unresolved verification".toList]
    else [])

def reviewJob (reviewer : Reviewer) (round : Round) : Str :=
  "review-".toList ++ reviewer.id ++ '-' :: round.label

def gateJob (gate : Gate) : Str := "gate-".toList ++ gate.label

def roundReasons (manifest : Manifest) (received : Received) (jobs : SortedMap Str Execution)
    (owners : SortedMap Str Str) (reviewer : Reviewer) (round : Round) : List Str :=
  checkExecution manifest (jobs.get (reviewJob reviewer round)) (reviewJob reviewer round) ++
    match received.get (toLex (reviewer.id, round.label)) with
    | none => ["missing ".toList ++ reviewer.id ++ ' ' :: round.label ++ " review".toList]
    | some report =>
        (if report.verdict ≠ .noBlockers then
          [reviewer.id ++ ' ' :: round.label ++ " is ".toList ++ report.verdict.debug]
        else []) ++ checkChallenge report reviewer owners

def requiredGates (manifest : Manifest) (reports : List Report) : List Gate :=
  Gate.all.filter fun gate => gate ∈ Gate.required manifest.request.profile ||
    reports.any fun r => r.findings.any fun f => gate ∈ f.requestedChecks

def lineageReasons (manifest : Manifest) : List Str :=
  if (families manifest.request.reviewers).any
      fun family => family ≠ manifest.request.builderFamily.label then []
  else ["no independent reviewer lineage beyond the builder".toList]

def reasons (manifest : Manifest) (reports : List Report) (received : Received)
    (jobs : SortedMap Str Execution) (currentTree : Str) : List Str :=
  (if currentTree ≠ manifest.sourceTree then
    ["workspace changed: reviews and gate receipts are stale".toList]
  else []) ++
  (manifest.request.reviewers.flatMap fun reviewer =>
    [Round.independent, .challenge].flatMap
      (roundReasons manifest received jobs (externalFindings reports) reviewer)) ++
  ((requiredGates manifest reports).flatMap fun gate =>
    checkExecution manifest (jobs.get (gateJob gate)) (gateJob gate)) ++
  lineageReasons manifest ++
  (if reports.any fun r => r.round = .independent && r.findings.any fun f => f.severity.blocking then
    ["high/critical independent findings require a revised candidate and fresh run".toList]
  else [])

def assess (manifest : Manifest) (reports : List Report) (executions : List Execution)
    (currentTree : Str) : Except Str Assessment := do
  validateRequest manifest.request
  let received ← receive manifest SortedMap.empty reports
  let jobs ← fileJobs SortedMap.empty executions
  let reasons := reasons manifest reports received jobs currentTree
  return {
    runId := manifest.runId
    state := if reasons = [] then .readyForHumanReview else .hold
    reasons
    reportsReceived := received.entries.length
    reportsExpected := manifest.request.reviewers.length * 2
    providerFamilies := families manifest.request.reviewers
    decisionOwner := "human".toList }

end DeepDiffForge.Review
