import DeepDiffForge.Review.Policy

/-! What a run qualifies by: the gate is open exactly when nothing required is missing, whatever
the order of the reports and the receipts. -/

namespace DeepDiffForge.Review
open Text

theorem unit_bind {α : Type} (first : Except Str Unit) (next : Unit → Except Str α) (result : α) :
    first.bind next = .ok result ↔ first = .ok () ∧ next () = .ok result := by
  cases first <;> simp [Except.bind]

theorem require_ok (ok : Bool) (message : Str) : require ok message = .ok () ↔ ok = true := by
  cases ok <;> simp [require]

theorem validateReviewers_ids (seen : List Str) (reviewers : List Reviewer)
    (valid : validateReviewers seen reviewers = .ok ()) :
    ∀ reviewer ∈ reviewers, identifier reviewer.id = true := by
  induction reviewers generalizing seen with
  | nil => simp
  | cons reviewer rest ih =>
    simp only [validateReviewers, bind, unit_bind, require_ok, Bool.and_eq_true] at valid
    intro other member
    rcases List.mem_cons.1 member with rfl | later
    · exact valid.1.1
    · exact ih _ valid.2.2 other later

theorem validateRequest_ids (request : Request) (valid : validateRequest request = .ok ()) :
    ∀ reviewer ∈ request.reviewers, identifier reviewer.id = true := by
  simp only [validateRequest, bind, unit_bind, require_ok] at valid
  obtain ⟨-, -, -, -, -, -, -, -, checked, -⟩ := valid
  exact validateReviewers_ids [] request.reviewers checked

theorem identifier_colonless (id : Str) (valid : identifier id = true) : ':' ∉ id := by
  intro member
  simp only [identifier, Bool.and_eq_true, List.all_eq_true] at valid
  exact absurd (valid.2 ':' member) (by decide)

theorem validateFindings_ids (manifest : Manifest) (reviewerId : Str) (seen : List Str)
    (findings : List Finding) (valid : validateFindings manifest reviewerId seen findings = .ok ()) :
    ∀ f ∈ findings, ∃ rest, f.id = reviewerId ++ ':' :: rest := by
  induction findings generalizing seen with
  | nil => simp
  | cons finding findings ih =>
    simp only [validateFindings, bind, unit_bind, require_ok, Bool.and_eq_true] at valid
    obtain ⟨⟨⟨begins, -⟩, -⟩, -, -, -, -, -, rest⟩ := valid
    intro f member
    rcases List.mem_cons.1 member with rfl | later
    · obtain ⟨rest, whole⟩ := (startsWith_iff _ _).1 begins
      exact ⟨rest, by rw [whole, List.append_assoc]; rfl⟩
    · exact ih _ rest f later

/-- What an admitted report is known to be. -/
theorem validateReport_facts (manifest : Manifest) (report : Report)
    (valid : validateReport manifest report = .ok ()) :
    (∃ reviewer ∈ manifest.request.reviewers, reviewer.id = report.reviewerId) ∧
    (∀ f ∈ report.findings, ∃ rest, f.id = report.reviewerId ++ ':' :: rest) ∧
    (report.verdict = .noBlockers → ∀ f ∈ report.findings, f.severity.blocking = false) := by
  simp only [validateReport, bind, unit_bind, require_ok] at valid
  obtain ⟨-, known, -, -, findings, verdict, -, -⟩ := valid
  refine ⟨by simpa using known, validateFindings_ids _ _ _ _ findings, ?_⟩
  intro absent f member
  simp only [absent, Bool.or_eq_true, decide_eq_true_eq, ne_eq, not_true_eq_false, false_or,
    Bool.not_eq_true', List.any_eq_false] at verdict
  exact Bool.eq_false_iff.2 (verdict f member)

theorem round_label_inj (one two : Round) (same : one.label = two.label) : one = two := by
  cases one <;> cases two <;> first | rfl | exact absurd same (by decide)

theorem pair_eq (report : Report) (id : Str) (round : Round) :
    report.pair = toLex (id, round.label) ↔ report.reviewerId = id ∧ report.round = round := by
  constructor
  · intro same
    obtain ⟨ids, labels⟩ := Prod.mk.inj (toLex_inj.1 same)
    exact ⟨ids, round_label_inj _ _ labels⟩
  · rintro ⟨rfl, rfl⟩
    rfl

def filed (reports : List Report) : Received :=
  reports.foldl (fun received report => received.insert report.pair report) SortedMap.empty

def jobsOf (executions : List Execution) : SortedMap Str Execution :=
  executions.foldl (fun jobs execution => jobs.insert execution.job execution) SortedMap.empty

theorem receive_ok (manifest : Manifest) (reports : List Report) (received last : Received) :
    receive manifest received reports = .ok last ↔
      (∀ r ∈ reports, validateReport manifest r = .ok ()) ∧ (reports.map Report.pair).Nodup ∧
      (∀ r ∈ reports, received.get r.pair = none) ∧
      last = reports.foldl (fun received report => received.insert report.pair report) received := by
  induction reports generalizing received with
  | nil => simp [receive, eq_comm]
  | cons report reports ih =>
    simp only [receive, bind, unit_bind, require_ok, ih, Option.isNone_iff_eq_none,
      SortedMap.get_insert, List.forall_mem_cons, List.map_cons, List.nodup_cons, List.foldl_cons,
      List.mem_map, not_exists, not_and]
    constructor
    · rintro ⟨valid, free, valids, once, apart, rfl⟩
      refine ⟨⟨valid, valids⟩, ⟨?_, once⟩, ⟨free, ?_⟩, rfl⟩
      · intro other member same
        have taken := apart other member
        rw [if_pos same.symm] at taken
        cases taken
      · intro other member
        have opened := apart other member
        split_ifs at opened
        exact opened
    · rintro ⟨⟨valid, valids⟩, ⟨apart, once⟩, ⟨free, frees⟩, rfl⟩
      refine ⟨valid, free, valids, once, ?_, rfl⟩
      intro other member
      rw [if_neg (fun same => apart other member same.symm)]
      exact frees other member

theorem fileJobs_ok (executions : List Execution) (jobs last : SortedMap Str Execution) :
    fileJobs jobs executions = .ok last ↔
      (executions.map (·.job)).Nodup ∧ (∀ e ∈ executions, jobs.get e.job = none) ∧
      last = executions.foldl (fun jobs execution => jobs.insert execution.job execution) jobs := by
  induction executions generalizing jobs with
  | nil => simp [fileJobs, eq_comm]
  | cons execution executions ih =>
    simp only [fileJobs, bind, unit_bind, require_ok, ih, Option.isNone_iff_eq_none,
      SortedMap.get_insert, List.forall_mem_cons, List.map_cons, List.nodup_cons, List.foldl_cons,
      List.mem_map, not_exists, not_and]
    constructor
    · rintro ⟨free, once, apart, rfl⟩
      refine ⟨⟨?_, once⟩, ⟨free, ?_⟩, rfl⟩
      · intro other member same
        have taken := apart other member
        rw [if_pos same.symm] at taken
        cases taken
      · intro other member
        have opened := apart other member
        split_ifs at opened
        exact opened
    · rintro ⟨⟨apart, once⟩, ⟨free, frees⟩, rfl⟩
      refine ⟨free, once, ?_, rfl⟩
      intro other member
      rw [if_neg (fun same => apart other member same.symm)]
      exact frees other member

def assessment (manifest : Manifest) (reports : List Report) (executions : List Execution)
    (currentTree : Str) : Assessment :=
  let reasons := reasons manifest reports (filed reports) (jobsOf executions) currentTree
  { runId := manifest.runId
    state := if reasons = [] then .readyForHumanReview else .hold
    reasons
    reportsReceived := (filed reports).entries.length
    reportsExpected := manifest.request.reviewers.length * 2
    providerFamilies := families manifest.request.reviewers
    decisionOwner := "human".toList }

theorem assess_ok (manifest : Manifest) (reports : List Report) (executions : List Execution)
    (currentTree : Str) (valid : validateRequest manifest.request = .ok ()) (result : Assessment) :
    assess manifest reports executions currentTree = .ok result ↔
      (∀ r ∈ reports, validateReport manifest r = .ok ()) ∧ (reports.map Report.pair).Nodup ∧
      (executions.map (·.job)).Nodup ∧
      result = assessment manifest reports executions currentTree := by
  have blank (r : Report) : (SortedMap.empty : Received).get r.pair = none := rfl
  have absent (e : Execution) : (SortedMap.empty : SortedMap Str Execution).get e.job = none := rfl
  simp only [assess, valid, bind, Except.bind]
  cases received : receive manifest SortedMap.empty reports with
  | error error =>
    have refused := (receive_ok manifest reports SortedMap.empty (filed reports)).not.1
      (by rw [received]; simp)
    simp only [reduceCtorEq, false_iff]
    rintro ⟨valids, once, -, -⟩
    exact refused ⟨valids, once, fun r _ => blank r, rfl⟩
  | ok all =>
    obtain ⟨valids, once, -, rfl⟩ := (receive_ok manifest reports SortedMap.empty all).1 received
    dsimp only
    cases filing : fileJobs SortedMap.empty executions with
    | error error =>
      have refused := (fileJobs_ok executions SortedMap.empty (jobsOf executions)).not.1
        (by rw [filing]; simp)
      simp only [reduceCtorEq, false_iff]
      rintro ⟨-, -, once', -⟩
      exact refused ⟨once', fun e _ => absent e, rfl⟩
    | ok jobs =>
      obtain ⟨once', -, rfl⟩ := (fileJobs_ok executions SortedMap.empty jobs).1 filing
      constructor
      · intro accepted
        exact ⟨valids, once, once', (Except.ok.inj accepted).symm⟩
      · rintro ⟨-, -, -, rfl⟩
        rfl

def NeededJob (manifest : Manifest) (reports : List Report) (job : Str) : Prop :=
  (∃ reviewer ∈ manifest.request.reviewers, ∃ round, job = reviewJob reviewer round) ∨
  ∃ gate, (gate ∈ Gate.required manifest.request.profile ∨
    ∃ r ∈ reports, ∃ f ∈ r.findings, gate ∈ f.requestedChecks) ∧ job = gateJob gate

def othersFindings (reports : List Report) (reviewerId : Str) : List Str :=
  (reports.filter fun r => r.round = .independent && r.reviewerId ≠ reviewerId).flatMap fun r =>
    r.findings.map (·.id)

structure Qualified (manifest : Manifest) (reports : List Report) (executions : List Execution)
    (currentTree : Str) : Prop where
  tree : currentTree = manifest.sourceTree
  admitted : ∀ r ∈ reports, validateReport manifest r = .ok ()
  complete : ∀ reviewer ∈ manifest.request.reviewers, ∀ round, ∃ report,
    (reports.filter fun r => r.reviewerId = reviewer.id && r.round = round) = [report] ∧
      report.verdict = .noBlockers
  answered : ∀ report ∈ reports, report.round = .challenge →
    (report.responses.map (·.findingId)).toFinset =
        (othersFindings reports report.reviewerId).toFinset ∧
      ∀ response ∈ report.responses, response.disposition ≠ .needsTest
  receipts : ∀ job, NeededJob manifest reports job → ∃ e,
    (executions.filter fun e => e.job = job) = [e] ∧ e.runId = manifest.runId ∧
      e.outcome = .passed ∧ e.exitCode = some 0 ∧ e.sourceTreeBefore = manifest.sourceTree ∧
      e.sourceTreeAfter = manifest.sourceTree
  lineage : ∃ reviewer ∈ manifest.request.reviewers,
    reviewer.provider.family ≠ manifest.request.builderFamily.label

section Filed
variable (reports : List Report) (executions : List Execution)

theorem functional_of_nodup {Item K : Type} (key : Item → K) (items : List Item)
    (once : (items.map key).Nodup) :
    ∀ one ∈ items, ∀ two ∈ items, key one = key two → one = two :=
  fun _ first _ second same => List.inj_on_of_nodup_map once first second same

theorem filed_get (once : (reports.map Report.pair).Nodup) (id : Str) (round : Round)
    (report : Report) : (filed reports).get (toLex (id, round.label)) = some report ↔
      (reports.filter fun r => r.reviewerId = id && r.round = round) = [report] := by
  rw [filed, SortedMap.get_foldl Report.pair (fun r => r) reports
    (functional_of_nodup Report.pair reports once)]
  have predicate (r other : Report) (named : other.reviewerId = id ∧ other.round = round) :
      decide (r.pair = other.pair) = (decide (r.reviewerId = id) && decide (r.round = round)) := by
    rw [(pair_eq other id round).2 named, ← Bool.decide_and, decide_eq_decide]
    exact pair_eq r id round
  constructor
  · rintro ⟨r, member, pair, rfl⟩
    have named := (pair_eq r id round).1 pair
    rw [← (filter_key Report.pair reports once r).2 member]
    exact List.filter_congr fun other _ => (predicate other r named).symm
  · intro alone
    have member : report ∈ reports.filter fun r => r.reviewerId = id && r.round = round := by
      rw [alone]
      exact List.mem_singleton_self report
    obtain ⟨listed, named⟩ := List.mem_filter.1 member
    rw [Bool.and_eq_true, decide_eq_true_eq, decide_eq_true_eq] at named
    exact ⟨report, listed, (pair_eq report id round).2 named, rfl⟩

theorem jobsOf_get (once : (executions.map (·.job)).Nodup) (job : Str) (e : Execution) :
    (jobsOf executions).get job = some e ↔
      (executions.filter fun e => e.job = job) = [e] := by
  rw [jobsOf, SortedMap.get_foldl (·.job) (fun e => e) executions
    (functional_of_nodup (·.job) executions once)]
  constructor
  · rintro ⟨e, member, rfl, rfl⟩
    exact (filter_key (·.job) executions once e).2 member
  · intro alone
    have member : e ∈ executions.filter fun e => e.job = job := by
      rw [alone]
      exact List.mem_singleton_self e
    obtain ⟨listed, named⟩ := List.mem_filter.1 member
    exact ⟨e, listed, by simpa using named, rfl⟩

/-- A finding's id names its reviewer. -/
theorem owner_unique (one two rest rest' : Str) (plain : ':' ∉ one) (plain' : ':' ∉ two)
    (same : one ++ ':' :: rest = two ++ ':' :: rest') : one = two := by
  induction one generalizing two with
  | nil =>
    cases two with
    | nil => rfl
    | cons c two =>
      obtain ⟨rfl, -⟩ := List.cons.inj same
      exact absurd (List.mem_cons_self ..) plain'
  | cons c one ih =>
    cases two with
    | nil =>
      obtain ⟨rfl, -⟩ := List.cons.inj same
      exact absurd (List.mem_cons_self ..) plain
    | cons d two =>
      obtain ⟨rfl, tail⟩ := List.cons.inj same
      rw [ih two (fun member => plain (List.mem_cons_of_mem _ member))
        (fun member => plain' (List.mem_cons_of_mem _ member)) tail]

variable (manifest : Manifest)

theorem report_colonless (valid : validateRequest manifest.request = .ok ()) (report : Report)
    (admitted : validateReport manifest report = .ok ()) : ':' ∉ report.reviewerId := by
  obtain ⟨⟨reviewer, member, named⟩, -, -⟩ := validateReport_facts manifest report admitted
  rw [← named]
  exact identifier_colonless _ (validateRequest_ids _ valid reviewer member)

def owners : List (Str × Str) :=
  (reports.filter (·.round = .independent)).flatMap fun r =>
    r.findings.map fun f => (f.id, r.reviewerId)

theorem externalFindings_eq : externalFindings reports =
    (owners reports).foldl (fun map entry => map.insert entry.1 entry.2) SortedMap.empty := rfl

theorem owners_functional (valid : validateRequest manifest.request = .ok ())
    (admitted : ∀ r ∈ reports, validateReport manifest r = .ok ()) :
    ∀ one ∈ owners reports, ∀ two ∈ owners reports, one.1 = two.1 → one.2 = two.2 := by
  intro one first two second same
  obtain ⟨r, listed, found⟩ := List.mem_flatMap.1 first
  obtain ⟨r', listed', found'⟩ := List.mem_flatMap.1 second
  obtain ⟨f, member, rfl⟩ := List.mem_map.1 found
  obtain ⟨f', member', rfl⟩ := List.mem_map.1 found'
  have known := admitted r (List.mem_of_mem_filter listed)
  have known' := admitted r' (List.mem_of_mem_filter listed')
  obtain ⟨rest, whole⟩ := (validateReport_facts manifest r known).2.1 f member
  obtain ⟨rest', whole'⟩ := (validateReport_facts manifest r' known').2.1 f' member'
  exact owner_unique _ _ rest rest' (report_colonless manifest valid r known)
    (report_colonless manifest valid r' known') (whole ▸ whole' ▸ same)

theorem externalFindings_needed (valid : validateRequest manifest.request = .ok ())
    (admitted : ∀ r ∈ reports, validateReport manifest r = .ok ()) (reviewerId : Str) :
    (((externalFindings reports).entries.filter fun entry => entry.2 ≠ reviewerId).map
      (·.1)).toFinset = (othersFindings reports reviewerId).toFinset := by
  ext id
  simp only [List.mem_toFinset, List.mem_map, List.mem_filter, decide_eq_true_eq, Prod.exists,
    exists_and_right, exists_eq_right]
  have read (owner : Str) : (id, owner) ∈ (externalFindings reports).entries ↔
      (id, owner) ∈ owners reports := by
    rw [← SortedMap.get_eq_some, externalFindings_eq, SortedMap.get_foldl
      (fun entry : Str × Str => entry.1) (fun entry => entry.2) _
      (owners_functional reports manifest valid admitted)]
    constructor
    · rintro ⟨entry, member, rfl, rfl⟩
      exact member
    · intro member
      exact ⟨_, member, rfl, rfl⟩
  simp only [read, owners, othersFindings, List.mem_flatMap, List.mem_map, List.mem_filter,
    Bool.and_eq_true, decide_eq_true_eq]
  constructor
  · rintro ⟨owner, ⟨r, ⟨listed, round⟩, f, member, same⟩, other⟩
    obtain ⟨rfl, rfl⟩ := Prod.mk.inj same
    exact ⟨r, ⟨listed, round, other⟩, f, member, rfl⟩
  · rintro ⟨r, ⟨listed, round, other⟩, f, member, rfl⟩
    exact ⟨r.reviewerId, ⟨r, ⟨listed, round⟩, f, member, rfl⟩, other⟩

end Filed

section Ready
variable (manifest : Manifest) (reports : List Report) (executions : List Execution)
  (currentTree : Str)

theorem checkExecution_nil (execution : Option Execution) (job : Str) :
    checkExecution manifest execution job = [] ↔
      ∃ e, execution = some e ∧ e.measured manifest = true := by
  cases execution with
  | none => simp [checkExecution]
  | some e =>
    simp only [checkExecution, Option.some.injEq, exists_eq_left']
    split_ifs with measured <;> simp [measured]

theorem checkChallenge_nil (valid : validateRequest manifest.request = .ok ())
    (admitted : ∀ r ∈ reports, validateReport manifest r = .ok ()) (report : Report)
    (reviewer : Reviewer) :
    checkChallenge report reviewer (externalFindings reports) = [] ↔
      (report.round = .challenge →
        (report.responses.map (·.findingId)).toFinset =
            (othersFindings reports reviewer.id).toFinset ∧
          ∀ response ∈ report.responses, response.disposition ≠ .needsTest) := by
  unfold checkChallenge
  by_cases round : report.round = .challenge
  · rw [if_neg (not_not.2 round)]
    dsimp only
    rw [externalFindings_needed reports manifest valid admitted, List.append_eq_nil_iff]
    constructor
    · rintro ⟨first, second⟩ _
      refine ⟨?_, ?_⟩
      · by_contra apart
        rw [if_pos apart] at first
        cases first
      · intro response member tests
        rw [if_pos (List.any_eq_true.2 ⟨response, member, by simpa using tests⟩)] at second
        cases second
    · intro answered
      obtain ⟨same, absent⟩ := answered round
      rw [if_neg (not_not.2 same), if_neg]
      · exact ⟨rfl, rfl⟩
      · rw [List.any_eq_true]
        rintro ⟨response, member, tests⟩
        exact absent response member (by simpa using tests)
  · rw [if_pos round]
    simp [round]

theorem lineageReasons_nil : lineageReasons manifest = [] ↔
    ∃ reviewer ∈ manifest.request.reviewers,
      reviewer.provider.family ≠ manifest.request.builderFamily.label := by
  have listed (family : Str) : family ∈ families manifest.request.reviewers ↔
      ∃ reviewer ∈ manifest.request.reviewers, reviewer.provider.family = family := by
    rw [families, SortedMap.mem_keys_foldl (fun family : Str => family) (fun _ => ())]
    simp [SortedMap.keys, SortedMap.empty]
  unfold lineageReasons
  split_ifs with present
  · simp only [true_iff]
    obtain ⟨family, member, apart⟩ := List.any_eq_true.1 present
    obtain ⟨reviewer, known, rfl⟩ := (listed family).1 member
    exact ⟨reviewer, known, by simpa using apart⟩
  · simp only [false_iff]
    rintro ⟨reviewer, known, apart⟩
    exact present (List.any_eq_true.2
      ⟨_, (listed _).2 ⟨reviewer, known, rfl⟩, by simpa using apart⟩)

theorem mem_requiredGates (gate : Gate) : gate ∈ requiredGates manifest reports ↔
    gate ∈ Gate.required manifest.request.profile ∨
      ∃ r ∈ reports, ∃ f ∈ r.findings, gate ∈ f.requestedChecks := by
  have every : gate ∈ Gate.all := by cases gate <;> decide
  simp [requiredGates, every]

/-- The gate is open exactly to a run that shows everything. -/
theorem reasons_nil (valid : validateRequest manifest.request = .ok ())
    (admitted : ∀ r ∈ reports, validateReport manifest r = .ok ())
    (once : (reports.map Report.pair).Nodup) (once' : (executions.map (·.job)).Nodup) :
    reasons manifest reports (filed reports) (jobsOf executions) currentTree = [] ↔
      Qualified manifest reports executions currentTree := by
  have receipt (job : Str) :
      checkExecution manifest ((jobsOf executions).get job) job = [] ↔
        ∃ e, (executions.filter fun e => e.job = job) = [e] ∧ e.runId = manifest.runId ∧
          e.outcome = .passed ∧ e.exitCode = some 0 ∧
          e.sourceTreeBefore = manifest.sourceTree ∧ e.sourceTreeAfter = manifest.sourceTree := by
    rw [checkExecution_nil]
    simp only [jobsOf_get executions once', Execution.measured, Bool.and_eq_true,
      decide_eq_true_eq, and_assoc]
  have rounds (reviewer : Reviewer) (round : Round) :
      roundReasons manifest (filed reports) (jobsOf executions) (externalFindings reports) reviewer
        round = [] ↔
      checkExecution manifest ((jobsOf executions).get (reviewJob reviewer round))
          (reviewJob reviewer round) = [] ∧
        ∃ report, (reports.filter fun r => r.reviewerId = reviewer.id && r.round = round) =
          [report] ∧ report.verdict = .noBlockers ∧
          (round = .challenge → (report.responses.map (·.findingId)).toFinset =
              (othersFindings reports reviewer.id).toFinset ∧
            ∀ response ∈ report.responses, response.disposition ≠ .needsTest) := by
    rw [roundReasons, List.append_eq_nil_iff]
    refine and_congr_right fun _ => ?_
    cases found : (filed reports).get (toLex (reviewer.id, round.label)) with
    | none =>
      simp only [reduceCtorEq, false_iff]
      rintro ⟨report, alone, -⟩
      rw [(filed_get reports once reviewer.id round report).2 alone] at found
      cases found
    | some report =>
      have alone := (filed_get reports once reviewer.id round report).1 found
      have member : report ∈ reports.filter fun r => r.reviewerId = reviewer.id && r.round = round := by
        rw [alone]
        exact List.mem_singleton_self report
      have named := (List.mem_filter.1 member).2
      rw [Bool.and_eq_true, decide_eq_true_eq, decide_eq_true_eq] at named
      dsimp only
      rw [List.append_eq_nil_iff, checkChallenge_nil manifest reports valid admitted, named.2]
      constructor
      · rintro ⟨verdict, answered⟩
        refine ⟨report, alone, ?_, answered⟩
        by_contra other
        rw [if_pos other] at verdict
        cases verdict
      · rintro ⟨report', alone', verdict, answered⟩
        obtain rfl := (List.cons.inj (alone.symm.trans alone')).1
        exact ⟨if_neg (not_not.2 verdict), answered⟩
  have one_of (report : Report) (member : report ∈ reports) :
      (reports.filter fun r => r.reviewerId = report.reviewerId && r.round = report.round) =
        [report] :=
    (filed_get reports once _ _ report).1 ((SortedMap.get_foldl Report.pair (fun r => r) reports
      (functional_of_nodup Report.pair reports once) _ _).2 ⟨report, member, rfl, rfl⟩)
  simp only [reasons, List.append_eq_nil_iff, List.flatMap_eq_nil_iff, lineageReasons_nil, rounds,
    receipt, mem_requiredGates]
  constructor
  · rintro ⟨⟨⟨⟨tree, reviewers⟩, gates⟩, lineage⟩, -⟩
    refine ⟨?_, admitted, ?_, ?_, ?_, lineage⟩
    · by_contra apart
      rw [if_pos apart] at tree
      cases tree
    · intro reviewer known round
      obtain ⟨-, report, alone, verdict, -⟩ :=
        reviewers reviewer known round (by cases round <;> simp)
      exact ⟨report, alone, verdict⟩
    · intro report member round
      obtain ⟨⟨reviewer, known, named⟩, -, -⟩ :=
        validateReport_facts manifest report (admitted report member)
      obtain ⟨-, report', alone, -, answered⟩ := reviewers reviewer known .challenge (by simp)
      have alone' := one_of report member
      rw [round, ← named] at alone'
      obtain rfl := (List.cons.inj (alone.symm.trans alone')).1
      rw [← named]
      exact answered rfl
    · rintro job (⟨reviewer, known, round, rfl⟩ | ⟨gate, needed, rfl⟩)
      · exact (reviewers reviewer known round (by cases round <;> simp)).1
      · exact gates gate needed
  · intro qualified
    refine ⟨⟨⟨⟨if_neg (not_not.2 qualified.tree), ?_⟩, ?_⟩, qualified.lineage⟩, ?_⟩
    · intro reviewer known round _
      refine ⟨qualified.receipts _ (.inl ⟨reviewer, known, round, rfl⟩), ?_⟩
      obtain ⟨report, alone, verdict⟩ := qualified.complete reviewer known round
      have member : report ∈ reports.filter fun r => r.reviewerId = reviewer.id && r.round = round := by
        rw [alone]
        exact List.mem_singleton_self report
      obtain ⟨listed, named⟩ := List.mem_filter.1 member
      rw [Bool.and_eq_true, decide_eq_true_eq, decide_eq_true_eq] at named
      refine ⟨report, alone, verdict, ?_⟩
      intro challenge
      rw [← named.1]
      exact qualified.answered report listed (named.2.trans challenge)
    · intro gate needed
      exact qualified.receipts _ (.inr ⟨gate, needed, rfl⟩)
    · rw [if_neg]
      rw [List.any_eq_true]
      rintro ⟨report, member, blocking⟩
      rw [Bool.and_eq_true, List.any_eq_true] at blocking
      obtain ⟨-, f, made, high⟩ := blocking
      obtain ⟨⟨reviewer, known, named⟩, -, clear⟩ :=
        validateReport_facts manifest report (admitted report member)
      obtain ⟨report', alone, verdict⟩ := qualified.complete reviewer known report.round
      have alone' := one_of report member
      rw [← named] at alone'
      obtain rfl := (List.cons.inj (alone.symm.trans alone')).1
      rw [clear verdict f made] at high
      cases high

/-- A complete run files one report for each reviewer and round. -/
theorem qualified_once (qualified : Qualified manifest reports executions currentTree) :
    (reports.map Report.pair).Nodup := by
  refine nodup_of_single Report.pair reports ?_
  intro report member
  obtain ⟨⟨reviewer, known, named⟩, -, -⟩ :=
    validateReport_facts manifest report (qualified.admitted report member)
  obtain ⟨alone, whole, -⟩ := qualified.complete reviewer known report.round
  refine ⟨alone, Eq.trans (List.filter_congr ?_) whole⟩
  intro other _
  rw [← Bool.decide_and, decide_eq_decide, named]
  exact pair_eq other report.reviewerId report.round

/-- No report of a complete run has a high or critical finding. -/
theorem qualified_clear (qualified : Qualified manifest reports executions currentTree)
    (report : Report) (member : report ∈ reports) (f : Finding) (made : f ∈ report.findings) :
    f.severity.blocking = false := by
  obtain ⟨⟨reviewer, known, named⟩, -, clear⟩ :=
    validateReport_facts manifest report (qualified.admitted report member)
  obtain ⟨alone, whole, verdict⟩ := qualified.complete reviewer known report.round
  have listed : report ∈ reports.filter fun r =>
      r.reviewerId = reviewer.id && r.round = report.round :=
    List.mem_filter.2 ⟨member, by simp [named]⟩
  rw [whole, List.mem_singleton] at listed
  exact clear (listed ▸ verdict) f made

theorem assessment_perm (valid : validateRequest manifest.request = .ok ())
    (admitted : ∀ r ∈ reports, validateReport manifest r = .ok ())
    (once : (reports.map Report.pair).Nodup) (once' : (executions.map (·.job)).Nodup)
    (reports' : List Report) (executions' : List Execution) (perm : reports.Perm reports')
    (perm' : executions.Perm executions') :
    assessment manifest reports executions currentTree =
      assessment manifest reports' executions' currentTree := by
  have received : filed reports = filed reports' :=
    SortedMap.foldl_perm Report.pair (fun r => r) reports reports'
      (functional_of_nodup Report.pair reports once) perm
  have jobs : jobsOf executions = jobsOf executions' :=
    SortedMap.foldl_perm (fun e : Execution => e.job) (fun e => e) executions executions'
      (functional_of_nodup (·.job) executions once') perm'
  have external : externalFindings reports = externalFindings reports' := by
    rw [externalFindings_eq, externalFindings_eq]
    exact SortedMap.foldl_perm (fun entry : Str × Str => entry.1) (fun entry => entry.2) _ _
      (owners_functional reports manifest valid admitted) ((perm.filter _).flatMap_right _)
  have gates : requiredGates manifest reports = requiredGates manifest reports' := by
    simp only [requiredGates, perm.any_eq]
  have same : reasons manifest reports (filed reports) (jobsOf executions) currentTree =
      reasons manifest reports' (filed reports') (jobsOf executions') currentTree := by
    simp only [reasons, received, jobs, external, gates, perm.any_eq]
  simp only [assessment]
  rw [same, received]

/-- The gate opens exactly to a run that shows everything and names no job twice; then no report
has a blocking finding; and the order of reports and receipts changes nothing. -/
theorem assess_gate (valid : validateRequest manifest.request = .ok ()) :
    ((∃ result, assess manifest reports executions currentTree = .ok result ∧
        result.state = .readyForHumanReview) ↔
      (executions.map (·.job)).Nodup ∧ Qualified manifest reports executions currentTree) ∧
    (∀ result, assess manifest reports executions currentTree = .ok result →
      result.state = .readyForHumanReview →
      ∀ report ∈ reports, ∀ f ∈ report.findings, f.severity.blocking = false) ∧
    (∀ reports' executions', reports.Perm reports' → executions.Perm executions' → ∀ result,
      assess manifest reports executions currentTree = .ok result ↔
        assess manifest reports' executions' currentTree = .ok result) := by
  have opened : (∃ result, assess manifest reports executions currentTree = .ok result ∧
        result.state = .readyForHumanReview) ↔
      (executions.map (·.job)).Nodup ∧ Qualified manifest reports executions currentTree := by
    have ready (once : (reports.map Report.pair).Nodup) (once' : (executions.map (·.job)).Nodup)
        (admitted : ∀ r ∈ reports, validateReport manifest r = .ok ()) :
        (assessment manifest reports executions currentTree).state = .readyForHumanReview ↔
          Qualified manifest reports executions currentTree := by
      rw [← reasons_nil manifest reports executions currentTree valid admitted once once']
      simp only [assessment]
      split_ifs with empty <;> simp [empty]
    constructor
    · rintro ⟨result, accepted, state⟩
      obtain ⟨admitted, once, once', rfl⟩ :=
        (assess_ok manifest reports executions currentTree valid result).1 accepted
      exact ⟨once', (ready once once' admitted).1 state⟩
    · rintro ⟨once', qualified⟩
      have once := qualified_once manifest reports executions currentTree qualified
      exact ⟨_, (assess_ok manifest reports executions currentTree valid _).2
        ⟨qualified.admitted, once, once', rfl⟩, (ready once once' qualified.admitted).2 qualified⟩
  refine ⟨opened, ?_, ?_⟩
  · intro result accepted state
    exact qualified_clear manifest reports executions currentTree (opened.1 ⟨result, accepted, state⟩).2
  · intro reports' executions' perm perm' result
    rw [assess_ok manifest reports executions currentTree valid,
      assess_ok manifest reports' executions' currentTree valid]
    constructor
    · rintro ⟨admitted, once, once', rfl⟩
      exact ⟨fun r member => admitted r (perm.mem_iff.2 member), (perm.map _).nodup_iff.1 once,
        (perm'.map _).nodup_iff.1 once', assessment_perm manifest reports executions currentTree
          valid admitted once once' reports' executions' perm perm'⟩
    · rintro ⟨admitted, once, once', rfl⟩
      exact ⟨fun r member => admitted r (perm.mem_iff.1 member), (perm.map _).nodup_iff.2 once,
        (perm'.map _).nodup_iff.2 once', assessment_perm manifest reports' executions' currentTree
          valid admitted once once' reports executions perm.symm perm'.symm⟩

end Ready

/-- Two reviewers of different families over a human's candidate. -/
def sampleManifest : Manifest where
  runId := ['r']
  sourceTree := ['t']
  artifacts := []
  request :=
    { contextFiles := [], builderFamily := .human, profile := .roster, mutationPackage := ['p']
      mutationBase := none, fuzzTargets := [['f']], timeoutSeconds := 60, fuzzSeconds := 60
      reviewers := [⟨['a'], .codex, none, .general⟩, ⟨['b'], .claudeCode, none, .general⟩] }

def sampleReports : List Report :=
  [['a'], ['b']].flatMap fun id => [Round.independent, .challenge].map fun round =>
    ⟨['r'], id, round, .noBlockers, ['s'], [], []⟩

def passed (job : Str) : Execution := ⟨['r'], job, ['t'], ['t'], .passed, some 0⟩

def sampleExecutions : List Execution :=
  (sampleManifest.request.reviewers.flatMap fun reviewer =>
    [Round.independent, .challenge].map fun round => passed (reviewJob reviewer round)) ++
  (Gate.required .roster).map fun gate => passed (gateJob gate)

/-- The same receipts, and two for a job no one asked for. -/
def doubledExecutions : List Execution := sampleExecutions ++ [passed ['x'], passed ['x']]

theorem sampleManifest_valid : validateRequest sampleManifest.request = .ok () := by
  decide

theorem sample_needed (job : Str) (needed : NeededJob sampleManifest sampleReports job) :
    job ∈ sampleExecutions.map (·.job) := by
  rcases needed with ⟨reviewer, known, round, rfl⟩ | ⟨gate, required | ⟨r, listed, f, made, -⟩, rfl⟩
  · have every : ∀ reviewer ∈ sampleManifest.request.reviewers, ∀ round ∈ [Round.independent, .challenge],
        reviewJob reviewer round ∈ sampleExecutions.map (·.job) := by decide
    exact every reviewer known round (by cases round <;> simp)
  · have every : ∀ gate ∈ Gate.required .roster, gateJob gate ∈ sampleExecutions.map (·.job) := by
      decide
    exact every gate required
  · have every : ∀ r ∈ sampleReports, r.findings = [] := by decide
    rw [every r listed] at made
    cases made

theorem sample_qualified (executions : List Execution)
    (receipts : ∀ job ∈ sampleExecutions.map (·.job),
      (executions.filter fun e => e.job = job) = [passed job]) :
    Qualified sampleManifest sampleReports executions ['t'] where
  tree := rfl
  admitted := by decide
  complete := by
    intro reviewer known round
    have every : ∀ reviewer ∈ sampleManifest.request.reviewers,
        ∀ round ∈ [Round.independent, .challenge],
        (sampleReports.filter fun r => r.reviewerId = reviewer.id && r.round = round) =
          [⟨['r'], reviewer.id, round, .noBlockers, ['s'], [], []⟩] := by decide
    exact ⟨_, every reviewer known round (by cases round <;> simp), rfl⟩
  answered := by decide
  receipts := by
    intro job needed
    exact ⟨_, receipts job (sample_needed job needed), rfl, rfl, rfl, rfl, rfl⟩
  lineage := by decide

/-- Two receipts for a job no one asked for refuse a run that shows everything. -/
theorem doubled_refused :
    Qualified sampleManifest sampleReports doubledExecutions ['t'] ∧
      ¬ ∃ result, assess sampleManifest sampleReports doubledExecutions ['t'] = .ok result ∧
        result.state = .readyForHumanReview := by
  refine ⟨sample_qualified doubledExecutions (by decide), ?_⟩
  rintro ⟨result, accepted, -⟩
  have refused : assess sampleManifest sampleReports doubledExecutions ['t'] =
      .error "duplicate execution receipt".toList := by decide
  rw [refused] at accepted
  cases accepted

/-- The gate opens to the run with each receipt once, by the general theorem. -/
theorem assess_gate_sample :
    ∃ result, assess sampleManifest sampleReports sampleExecutions ['t'] = .ok result ∧
      result.state = .readyForHumanReview :=
  (assess_gate sampleManifest sampleReports sampleExecutions ['t'] sampleManifest_valid).1.2
    ⟨by decide, sample_qualified sampleExecutions (by decide)⟩

end DeepDiffForge.Review
