import DeepDiffForge.Lib.Machine
import DeepDiffForge.Review.Prompt

/-! The directory of a council run, which controllers, manual imports and status calls share. Each
event is one operation on a file, or the end of a process. -/

namespace DeepDiffForge.Review.Council
open Text Machine Fallible

/-- A reviewer's round, which names a report and a job. -/
abbrev Slot := Str × Round

def reportSlot (report : Report) : Slot := (report.reviewerId, report.round)

def jobName (slot : Slot) : Str := "review-".toList ++ slot.1 ++ '-' :: slot.2.label

theorem label_last (round : Round) :
    round.label.getLast? = some (if round = .independent then 't' else 'e') := by
  cases round <;> decide

/-- The names of the jobs are apart. -/
theorem jobName_injective (one two : Slot) (same : jobName one = jobName two) : one = two := by
  obtain ⟨id, round⟩ := one
  obtain ⟨id', round'⟩ := two
  unfold jobName at same
  rw [List.append_assoc, List.append_assoc] at same
  have same : id ++ '-' :: round.label = id' ++ '-' :: round'.label :=
    List.append_cancel_left same
  have last := congrArg List.getLast? same
  simp only [List.getLast?_append, List.getLast?_cons, label_last, Option.getD_some,
    Option.some_or, Option.some.injEq] at last
  have rounds : round = round' := by
    revert last
    cases round <;> cases round' <;> decide
  subst rounds
  rw [List.append_cancel_right same]

/-- A file that is created once, and filled by who created it. -/
inductive Cell (α : Type) where
  | absent
  | torn
  | whole (value : α)

structure Qualification where
  outcome : Outcome
  reportSha256 : Option Str

structure Job where
  made : Bool
  receipt : Cell Execution
  protocolError : Bool
  qualification : Cell Qualification

def Job.new : Job := ⟨false, .absent, false, .absent⟩

/-- A review that a controller runs: the reports it found, and the prompt made with them. -/
structure Work where
  reviewer : Reviewer
  round : Round
  prior : List Report
  shown : Str

def Work.slot (work : Work) : Slot := (work.reviewer.id, work.round)

inductive Task where
  | review (reviewer : Reviewer) (round : Round)
  | status

/-- An entry of the jobs directory: a reviewer's job, or the receipt of a gate's or the sandbox's,
whose names are others. -/
inductive Listed where
  | job (slot : Slot)
  | other (receipt : {receipt : Execution // ∀ slot, receipt.job ≠ jobName slot})

/-- Where a process stands: the next operation of `run_reviewer`, of `import` or of `status`. -/
inductive Phase where
  | idle
  -- the reports, one slot after another
  | reading (task : Task) (slots : List Slot) (seen : List Report)
  | comparing (task : Task) (report : Report) (slots : List Slot) (seen : List Report)
  -- a controller before it has the lock
  | locking (work : Work)
  | locked (work : Work)
  -- and after
  | admitting (work : Work)
  | observing (work : Work)
  | making (work : Work)
  | running (work : Work)
  | receipting (work : Work) (receipt : Execution) (candidate : Option Report)
  | filing (work : Work) (receipt : Execution) (candidate : Option Report)
  | filed (work : Work) (outcome : Outcome) (candidate : Option Report)
  | judging (work : Work) (candidate : Option Report)
  | reporting (work : Work) (report : Report)
  | reported (work : Work) (report : Report)
  | refusing (work : Work)
  | digesting (work : Work)
  | qualifying (work : Work) (result : Qualification)
  | sealing (work : Work) (result : Qualification)
  | leaving
  -- a manual import
  | importing (report : Report)
  | freshening (report : Report)
  | placing (report : Report)
  | copying (report : Report)
  -- a status call
  | listing (seen : List Report)
  | receipts (seen : List Report) (entries : List Listed) (graded : List Execution)
  | marking (seen : List Report) (slot : Slot) (receipt : Execution) (entries : List Listed)
      (graded : List Execution)
  | settling (seen : List Report) (slot : Slot) (receipt : Execution) (refused : Bool)
      (entries : List Listed) (graded : List Execution)
  | assessing (seen : List Report) (graded : List Execution)
  | answering (seen : List Report) (assessment : Assessment)
  | answered (seen : List Report) (assessment : Assessment)

structure Accepted where
  work : Work
  report : Report

structure State where
  reports : Slot → Cell Report
  jobs : Slot → Job
  lock : Bool
  tree : Str
  procs : Nat → Phase
  accepted : List Accepted

def initial (tree : Str) : State :=
  ⟨fun _ => .absent, fun _ => .new, false, tree, fun _ => .idle, []⟩

inductive Event where
  | review (p : Nat) (reviewer : Reviewer) (round : Round)
  | manual (p : Nat) (report : Report)
  | status (p : Nat)
  | go (p : Nat)
  | provider (p : Nat) (outcome : Outcome) (exitCode : Option Int) (candidate : Option Report)
  | list (p : Nat) (entries : List Listed)
  | edit (tree : Str)
  | fail (p : Nat)
  | kill (p : Nat)

def State.move (s : State) (p : Nat) (phase : Phase) : State :=
  { s with procs := Function.update s.procs p phase }

def State.putReport (s : State) (slot : Slot) (cell : Cell Report) : State :=
  { s with reports := Function.update s.reports slot cell }

def State.putJob (s : State) (slot : Slot) (job : Job) : State :=
  { s with jobs := Function.update s.jobs slot job }

section
variable (coded : Char → Bool) (digest : Report → Str) (manifest : Manifest)

def slots : List Slot :=
  manifest.request.reviewers.flatMap fun reviewer =>
    [(reviewer.id, Round.independent), (reviewer.id, .challenge)]

def prepared (task : Task) (seen : List Report) : Phase :=
  match task with
  | .status => .listing seen
  | .review reviewer round =>
      if round = .challenge ∧ (seen.filter fun r => r.round = .independent).length ≠
          manifest.request.reviewers.length then .idle
      else
        match prompt coded manifest reviewer round seen with
        | .error _ => .idle
        | .ok shown => .locking ⟨reviewer, round, seen, shown⟩

def State.read (s : State) (task : Task) (rest : List Slot) (seen : List Report) : Phase :=
  match rest with
  | [] => prepared coded manifest task seen
  | slot :: rest =>
      match s.reports slot with
      | .absent => .reading task rest seen
      | .torn => .idle
      | .whole report =>
          if validateReport manifest report = .ok () then .comparing task report rest seen
          else .idle

def State.compare (s : State) (task : Task) (report : Report) (rest : List Slot)
    (seen : List Report) : Phase :=
  match (s.jobs (reportSlot report)).qualification with
  | .absent => .reading task rest (seen ++ [report])
  | .torn => .idle
  | .whole result =>
      if result.reportSha256 = some (digest report) then .reading task rest (seen ++ [report])
      else .idle

def Work.fits (work : Work) (report : Report) : Bool :=
  validateReport manifest report = .ok () && reportSlot report = work.slot

def settled (receipt : Execution) (refused : Bool) (result : Option Outcome) : Execution :=
  let outcome := result.getD (if receipt.outcome = .passed then .inconclusive else receipt.outcome)
  { receipt with outcome := if refused ∧ outcome = .passed then .failed else outcome }

/-- The next operation of a process that is not waiting for something else. -/
def State.go (s : State) (p : Nat) : Option State :=
  match s.procs p with
  | .idle | .running _ | .listing _ | .answered .. => none
  | .reading task rest seen => some (s.move p (s.read coded manifest task rest seen))
  | .comparing task report rest seen => some (s.move p (s.compare digest task report rest seen))
  | .locking work =>
      if s.lock then some (s.move p .idle) else some { s.move p (.locked work) with lock := true }
  | .locked work => some (s.move p (.admitting work))
  | .admitting work =>
      some (s.move p (if s.tree = manifest.sourceTree then .observing work else .leaving))
  | .observing work =>
      some (s.move p (if s.tree = manifest.sourceTree then .making work else .leaving))
  | .making work =>
      if (s.jobs work.slot).made then some (s.move p .leaving)
      else some ((s.putJob work.slot { s.jobs work.slot with made := true }).move p (.running work))
  | .receipting work receipt candidate =>
      some ((s.putJob work.slot { s.jobs work.slot with receipt := .torn }).move p
        (.filing work receipt candidate))
  | .filing work receipt candidate =>
      some ((s.putJob work.slot { s.jobs work.slot with receipt := .whole receipt }).move p
        (.filed work receipt.outcome candidate))
  | .filed work outcome candidate =>
      some (s.move p (if outcome = .passed then .judging work candidate else .leaving))
  | .judging work candidate =>
      match candidate, s.reports work.slot with
      | some report, .absent =>
          if work.fits manifest report then
            some ((s.putReport work.slot .torn).move p (.reporting work report))
          else some (s.move p (.refusing work))
      | _, _ => some (s.move p (.refusing work))
  | .reporting work report =>
      some ((s.putReport work.slot (.whole report)).move p (.reported work report))
  | .reported work report =>
      some { s.move p (.digesting work) with accepted := s.accepted ++ [⟨work, report⟩] }
  | .refusing work =>
      some ((s.putJob work.slot { s.jobs work.slot with protocolError := true }).move p
        (.qualifying work ⟨.failed, none⟩))
  | .digesting work =>
      match s.reports work.slot with
      | .whole report => some (s.move p (.qualifying work ⟨.passed, some (digest report)⟩))
      | _ => some (s.move p .leaving)
  | .qualifying work result =>
      some ((s.putJob work.slot { s.jobs work.slot with qualification := .torn }).move p
        (.sealing work result))
  | .sealing work result =>
      some ((s.putJob work.slot { s.jobs work.slot with qualification := .whole result }).move p
        .leaving)
  | .leaving => some { s.move p .idle with lock := false }
  | .importing report =>
      match (s.jobs (reportSlot report)).qualification with
      | .absent => some (s.move p (.freshening report))
      | _ => some (s.move p .idle)
  | .freshening report =>
      some (s.move p (if s.tree = manifest.sourceTree then .placing report else .idle))
  | .placing report =>
      match s.reports (reportSlot report) with
      | .absent => some ((s.putReport (reportSlot report) .torn).move p (.copying report))
      | _ => some (s.move p .idle)
  | .copying report => some ((s.putReport (reportSlot report) (.whole report)).move p .idle)
  | .receipts seen entries graded =>
      match entries with
      | [] => some (s.move p (.assessing seen graded))
      | .other receipt :: entries => some (s.move p (.receipts seen entries (graded ++ [receipt.1])))
      | .job slot :: entries =>
          match (s.jobs slot).receipt with
          | .absent => some (s.move p (.receipts seen entries graded))
          | .torn => some (s.move p .idle)
          | .whole receipt => some (s.move p (.marking seen slot receipt entries graded))
  | .marking seen slot receipt entries graded =>
      some (s.move p (.settling seen slot receipt (s.jobs slot).protocolError entries graded))
  | .settling seen slot receipt refused entries graded =>
      match (s.jobs slot).qualification with
      | .absent =>
          some (s.move p (.receipts seen entries (graded ++ [settled receipt refused none])))
      | .torn => some (s.move p .idle)
      | .whole result =>
          some (s.move p (.receipts seen entries
            (graded ++ [settled receipt refused (some result.outcome)])))
  | .assessing seen graded =>
      match assess manifest seen graded s.tree with
      | .error _ => some (s.move p .idle)
      | .ok assessment => some (s.move p (.answering seen assessment))
  | .answering seen assessment =>
      if s.lock then
        some (s.move p (.answered seen { assessment with
          state := .hold
          reasons := assessment.reasons ++
            ["controller execution is active or interrupted".toList] }))
      else some (s.move p (.answered seen assessment))

def State.fail (s : State) (p : Nat) : Option State :=
  match s.procs p with
  | .idle | .answered .. => none
  | .judging work _ | .reporting work _ | .reported work _ => some (s.move p (.refusing work))
  | .admitting _ | .observing _ | .making _ | .running _ | .receipting .. | .filing .. | .filed ..
  | .refusing _ | .digesting _ | .qualifying .. | .sealing .. => some (s.move p .leaving)
  | _ => some (s.move p .idle)

def Work.receipt (work : Work) (tree : Str) (outcome : Outcome) (exitCode : Option Int) :
    Execution where
  runId := manifest.runId
  job := jobName work.slot
  sourceTreeBefore := manifest.sourceTree
  sourceTreeAfter := tree
  outcome := if tree = manifest.sourceTree then outcome else .stale
  exitCode

def step (s : State) : Event → Option State
  | .review p reviewer round =>
      match s.procs p with
      | .idle =>
          if reviewer ∈ manifest.request.reviewers then
            some (s.move p (.reading (.review reviewer round) (slots manifest) []))
          else none
      | _ => none
  | .manual p report =>
      match s.procs p with
      | .idle =>
          if validateReport manifest report = .ok () then some (s.move p (.importing report))
          else none
      | _ => none
  | .status p =>
      match s.procs p with
      | .idle => some (s.move p (.reading .status (slots manifest) []))
      | _ => none
  | .go p => s.go coded digest manifest p
  | .provider p outcome exitCode candidate =>
      match s.procs p with
      | .running work =>
          some (s.move p
            (.receipting work (work.receipt manifest s.tree outcome exitCode) candidate))
      | _ => none
  | .list p entries =>
      match s.procs p with
      | .listing seen => some (s.move p (.receipts seen entries []))
      | _ => none
  | .edit tree => some { s with tree }
  | .fail p => s.fail p
  | .kill p => some (s.move p .idle)

end

/-! ### What a run keeps -/

/-- The phases from the lock's creation to its removal. -/
def Phase.holds : Phase → Bool
  | .locked _ | .admitting _ | .observing _ | .making _ | .running _ | .receipting .. | .filing ..
  | .filed .. | .judging .. | .reporting .. | .reported .. | .refusing _ | .digesting _
  | .qualifying .. | .sealing .. | .leaving => true
  | _ => false

/-- The report file that a process has created and not yet filled. -/
def Phase.writes : Phase → Option Slot
  | .reporting work _ => some work.slot
  | .copying report => some (reportSlot report)
  | _ => none

structure Read (reports : Slot → Cell Report) (passed : List Slot) (seen : List Report) :
    Prop where
  places : (seen.map reportSlot).Sublist passed
  whole : ∀ report ∈ seen, reports (reportSlot report) = .whole report

def Backed (s : State) (slot : Slot) : Prop :=
  ∃ accepted ∈ s.accepted, accepted.work.slot = slot ∧ s.reports slot = .whole accepted.report

structure Later (s s' : State) : Prop where
  reports : ∀ slot report, s.reports slot = .whole report → s'.reports slot = .whole report
  accepted : s.accepted ⊆ s'.accepted

section
variable (coded : Char → Bool) (manifest : Manifest)

structure Shown (reports : Slot → Cell Report) (work : Work) : Prop where
  known : work.reviewer ∈ manifest.request.reviewers
  read : Read reports (slots manifest) work.prior
  complete : work.round = .challenge →
    (work.prior.filter fun r => r.round = .independent).length =
      manifest.request.reviewers.length
  shown : prompt coded manifest work.reviewer work.round work.prior = .ok work.shown

def Measured (s : State) (graded : List Execution) : Prop :=
  ∀ receipt ∈ graded, receipt.outcome = .passed → ∀ slot, receipt.job = jobName slot →
    Backed s slot

def Answers (s : State) (seen : List Report) (assessment : Assessment) : Prop :=
  Read s.reports (slots manifest) seen ∧
    (assessment.state = .readyForHumanReview → ∃ graded tree,
      assess manifest seen graded tree = .ok assessment ∧ Measured s graded)

def Task.known (task : Task) : Prop :=
  match task with
  | .review reviewer _ => reviewer ∈ manifest.request.reviewers
  | .status => True

def Fits (s : State) : Phase → Prop
  | .idle | .leaving => True
  | .reading task rest seen =>
      task.known manifest ∧ ∃ before, slots manifest = before ++ rest ∧ Read s.reports before seen
  | .comparing task report rest seen =>
      task.known manifest ∧ s.reports (reportSlot report) = .whole report ∧
        ∃ before, slots manifest = before ++ reportSlot report :: rest ∧ Read s.reports before seen
  | .locking work | .locked work | .admitting work | .observing work | .making work
  | .running work | .filed work _ _ | .judging work _ | .refusing work =>
      Shown coded manifest s.reports work
  | .receipting work receipt _ | .filing work receipt _ =>
      Shown coded manifest s.reports work ∧ receipt.job = jobName work.slot
  | .reporting work report =>
      Shown coded manifest s.reports work ∧ reportSlot report = work.slot ∧
        s.reports work.slot = .torn
  | .reported work report =>
      Shown coded manifest s.reports work ∧ reportSlot report = work.slot ∧
        s.reports work.slot = .whole report
  | .digesting work => Shown coded manifest s.reports work ∧ Backed s work.slot
  | .qualifying work result | .sealing work result =>
      Shown coded manifest s.reports work ∧ (result.outcome = .passed → Backed s work.slot)
  | .importing _ | .freshening _ | .placing _ => True
  | .copying report => s.reports (reportSlot report) = .torn
  | .listing seen => Read s.reports (slots manifest) seen
  | .receipts seen _ graded | .assessing seen graded =>
      Read s.reports (slots manifest) seen ∧ Measured s graded
  | .marking seen slot receipt _ graded | .settling seen slot receipt _ _ graded =>
      Read s.reports (slots manifest) seen ∧ Measured s graded ∧ receipt.job = jobName slot
  | .answering seen assessment | .answered seen assessment =>
      Answers manifest s seen assessment

/-- One controller at a time has the lock, one process fills a report file, and a job that is
concluded as passed has its report from its provider. -/
structure Inv (s : State) : Prop where
  lock : ∀ p, (s.procs p).holds = true → s.lock = true
  one : ∀ p q, (s.procs p).holds = true → (s.procs q).holds = true → p = q
  writer : ∀ p q slot, (s.procs p).writes = some slot → (s.procs q).writes = some slot → p = q
  places : ∀ slot report, s.reports slot = .whole report → reportSlot report = slot
  named : ∀ slot receipt, (s.jobs slot).receipt = .whole receipt → receipt.job = jobName slot
  concluded : ∀ slot result, (s.jobs slot).qualification = .whole result →
    result.outcome = .passed → Backed s slot
  accepted : ∀ accepted ∈ s.accepted, Shown coded manifest s.reports accepted.work ∧
    reportSlot accepted.report = accepted.work.slot
  fits : ∀ p, Fits coded manifest s (s.procs p)

end

section
variable {coded : Char → Bool} {manifest : Manifest} {s s' : State}

theorem later_put (slot : Slot) (cell : Cell Report)
    (unset : ∀ report, s.reports slot ≠ .whole report) : Later s (s.putReport slot cell) := by
  refine ⟨fun other report there => ?_, List.Subset.refl _⟩
  change Function.update s.reports slot cell other = _
  rw [Function.update_of_ne ?_, there]
  rintro rfl
  exact unset report there

theorem Read.later (passed : List Slot) (seen : List Report) (later : Later s s')
    (read : Read s.reports passed seen) : Read s'.reports passed seen :=
  ⟨read.places, fun report listed => later.reports _ _ (read.whole report listed)⟩

theorem Backed.later (slot : Slot) (later : Later s s') (backed : Backed s slot) :
    Backed s' slot := by
  obtain ⟨accepted, listed, same, there⟩ := backed
  exact ⟨accepted, later.accepted listed, same, later.reports _ _ there⟩

theorem Shown.later (work : Work) (later : Later s s')
    (shown : Shown coded manifest s.reports work) : Shown coded manifest s'.reports work :=
  ⟨shown.known, shown.read.later _ _ later, shown.complete, shown.shown⟩

theorem Measured.later (graded : List Execution) (later : Later s s')
    (measured : Measured s graded) : Measured s' graded :=
  fun receipt listed passed slot job => (measured receipt listed passed slot job).later slot later

theorem Answers.later (seen : List Report) (assessment : Assessment) (later : Later s s')
    (answers : Answers manifest s seen assessment) : Answers manifest s' seen assessment := by
  refine ⟨answers.1.later _ _ later, fun ready => ?_⟩
  obtain ⟨graded, tree, made, measured⟩ := answers.2 ready
  exact ⟨graded, tree, made, measured.later graded later⟩

/-- What a process knows it still knows later, while no one else fills its report file. -/
theorem fits_later (phase : Phase) (later : Later s s')
    (torn : ∀ slot, phase.writes = some slot → s'.reports slot = .torn)
    (fits : Fits coded manifest s phase) : Fits coded manifest s' phase := by
  cases phase with
  | idle | leaving | importing | freshening | placing => trivial
  | reading =>
    obtain ⟨known, before, split, read⟩ := fits
    exact ⟨known, before, split, read.later _ _ later⟩
  | comparing =>
    obtain ⟨known, there, before, split, read⟩ := fits
    exact ⟨known, later.reports _ _ there, before, split, read.later _ _ later⟩
  | locking | locked | admitting | observing | making | running | filed | judging | refusing =>
    exact Shown.later _ later fits
  | receipting | filing => exact ⟨fits.1.later _ later, fits.2⟩
  | reporting => exact ⟨fits.1.later _ later, fits.2.1, torn _ rfl⟩
  | reported => exact ⟨fits.1.later _ later, fits.2.1, later.reports _ _ fits.2.2⟩
  | digesting => exact ⟨fits.1.later _ later, fits.2.later _ later⟩
  | qualifying | sealing =>
    exact ⟨fits.1.later _ later, fun passed => (fits.2 passed).later _ later⟩
  | copying => exact torn _ rfl
  | listing => exact Read.later _ _ later fits
  | receipts | assessing => exact ⟨fits.1.later _ _ later, fits.2.later _ later⟩
  | marking | settling =>
    exact ⟨fits.1.later _ _ later, fits.2.1.later _ later, fits.2.2⟩
  | answering | answered => exact Answers.later _ _ later fits

/-- What one process does to a state, and what it has to see to. -/
structure Change (coded : Char → Bool) (manifest : Manifest) (s s' : State) (p : Nat)
    (phase : Phase) : Prop where
  procs : s'.procs = Function.update s.procs p phase
  later : Later s s'
  torn : ∀ q, q ≠ p → ∀ slot, (s.procs q).writes = some slot → s'.reports slot = .torn
  lock : phase.holds = true → s'.lock = true ∧ ((s.procs p).holds = true ∨ s.lock = false)
  free : s'.lock = false → s.lock = true → (s.procs p).holds = true
  writer : ∀ slot, phase.writes = some slot → ∀ q, q ≠ p → (s.procs q).writes ≠ some slot
  places : ∀ slot report, s'.reports slot = .whole report → reportSlot report = slot
  named : ∀ slot receipt, (s'.jobs slot).receipt = .whole receipt → receipt.job = jobName slot
  concluded : ∀ slot result, (s'.jobs slot).qualification = .whole result →
    result.outcome = .passed → Backed s' slot
  accepted : ∀ accepted ∈ s'.accepted, Shown coded manifest s'.reports accepted.work ∧
    reportSlot accepted.report = accepted.work.slot
  fits : Fits coded manifest s' phase

theorem Change.kept (p : Nat) (phase : Phase) (inv : Inv coded manifest s)
    (change : Change coded manifest s s' p phase) : Inv coded manifest s' := by
  have own : s'.procs p = phase := by rw [change.procs, Function.update_self]
  have other (q : Nat) (apart : q ≠ p) : s'.procs q = s.procs q := by
    rw [change.procs, Function.update_of_ne apart]
  have alone (q : Nat) (apart : q ≠ p) (mine : phase.holds = true)
      (theirs : (s.procs q).holds = true) : False := by
    rcases (change.lock mine).2 with had | free
    · exact apart (inv.one q p theirs had)
    · have taken := inv.lock q theirs
      rw [free] at taken
      cases taken
  refine ⟨fun q => ?_, fun q r => ?_, fun q r slot => ?_, change.places, change.named,
    change.concluded, change.accepted, fun q => ?_⟩
  · by_cases apart : q = p
    · subst apart
      rw [own]
      exact fun mine => (change.lock mine).1
    · rw [other q apart]
      intro theirs
      by_contra opened
      have freed := change.free (Bool.eq_false_iff.2 opened) (inv.lock q theirs)
      exact apart (inv.one q p theirs freed)
  · by_cases first : q = p <;> by_cases second : r = p
    · exact fun _ _ => first.trans second.symm
    · rw [first, own, other r second]
      exact fun mine theirs => (alone r second mine theirs).elim
    · rw [second, own, other q first]
      exact fun theirs mine => (alone q first mine theirs).elim
    · rw [other q first, other r second]
      exact inv.one q r
  · by_cases first : q = p <;> by_cases second : r = p
    · exact fun _ _ => first.trans second.symm
    · rw [first, own, other r second]
      exact fun mine theirs => (change.writer slot mine r second theirs).elim
    · rw [second, own, other q first]
      exact fun theirs mine => (change.writer slot mine q first theirs).elim
    · rw [other q first, other r second]
      exact inv.writer q r slot
  · by_cases apart : q = p
    · subst apart
      rw [own]
      exact change.fits
    · rw [other q apart]
      exact fits_later _ change.later (change.torn q apart) (inv.fits q)

theorem torn_of_writes (inv : Inv coded manifest s) (p : Nat) (slot : Slot)
    (writes : (s.procs p).writes = some slot) : s.reports slot = .torn := by
  have fits := inv.fits p
  cases phase : s.procs p with
  | reporting work report =>
    rw [phase] at fits writes
    cases writes
    exact fits.2.2
  | copying report =>
    rw [phase] at fits writes
    cases writes
    exact fits
  | _ =>
    rw [phase] at writes
    cases writes

/-- A process moves on, and may take the lock or leave it. -/
theorem inv_lock (inv : Inv coded manifest s) (p : Nat) (phase : Phase) (lock : Bool)
    (taken : phase.holds = true → lock = true ∧ ((s.procs p).holds = true ∨ s.lock = false))
    (left : lock = false → s.lock = true → (s.procs p).holds = true)
    (idle : phase.writes = none) (fits : Fits coded manifest s phase) :
    Inv coded manifest { s.move p phase with lock } := by
  have later : Later s { s.move p phase with lock } :=
    ⟨fun _ _ there => there, List.Subset.refl _⟩
  have silent (slot : Slot) (writes : phase.writes = some slot) : False :=
    Option.some_ne_none _ (writes.symm.trans idle)
  refine Change.kept p phase inv ?_
  exact {
    procs := rfl
    later := later
    torn := fun q _ slot writes => torn_of_writes inv q slot writes
    lock := taken
    free := left
    writer := fun slot writes => (silent slot writes).elim
    places := inv.places
    named := inv.named
    concluded := fun slot result there passed =>
      (inv.concluded slot result there passed).later slot later
    accepted := fun accepted listed =>
      ⟨(inv.accepted accepted listed).1.later _ later, (inv.accepted accepted listed).2⟩
    fits := fits_later phase later (fun slot writes => (silent slot writes).elim) fits }

section
variable (inv : Inv coded manifest s) (p : Nat) (phase : Phase)
  (held : phase.holds = true → (s.procs p).holds = true)
include inv held

theorem inv_move (idle : phase.writes = none) (fits : Fits coded manifest s phase) :
    Inv coded manifest (s.move p phase) :=
  inv_lock inv p phase s.lock (fun mine => ⟨inv.lock p (held mine), .inl (held mine)⟩)
    (fun freed taken => absurd (freed.symm.trans taken) Bool.false_ne_true) idle fits

theorem inv_job (slot : Slot) (job : Job) (idle : phase.writes = none)
    (fits : Fits coded manifest s phase)
    (named : ∀ receipt, job.receipt = .whole receipt → receipt.job = jobName slot)
    (concluded : ∀ result, job.qualification = .whole result → result.outcome = .passed →
      Backed s slot) : Inv coded manifest ((s.putJob slot job).move p phase) := by
  have later : Later s ((s.putJob slot job).move p phase) :=
    ⟨fun _ _ there => there, List.Subset.refl _⟩
  refine Change.kept p phase inv ?_
  exact {
    procs := rfl
    later := later
    torn := fun q _ slot writes => torn_of_writes inv q slot writes
    lock := fun mine => ⟨inv.lock p (held mine), .inl (held mine)⟩
    free := fun freed taken => absurd (freed.symm.trans taken) Bool.false_ne_true
    writer := fun slot writes => absurd (writes.symm.trans idle) (Option.some_ne_none _)
    places := inv.places
    named := by
      intro other receipt there
      change (Function.update s.jobs slot job other).receipt = _ at there
      by_cases same : other = slot
      · subst same
        rw [Function.update_self] at there
        exact named receipt there
      · rw [Function.update_of_ne same] at there
        exact inv.named other receipt there
    concluded := by
      intro other result there passed
      change (Function.update s.jobs slot job other).qualification = _ at there
      by_cases same : other = slot
      · subst same
        rw [Function.update_self] at there
        exact (concluded result there passed).later other later
      · rw [Function.update_of_ne same] at there
        exact (inv.concluded other result there passed).later other later
    accepted := fun accepted listed =>
      ⟨(inv.accepted accepted listed).1.later _ later, (inv.accepted accepted listed).2⟩
    fits := fits_later phase later
      (fun slot writes => absurd (writes.symm.trans idle) (Option.some_ne_none _)) fits }

/-- A report file is created. -/
theorem inv_create (slot : Slot) (absent : s.reports slot = .absent)
    (writes : phase.writes = some slot) (fits : Fits coded manifest (s.putReport slot .torn) phase) :
    Inv coded manifest ((s.putReport slot .torn).move p phase) := by
  have reports (other : Slot) (apart : other ≠ slot) :
      ((s.putReport slot .torn).move p phase).reports other = s.reports other :=
    Function.update_of_ne apart ..
  have torn : ((s.putReport slot .torn).move p phase).reports slot = .torn :=
    Function.update_self ..
  have put := later_put slot .torn fun report there => by
    rw [absent] at there
    cases there
  have later : Later s ((s.putReport slot .torn).move p phase) := ⟨put.reports, put.accepted⟩
  refine Change.kept p phase inv ?_
  exact {
    procs := rfl
    later := later
    torn := by
      intro q _ other theirs
      have there := torn_of_writes inv q other theirs
      rw [reports other, there]
      rintro rfl
      rw [absent] at there
      cases there
    lock := fun mine => ⟨inv.lock p (held mine), .inl (held mine)⟩
    free := fun freed taken => absurd (freed.symm.trans taken) Bool.false_ne_true
    writer := by
      intro other mine q _ theirs
      rw [writes] at mine
      cases mine
      have there := torn_of_writes inv q slot theirs
      rw [absent] at there
      cases there
    places := by
      intro other report there
      by_cases same : other = slot
      · rw [same, torn] at there
        cases there
      · rw [reports other same] at there
        exact inv.places other report there
    named := inv.named
    concluded := fun slot result there passed =>
      (inv.concluded slot result there passed).later slot later
    accepted := fun accepted listed =>
      ⟨(inv.accepted accepted listed).1.later _ later, (inv.accepted accepted listed).2⟩
    fits := by
      refine fits_later phase ⟨fun _ _ there => there, List.Subset.refl _⟩ ?_ fits
      intro other mine
      rw [writes] at mine
      cases mine
      exact torn }

theorem inv_fill (slot : Slot) (report : Report) (writes : (s.procs p).writes = some slot)
    (same : reportSlot report = slot) (idle : phase.writes = none)
    (fits : Fits coded manifest (s.putReport slot (.whole report)) phase) :
    Inv coded manifest ((s.putReport slot (.whole report)).move p phase) := by
  have reports (other : Slot) (apart : other ≠ slot) :
      ((s.putReport slot (.whole report)).move p phase).reports other = s.reports other :=
    Function.update_of_ne apart ..
  have whole : ((s.putReport slot (.whole report)).move p phase).reports slot = .whole report :=
    Function.update_self ..
  have torn := torn_of_writes inv p slot writes
  have put := later_put slot (.whole report) fun report' there => by
    rw [torn] at there
    cases there
  have later : Later s ((s.putReport slot (.whole report)).move p phase) :=
    ⟨put.reports, put.accepted⟩
  refine Change.kept p phase inv ?_
  exact {
    procs := rfl
    later := later
    torn := by
      intro q apart other theirs
      rw [reports other, torn_of_writes inv q other theirs]
      rintro rfl
      exact apart (inv.writer q p other theirs writes)
    lock := fun mine => ⟨inv.lock p (held mine), .inl (held mine)⟩
    free := fun freed taken => absurd (freed.symm.trans taken) Bool.false_ne_true
    writer := fun slot writes => absurd (writes.symm.trans idle) (Option.some_ne_none _)
    places := by
      intro other report' there
      by_cases place : other = slot
      · rw [place, whole] at there
        cases there
        rw [place]
        exact same
      · rw [reports other place] at there
        exact inv.places other report' there
    named := inv.named
    concluded := fun slot result there passed =>
      (inv.concluded slot result there passed).later slot later
    accepted := fun accepted listed =>
      ⟨(inv.accepted accepted listed).1.later _ later, (inv.accepted accepted listed).2⟩
    fits := fits_later phase ⟨fun _ _ there => there, List.Subset.refl _⟩
      (fun slot writes => absurd (writes.symm.trans idle) (Option.some_ne_none _)) fits }

end

/-- A phase of a process that has no lock and no report file. -/
structure Quiet (coded : Char → Bool) (manifest : Manifest) (s : State) (phase : Phase) :
    Prop where
  free : phase.holds = false
  idle : phase.writes = none
  fits : Fits coded manifest s phase

theorem inv_quiet (inv : Inv coded manifest s) (p : Nat) (phase : Phase)
    (quiet : Quiet coded manifest s phase) : Inv coded manifest (s.move p phase) := by
  refine inv_move inv p phase (fun held => ?_) quiet.idle quiet.fits
  rw [quiet.free] at held
  cases held

theorem quiet_prepared (task : Task) (seen : List Report) (known : task.known manifest)
    (read : Read s.reports (slots manifest) seen) :
    Quiet coded manifest s (prepared coded manifest task seen) := by
  unfold prepared
  cases task with
  | status => exact ⟨rfl, rfl, read⟩
  | review reviewer round =>
    dsimp only
    split
    · exact ⟨rfl, rfl, trivial⟩
    · rename_i enough
      cases made : prompt coded manifest reviewer round seen with
      | error message => exact ⟨rfl, rfl, trivial⟩
      | ok shown =>
        refine ⟨rfl, rfl, known, read, fun challenge => ?_, made⟩
        by_contra short
        exact enough ⟨challenge, short⟩

theorem quiet_read (inv : Inv coded manifest s) (task : Task) (rest : List Slot)
    (seen : List Report) (fits : Fits coded manifest s (.reading task rest seen)) :
    Quiet coded manifest s (s.read coded manifest task rest seen) := by
  obtain ⟨known, before, split, read⟩ := fits
  unfold State.read
  cases rest with
  | nil =>
    rw [List.append_nil] at split
    exact quiet_prepared task seen known (split ▸ read)
  | cons slot rest =>
    dsimp only
    cases cell : s.reports slot with
    | absent =>
      refine ⟨rfl, rfl, known, before ++ [slot], by rw [split, List.append_assoc]; rfl, ?_, ?_⟩
      · exact read.places.trans (List.sublist_append_left _ _)
      · exact read.whole
    | torn => exact ⟨rfl, rfl, trivial⟩
    | whole report =>
      dsimp only
      split_ifs
      · obtain rfl := inv.places slot report cell
        exact ⟨rfl, rfl, known, cell, before, split, read⟩
      · exact ⟨rfl, rfl, trivial⟩

theorem read_concat (before : List Slot) (seen : List Report) (report : Report)
    (read : Read s.reports before seen) (there : s.reports (reportSlot report) = .whole report) :
    Read s.reports (before ++ [reportSlot report]) (seen ++ [report]) := by
  refine ⟨?_, fun other listed => ?_⟩
  · rw [List.map_append]
    exact read.places.append (List.Sublist.refl _)
  · rcases List.mem_append.1 listed with old | new
    · exact read.whole other old
    · rw [List.mem_singleton.1 new]
      exact there

theorem quiet_compare (digest : Report → Str) (task : Task) (report : Report) (rest : List Slot)
    (seen : List Report) (fits : Fits coded manifest s (.comparing task report rest seen)) :
    Quiet coded manifest s (s.compare digest task report rest seen) := by
  obtain ⟨known, there, before, split, read⟩ := fits
  have following : Quiet coded manifest s (.reading task rest (seen ++ [report])) := by
    refine ⟨rfl, rfl, known, before ++ [reportSlot report], ?_, read_concat _ _ _ read there⟩
    rw [split, List.append_assoc]
    rfl
  unfold State.compare
  cases (s.jobs (reportSlot report)).qualification with
  | absent => exact following
  | torn => exact ⟨rfl, rfl, trivial⟩
  | whole result =>
    dsimp only
    split_ifs
    · exact following
    · exact ⟨rfl, rfl, trivial⟩

theorem inv_accept (inv : Inv coded manifest s) (p : Nat) (work : Work) (report : Report)
    (phase : s.procs p = .reported work report) :
    Inv coded manifest
      { s.move p (.digesting work) with accepted := s.accepted ++ [⟨work, report⟩] } := by
  have fits := inv.fits p
  rw [phase] at fits
  obtain ⟨shown, same, there⟩ := fits
  have held : (s.procs p).holds = true := by
    rw [phase]
    rfl
  have later : Later s
      { s.move p (.digesting work) with accepted := s.accepted ++ [⟨work, report⟩] } :=
    ⟨fun _ _ there => there, List.subset_append_left _ _⟩
  refine Change.kept p (.digesting work) inv ?_
  exact {
    procs := rfl
    later := later
    torn := fun q _ slot writes => torn_of_writes inv q slot writes
    lock := fun _ => ⟨inv.lock p held, .inl held⟩
    free := fun freed taken => absurd (freed.symm.trans taken) Bool.false_ne_true
    writer := fun slot writes => by cases writes
    places := inv.places
    named := inv.named
    concluded := fun slot result there passed =>
      (inv.concluded slot result there passed).later slot later
    accepted := by
      intro accepted listed
      rcases List.mem_append.1 listed with old | new
      · exact ⟨(inv.accepted accepted old).1.later _ later, (inv.accepted accepted old).2⟩
      · rw [List.mem_singleton.1 new]
        exact ⟨shown.later _ later, same⟩
    fits := ⟨shown.later _ later, ⟨work, report⟩,
      List.mem_append_right _ (List.mem_singleton_self _), rfl, there⟩ }

section
variable (digest : Report → Str)

/-- An operation of a controller that has the lock. -/
theorem go_controller (inv : Inv coded manifest s) (p : Nat)
    (held : (s.procs p).holds = true) (went : s.go coded digest manifest p = some s') :
    Inv coded manifest s' := by
  have fits := inv.fits p
  have move (phase : Phase) (idle : phase.writes = none) (fits : Fits coded manifest s phase) :=
    inv_move inv p phase (fun _ => held) idle fits
  have job (slot : Slot) (job : Job) (phase : Phase) :=
    inv_job inv p phase (fun _ => held) slot job
  unfold State.go at went
  cases phase : s.procs p with
  | locked work =>
    rw [phase] at went fits
    cases went
    exact move _ rfl fits
  | admitting work =>
    rw [phase] at went fits
    cases went
    split_ifs
    · exact move _ rfl fits
    · exact move _ rfl trivial
  | observing work =>
    rw [phase] at went fits
    cases went
    split_ifs
    · exact move _ rfl fits
    · exact move _ rfl trivial
  | making work =>
    rw [phase] at went fits
    dsimp only at went
    split_ifs at went
    · cases went
      exact move _ rfl trivial
    · cases went
      exact job _ _ _ rfl fits (inv.named work.slot) (inv.concluded work.slot)
  | receipting work receipt candidate =>
    rw [phase] at went fits
    cases went
    refine job _ _ _ rfl fits (fun receipt there => ?_) (inv.concluded work.slot)
    cases there
  | filing work receipt candidate =>
    rw [phase] at went fits
    cases went
    refine job _ _ _ rfl fits.1 (fun receipt there => ?_) (inv.concluded work.slot)
    cases there
    exact fits.2
  | filed work outcome candidate =>
    rw [phase] at went fits
    cases went
    split_ifs
    · exact move _ rfl fits
    · exact move _ rfl trivial
  | judging work candidate =>
    rw [phase] at went fits
    dsimp only at went
    split at went
    · rename_i report absent
      split_ifs at went with suits
      · cases went
        have same := of_decide_eq_true (Bool.and_eq_true_iff.1 suits).2
        have put := later_put work.slot .torn fun report there => by
          rw [absent] at there
          cases there
        exact inv_create inv p _ (fun _ => held) work.slot absent rfl
          ⟨Shown.later work put fits, same, Function.update_self ..⟩
      · cases went
        exact move _ rfl fits
    · cases went
      exact move _ rfl fits
  | reporting work report =>
    rw [phase] at went fits
    cases went
    obtain ⟨shown, same, torn⟩ := fits
    have put := later_put work.slot (.whole report) fun report' there => by
      rw [torn] at there
      cases there
    exact inv_fill inv p _ (fun _ => held) work.slot report (by rw [phase]; rfl) same rfl
      ⟨shown.later work put, same, Function.update_self ..⟩
  | reported work report =>
    rw [phase] at went
    cases went
    exact inv_accept inv p work report phase
  | refusing work =>
    rw [phase] at went fits
    cases went
    exact job _ _ _ rfl ⟨fits, fun passed => by cases passed⟩ (inv.named work.slot)
      (inv.concluded work.slot)
  | digesting work =>
    rw [phase] at went fits
    dsimp only at went
    split at went
    · cases went
      exact move _ rfl ⟨fits.1, fun _ => fits.2⟩
    · cases went
      exact move _ rfl trivial
  | qualifying work result =>
    rw [phase] at went fits
    cases went
    refine job _ _ _ rfl fits (inv.named work.slot) fun result there => ?_
    cases there
  | sealing work result =>
    rw [phase] at went fits
    cases went
    refine job _ _ _ rfl trivial (inv.named work.slot) fun result there => ?_
    cases there
    exact fits.2
  | leaving =>
    rw [phase] at went
    cases went
    exact inv_lock inv p .idle false (fun mine => by cases mine) (fun _ _ => held) rfl trivial
  | running =>
    rw [phase] at went
    cases went
  | _ =>
    rw [phase] at held
    cases held

theorem settled_passed (receipt : Execution) (refused : Bool) (result : Option Outcome)
    (passed : (settled receipt refused result).outcome = .passed) : result = some .passed := by
  unfold settled at passed
  dsimp only at passed
  cases result with
  | none =>
    rw [Option.getD_none] at passed
    by_cases already : receipt.outcome = .passed
    · rw [if_pos already] at passed
      split_ifs at passed
    · rw [if_neg already] at passed
      split_ifs at passed
      exact absurd passed already
  | some outcome =>
    rw [Option.getD_some] at passed
    split_ifs at passed
    exact congrArg some passed

theorem measured_concat (graded : List Execution) (receipt : Execution)
    (measured : Measured s graded) (last : receipt.outcome = .passed → ∀ slot,
      receipt.job = jobName slot → Backed s slot) : Measured s (graded ++ [receipt]) := by
  intro other listed
  rcases List.mem_append.1 listed with old | new
  · exact measured other old
  · rw [List.mem_singleton.1 new]
    exact last

/-- An operation of a process without the lock. -/
theorem go_other (inv : Inv coded manifest s) (p : Nat) (free : (s.procs p).holds = false)
    (went : s.go coded digest manifest p = some s') : Inv coded manifest s' := by
  have fits := inv.fits p
  have quiet (phase : Phase) := inv_quiet inv p phase
  have away (phase : Phase) (out : phase.holds = false) (mine : phase.holds = true) :
      (s.procs p).holds = true := absurd (out.symm.trans mine) Bool.false_ne_true
  unfold State.go at went
  cases phase : s.procs p with
  | reading task rest seen =>
    rw [phase] at went fits
    cases went
    exact quiet _ (quiet_read inv task rest seen fits)
  | comparing task report rest seen =>
    rw [phase] at went fits
    cases went
    exact quiet _ (quiet_compare digest task report rest seen fits)
  | locking work =>
    rw [phase] at went fits
    dsimp only at went
    split_ifs at went with taken
    · cases went
      exact quiet _ ⟨rfl, rfl, trivial⟩
    · cases went
      exact inv_lock inv p (.locked work) true
        (fun _ => ⟨rfl, .inr (Bool.eq_false_iff.2 taken)⟩) (fun left => by cases left) rfl fits
  | importing report =>
    rw [phase] at went
    dsimp only at went
    split at went
    · cases went
      exact quiet _ ⟨rfl, rfl, trivial⟩
    · cases went
      exact quiet _ ⟨rfl, rfl, trivial⟩
  | freshening report =>
    rw [phase] at went
    cases went
    split_ifs
    · exact quiet _ ⟨rfl, rfl, trivial⟩
    · exact quiet _ ⟨rfl, rfl, trivial⟩
  | placing report =>
    rw [phase] at went
    dsimp only at went
    split at went
    · rename_i absent
      cases went
      exact inv_create inv p _ (away _ rfl) (reportSlot report) absent rfl
        (Function.update_self ..)
    · cases went
      exact quiet _ ⟨rfl, rfl, trivial⟩
  | copying report =>
    rw [phase] at went
    cases went
    exact inv_fill inv p _ (away _ rfl) (reportSlot report) report (by rw [phase]; rfl) rfl rfl
      trivial
  | receipts seen entries graded =>
    rw [phase] at went fits
    obtain ⟨read, measured⟩ := fits
    cases entries with
    | nil =>
      cases went
      exact quiet _ ⟨rfl, rfl, read, measured⟩
    | cons entry entries =>
      cases entry with
      | other receipt =>
        cases went
        refine quiet _ ⟨rfl, rfl, read, measured_concat graded receipt.1 measured ?_⟩
        exact fun _ slot job => absurd job (receipt.2 slot)
      | job slot =>
        dsimp only at went
        cases cell : (s.jobs slot).receipt with
        | absent =>
          rw [cell] at went
          cases went
          exact quiet _ ⟨rfl, rfl, read, measured⟩
        | torn =>
          rw [cell] at went
          cases went
          exact quiet _ ⟨rfl, rfl, trivial⟩
        | whole receipt =>
          rw [cell] at went
          cases went
          exact quiet _ ⟨rfl, rfl, read, measured, inv.named slot receipt cell⟩
  | marking seen slot receipt entries graded =>
    rw [phase] at went fits
    cases went
    exact quiet _ ⟨rfl, rfl, fits⟩
  | settling seen slot receipt refused entries graded =>
    rw [phase] at went fits
    obtain ⟨read, measured, named⟩ := fits
    dsimp only at went
    cases cell : (s.jobs slot).qualification with
    | absent =>
      rw [cell] at went
      cases went
      refine quiet _ ⟨rfl, rfl, read, measured_concat graded _ measured fun passed => ?_⟩
      cases settled_passed receipt refused none passed
    | torn =>
      rw [cell] at went
      cases went
      exact quiet _ ⟨rfl, rfl, trivial⟩
    | whole result =>
      rw [cell] at went
      cases went
      refine quiet _ ⟨rfl, rfl, read, measured_concat graded _ measured fun passed other job => ?_⟩
      have outcome := Option.some.inj (settled_passed receipt refused _ passed)
      obtain rfl := jobName_injective slot other (named.symm.trans job)
      exact inv.concluded slot result cell outcome
  | assessing seen graded =>
    rw [phase] at went fits
    obtain ⟨read, measured⟩ := fits
    dsimp only at went
    split at went
    · cases went
      exact quiet _ ⟨rfl, rfl, trivial⟩
    · rename_i assessment made
      cases went
      exact quiet _ ⟨rfl, rfl, read, fun _ => ⟨graded, s.tree, made, measured⟩⟩
  | answering seen assessment =>
    rw [phase] at went fits
    dsimp only at went
    split_ifs at went
    · cases went
      exact quiet _ ⟨rfl, rfl, fits.1, fun ready => by cases ready⟩
    · cases went
      exact quiet _ ⟨rfl, rfl, fits⟩
  | idle | listing | answered =>
    rw [phase] at went
    cases went
  | _ =>
    rw [phase] at free
    cases free

theorem fail_kept (inv : Inv coded manifest s) (p : Nat) (failed : s.fail p = some s') :
    Inv coded manifest s' := by
  have fits := inv.fits p
  have quiet := inv_quiet inv p .idle ⟨rfl, rfl, trivial⟩
  unfold State.fail at failed
  cases phase : s.procs p with
  | judging | reporting | reported =>
    rw [phase] at failed fits
    cases failed
    refine inv_move inv p _ (fun _ => by rw [phase]; rfl) rfl ?_
    first | exact fits | exact fits.1
  | admitting | observing | making | running | receipting | filing | filed | refusing | digesting
  | qualifying | sealing =>
    rw [phase] at failed
    cases failed
    exact inv_move inv p _ (fun _ => by rw [phase]; rfl) rfl trivial
  | idle | answered =>
    rw [phase] at failed
    cases failed
  | _ =>
    rw [phase] at failed
    cases failed
    exact quiet

/-- Every operation keeps what the council rests on. -/
theorem step_kept (event : Event) (inv : Inv coded manifest s)
    (taken : step coded digest manifest s event = some s') : Inv coded manifest s' := by
  unfold step at taken
  cases event with
  | go p =>
    cases held : (s.procs p).holds with
    | true => exact go_controller digest inv p held taken
    | false => exact go_other digest inv p held taken
  | review p reviewer round =>
    dsimp only at taken
    split at taken
    · split_ifs at taken with known
      cases taken
      exact inv_quiet inv p _ ⟨rfl, rfl, known, [], rfl, List.Sublist.refl _,
        fun _ listed => absurd listed List.not_mem_nil⟩
    · cases taken
  | manual p report =>
    dsimp only at taken
    split at taken
    · split_ifs at taken
      cases taken
      exact inv_quiet inv p _ ⟨rfl, rfl, trivial⟩
    · cases taken
  | status p =>
    dsimp only at taken
    split at taken
    · cases taken
      exact inv_quiet inv p _ ⟨rfl, rfl, trivial, [], rfl, List.Sublist.refl _,
        fun _ listed => absurd listed List.not_mem_nil⟩
    · cases taken
  | provider p outcome exitCode candidate =>
    have fits := inv.fits p
    dsimp only at taken
    split at taken
    · rename_i work phase
      rw [phase] at fits
      cases taken
      exact inv_move inv p _ (fun _ => by rw [phase]; rfl) rfl ⟨fits, rfl⟩
    · cases taken
  | list p entries =>
    have fits := inv.fits p
    dsimp only at taken
    split at taken
    · rename_i seen phase
      rw [phase] at fits
      cases taken
      exact inv_quiet inv p _ ⟨rfl, rfl, fits, fun _ listed => absurd listed List.not_mem_nil⟩
    · cases taken
  | edit tree =>
    cases taken
    have later : Later s { s with tree } := ⟨fun _ _ there => there, List.Subset.refl _⟩
    exact {
      lock := inv.lock
      one := inv.one
      writer := inv.writer
      places := inv.places
      named := inv.named
      concluded := fun slot result there passed =>
        (inv.concluded slot result there passed).later slot later
      accepted := inv.accepted
      fits := fun p => fits_later _ later (torn_of_writes inv p) (inv.fits p) }
  | fail p => exact fail_kept inv p taken
  | kill p =>
    cases taken
    exact inv_quiet inv p .idle ⟨rfl, rfl, trivial⟩

theorem inv_initial (tree : Str) : Inv coded manifest (initial tree) where
  lock p held := by cases held
  one p q held := by cases held
  writer p q slot writes := by cases writes
  places slot report there := by cases there
  named slot receipt there := by cases there
  concluded slot result there := by cases there
  accepted accepted listed := absurd listed List.not_mem_nil
  fits p := trivial

theorem run_kept (tree : Str) (events : List Event)
    (reached : run (step coded digest manifest) (initial tree) events = some s) :
    Inv coded manifest s :=
  run_keeps (step coded digest manifest) (fun s _ => Inv coded manifest s)
    (fun _ event _ _ inv taken => step_kept digest event inv taken) (initial tree) s events
    (inv_initial tree) reached

end

/-! ### What a ready answer rests on -/

theorem validateReviewers_nodup (reviewers : List Reviewer) (before : List Str)
    (valid : validateReviewers before reviewers = .ok ()) :
    (reviewers.map (·.id)).Nodup ∧ ∀ reviewer ∈ reviewers, reviewer.id ∉ before := by
  induction reviewers generalizing before with
  | nil => exact ⟨List.nodup_nil, fun _ listed => absurd listed List.not_mem_nil⟩
  | cons reviewer rest ih =>
    unfold validateReviewers at valid
    obtain ⟨_, first, valid⟩ := (bind_eq_ok ..).1 valid
    obtain ⟨_, -, valid⟩ := (bind_eq_ok ..).1 valid
    obtain ⟨nodup, apart⟩ := ih _ valid
    have fresh := of_decide_eq_true (Bool.and_eq_true_iff.1 ((require_ok ..).1 first)).2
    rw [List.map_cons, List.nodup_cons]
    refine ⟨⟨fun listed => ?_, nodup⟩, List.forall_mem_cons.2 ⟨fresh, fun other among => ?_⟩⟩
    · obtain ⟨other, among, same⟩ := List.mem_map.1 listed
      exact apart other among (same ▸ List.mem_cons_self)
    · exact fun held => apart other among (.tail _ held)

theorem validateRequest_nodup (request : Request) (valid : validateRequest request = .ok ()) :
    (request.reviewers.map (·.id)).Nodup := by
  simp only [validateRequest, bind, unit_bind, require_ok] at valid
  obtain ⟨-, -, -, -, -, -, -, -, checked, -⟩ := valid
  exact (validateReviewers_nodup request.reviewers [] checked).1

/-- A run that is ready shows everything. -/
theorem ready_qualified (seen : List Report) (graded : List Execution) (tree : Str)
    (assessment : Assessment) (made : assess manifest seen graded tree = .ok assessment)
    (ready : assessment.state = .readyForHumanReview) :
    validateRequest manifest.request = .ok () ∧ Qualified manifest seen graded tree := by
  have valid : validateRequest manifest.request = .ok () := by
    unfold assess at made
    obtain ⟨_, valid, -⟩ := (bind_eq_ok ..).1 made
    exact valid
  obtain ⟨admitted, once, once', rfl⟩ := (assess_ok manifest seen graded tree valid _).1 made
  refine ⟨valid, (reasons_nil manifest seen graded tree valid admitted once once').1 ?_⟩
  unfold Review.assessment at ready
  dsimp only at ready
  split_ifs at ready with empty
  exact empty

abbrev independents (seen : List Report) : List Report :=
  seen.filter fun r => r.round = .independent

theorem slots_independent (manifest : Manifest) :
    (slots manifest).filter (fun slot => slot.2 = .independent) =
      manifest.request.reviewers.map fun reviewer => (reviewer.id, .independent) := by
  unfold slots
  induction manifest.request.reviewers with
  | nil => rfl
  | cons reviewer rest ih =>
    rw [List.flatMap_cons, List.filter_append, ih]
    rfl

theorem independents_places (reports : Slot → Cell Report) (seen : List Report)
    (read : Read reports (slots manifest) seen) :
    ((independents seen).map reportSlot).Sublist
      (manifest.request.reviewers.map fun reviewer => (reviewer.id, .independent)) := by
  rw [← slots_independent]
  have filtered : (independents seen).map reportSlot =
      (seen.map reportSlot).filter fun slot => slot.2 = .independent := by
    rw [List.filter_map]
    rfl
  rw [filtered]
  exact read.places.filter _

theorem seen_unique (reports : Slot → Cell Report) (one two : List Report)
    (first : ∀ report ∈ one, reports (reportSlot report) = .whole report)
    (second : ∀ report ∈ two, reports (reportSlot report) = .whole report)
    (same : one.map reportSlot = two.map reportSlot) : one = two := by
  induction one generalizing two with
  | nil => exact (List.map_eq_nil_iff.1 same.symm).symm
  | cons report one ih =>
    cases two with
    | nil => cases same
    | cons other two =>
      rw [List.map_cons, List.map_cons] at same
      obtain ⟨place, rest⟩ := List.cons.inj same
      have there := first report List.mem_cons_self
      rw [place, second other List.mem_cons_self] at there
      cases there
      rw [ih two (fun r listed => first r (.tail _ listed))
        (fun r listed => second r (.tail _ listed)) rest]

theorem independents_whole (reports : Slot → Cell Report) (seen : List Report)
    (read : Read reports (slots manifest) seen)
    (whole : manifest.request.reviewers.length ≤ (independents seen).length) :
    (independents seen).map reportSlot =
      manifest.request.reviewers.map fun reviewer => (reviewer.id, .independent) := by
  refine (independents_places reports seen read).eq_of_length_le ?_
  rw [List.length_map, List.length_map]
  exact whole

theorem independents_count (seen : List Report)
    (ids : (manifest.request.reviewers.map (·.id)).Nodup)
    (complete : ∀ reviewer ∈ manifest.request.reviewers, ∃ report,
      (seen.filter fun r => r.reviewerId = reviewer.id && r.round = .independent) = [report]) :
    manifest.request.reviewers.length ≤ (independents seen).length := by
  have held : manifest.request.reviewers.map (·.id) ⊆ (independents seen).map (·.reviewerId) := by
    intro id listed
    obtain ⟨reviewer, known, rfl⟩ := List.mem_map.1 listed
    obtain ⟨report, single⟩ := complete reviewer known
    have member : report ∈
        seen.filter fun r => r.reviewerId = reviewer.id && r.round = .independent := by
      rw [single]
      exact List.mem_singleton_self _
    obtain ⟨among, place⟩ := List.mem_filter.1 member
    obtain ⟨names, round⟩ := Bool.and_eq_true_iff.1 place
    exact List.mem_map.2 ⟨report, List.mem_filter.2 ⟨among, round⟩, of_decide_eq_true names⟩
  have short := (List.subperm_of_subset ids held).length_le
  rw [List.length_map, List.length_map] at short
  exact short

theorem prompt_independent (reviewer : Reviewer) (prior : List Report) :
    prompt coded manifest reviewer .independent prior =
      prompt coded manifest reviewer .independent [] := by
  have shown (reports : List Report) : promptText coded manifest reviewer .independent reports =
      taskLine manifest reviewer .independent ++ '\n' :: (rulesLine manifest reviewer ++ '\n' ::
        (manifest.artifacts.flatMap (artifactText coded) ++ [])) := by
    unfold promptText
    rw [if_neg (by decide)]
  unfold prompt
  rw [shown, shown]

theorem prompt_challenge (reviewer : Reviewer) (prior seen : List Report)
    (same : independents prior = independents seen) :
    prompt coded manifest reviewer .challenge prior =
      prompt coded manifest reviewer .challenge seen := by
  have challenged' (reports : List Report) : challenged reviewer reports =
      (independents reports).filter fun r => r.reviewerId ≠ reviewer.id := by
    rw [independents, List.filter_filter]
    exact List.filter_congr fun r _ => Bool.and_comm ..
  unfold prompt promptText challengeText
  rw [challenged', challenged', same]

/-- The report of a reviewer's round that an answer rests on: a controller took it from the
reviewer's provider, which had been shown this prompt. -/
structure Reviewed (coded : Char → Bool) (manifest : Manifest) (s : State) (seen : List Report)
    (reviewer : Reviewer) (round : Round) (prior : List Report) (accepted : Accepted) :
    Prop where
  taken : accepted ∈ s.accepted
  work : accepted.work.reviewer = reviewer ∧ accepted.work.round = round
  only : (seen.filter fun r => r.reviewerId = reviewer.id && r.round = round) = [accepted.report]
  shown : prompt coded manifest reviewer round prior = .ok accepted.work.shown

/-- In every run of controllers, imports, edits and deaths, an answer is ready only on reports that
controllers took from the reviewers' providers, where none of the first round was shown another, and
each of the second was shown the others' of the first that the answer rests on. -/
theorem ready_reviewed (digest : Report → Str) (tree : Str) (events : List Event)
    (reached : run (step coded digest manifest) (initial tree) events = some s) (p : Nat)
    (seen : List Report) (assessment : Assessment)
    (answered : s.procs p = .answered seen assessment)
    (ready : assessment.state = .readyForHumanReview) (reviewer : Reviewer)
    (known : reviewer ∈ manifest.request.reviewers) :
    (∃ first, Reviewed coded manifest s seen reviewer .independent [] first) ∧
      ∃ second, Reviewed coded manifest s seen reviewer .challenge seen second := by
  have inv := run_kept digest tree events reached
  have fits := inv.fits p
  rw [answered] at fits
  obtain ⟨read, rests⟩ := fits
  obtain ⟨graded, tree', made, measured⟩ := rests ready
  obtain ⟨valid, qualified⟩ := ready_qualified seen graded tree' assessment made ready
  have ids := validateRequest_nodup manifest.request valid
  have backed (round : Round) : ∃ accepted ∈ s.accepted, accepted.work.reviewer = reviewer ∧
      accepted.work.round = round ∧ Shown coded manifest s.reports accepted.work ∧
      (seen.filter fun r => r.reviewerId = reviewer.id && r.round = round) =
        [accepted.report] := by
    obtain ⟨receipt, alone, -, passed, -⟩ :=
      qualified.receipts (reviewJob reviewer round) (.inl ⟨reviewer, known, round, rfl⟩)
    have listed : receipt ∈ graded.filter fun e => e.job = reviewJob reviewer round := by
      rw [alone]
      exact List.mem_singleton_self _
    obtain ⟨among, job⟩ := List.mem_filter.1 listed
    obtain ⟨accepted, taken, slot, there⟩ :=
      measured receipt among passed (reviewer.id, round) (of_decide_eq_true job)
    obtain ⟨shown, -⟩ := inv.accepted accepted taken
    obtain ⟨id, rounds⟩ := Prod.mk.inj slot
    refine ⟨accepted, taken, List.inj_on_of_nodup_map ids shown.known known id, rounds, shown, ?_⟩
    obtain ⟨report, single, -⟩ := qualified.complete reviewer known round
    have held : report ∈ seen.filter fun r => r.reviewerId = reviewer.id && r.round = round := by
      rw [single]
      exact List.mem_singleton_self _
    obtain ⟨member, place⟩ := List.mem_filter.1 held
    obtain ⟨names, round'⟩ := Bool.and_eq_true_iff.1 place
    have cell := read.whole report member
    have pos : reportSlot report = (reviewer.id, round) :=
      Prod.ext (of_decide_eq_true names) (of_decide_eq_true round')
    rw [pos, there] at cell
    cases cell
    exact single
  have whole : manifest.request.reviewers.length ≤ (independents seen).length :=
    independents_count seen ids fun other listed =>
      (qualified.complete other listed .independent).imp fun _ single => single.1
  constructor
  · obtain ⟨accepted, taken, same, round, shown, only⟩ := backed .independent
    refine ⟨accepted, taken, ⟨same, round⟩, only, ?_⟩
    have made' := shown.shown
    rw [same, round, prompt_independent] at made'
    exact made'
  · obtain ⟨accepted, taken, same, round, shown, only⟩ := backed .challenge
    refine ⟨accepted, taken, ⟨same, round⟩, only, ?_⟩
    have made' := shown.shown
    have places := independents_whole s.reports accepted.work.prior shown.read
      (Nat.le_of_eq (shown.complete round).symm)
    have alike := seen_unique s.reports (independents accepted.work.prior) (independents seen)
      (fun r listed => shown.read.whole r (List.mem_of_mem_filter listed))
      (fun r listed => read.whole r (List.mem_of_mem_filter listed))
      (places.trans (independents_whole s.reports seen read whole).symm)
    rw [same, round, prompt_challenge reviewer _ seen alike] at made'
    exact made'

end

/-! ### A run that is ready -/

def Phase.ready : Phase → Bool
  | .answered _ assessment => assessment.state = .readyForHumanReview
  | _ => false

theorem Phase.answered_of_ready (phase : Phase) (ready : phase.ready = true) :
    ∃ seen assessment, phase = .answered seen assessment ∧
      assessment.state = .readyForHumanReview := by
  cases phase with
  | answered seen assessment => exact ⟨seen, assessment, rfl, of_decide_eq_true ready⟩
  | _ => cases ready

def goes (p count : Nat) : List Event := List.replicate count (.go p)

/-- A review by process 1 that finds so many reports, and whose provider returns this one. -/
def reviewed (found : Nat) (reviewer : Reviewer) (report : Report) : List Event :=
  .review 1 reviewer report.round :: (goes 1 (found + 10) ++
    .provider 1 .passed (some 0) (some report) :: goes 1 10)

def gateReceipt (gate : Gate) : Listed :=
  .other ⟨passed (gateJob gate), by
    intro slot
    cases gate <;> exact fun same => absurd (List.cons.inj same).1 (by decide)⟩

def sampleRun : List Event :=
  let report (id : Str) (round : Round) : Report := ⟨['r'], id, round, .noBlockers, ['s'], [], []⟩
  let one : Reviewer := ⟨['a'], .codex, none, .general⟩
  let two : Reviewer := ⟨['b'], .claudeCode, none, .general⟩
  reviewed 0 one (report ['a'] .independent) ++ reviewed 1 two (report ['b'] .independent) ++
    reviewed 2 one (report ['a'] .challenge) ++ reviewed 3 two (report ['b'] .challenge) ++
    .status 0 :: (goes 0 9 ++
      .list 0 ((slots sampleManifest).map .job ++ (Gate.required .roster).map gateReceipt) ::
        goes 0 (12 + (Gate.required .roster).length + 3))

theorem sampleRun_ready :
    ((run (step (fun _ => false) (fun _ => []) sampleManifest) (initial ['t'])
      sampleRun).any fun s => (s.procs 0).ready) = true := by
  decide +kernel

/-- The theorem of a ready answer, for the first reviewer of a run that gets one. -/
theorem ready_reviewed_sample :
    ∃ s seen assessment, s.procs 0 = .answered seen assessment ∧
      assessment.state = .readyForHumanReview ∧
      (∃ first, Reviewed (fun _ => false) sampleManifest s seen
        ⟨['a'], .codex, none, .general⟩ .independent [] first) ∧
      ∃ second, Reviewed (fun _ => false) sampleManifest s seen
        ⟨['a'], .codex, none, .general⟩ .challenge seen second := by
  obtain ⟨s, reached, ready⟩ := (Option.any_eq_true ..).1 sampleRun_ready
  obtain ⟨seen, assessment, answered, state⟩ := (s.procs 0).answered_of_ready ready
  exact ⟨s, seen, assessment, answered, state,
    ready_reviewed (fun _ => []) ['t'] sampleRun reached 0 seen assessment answered state
      ⟨['a'], .codex, none, .general⟩ List.mem_cons_self⟩

end DeepDiffForge.Review.Council
