import DeepDiffForge.Daemon.Exposition
import Mathlib.Data.List.Flatten

/-! What a reader of the text format makes of the exposed metrics. -/

namespace DeepDiffForge.Daemon
open Text Json Exposition Fallible
open DeepDiffForge.Core (u64Max saturatingAdd64)

structure Content where
  version : Str
  uptime : Nat
  methods : List MethodEntry
  counts : Str → Str → Nat

structure MethodHolds (member : Str × Value) (method : MethodEntry) : Prop where
  name : method.name = member.1
  requests : (member.2.get "requests".toList).bind Value.asU64 = some method.requests
  errors : ∃ members, (member.2.get "errors".toList).bind Value.asObject = some members ∧
    List.Forall₂ (fun entry error => entry.1 = error.1 ∧ entry.2.asU64 = some error.2) members
      method.errors
  buckets : ∃ items,
    ((member.2.get "latency_us".toList).bind (·.get "buckets".toList)).bind Value.asArray =
      some items ∧
    items.length = latencyBuckets ∧
    List.Forall₂ (fun item n => item.asU64 = some n) items method.buckets

structure Holds (doc : Value) (content : Content) : Prop where
  version : (doc.get "version".toList).bind Value.asText = some content.version
  uptime : (doc.get "uptime_secs".toList).bind Value.asU64 = some content.uptime
  methods : ∃ members, (doc.get "methods".toList).bind Value.asObject = some members ∧
    List.Forall₂ MethodHolds members content.methods
  scalars : ∀ scalar ∈ scalars,
    countAt doc scalar.part scalar.field = some (content.counts scalar.part scalar.field)
  refused : ∀ refusal ∈ refusals,
    countAt doc "connections".toList refusal.2 = some (content.counts "connections".toList refusal.2)

def CountReading.value : CountReading → Nat → ℚ
  | .plain, n => n
  | .seconds, n => n / 10 ^ 6

section Groups
variable {ν : Type} (plain : Nat → ν) (reading : CountReading → Nat → ν)

def requestRow (method : MethodEntry) : Sample ν where
  name := "ddf_daemon_requests_total".toList
  labels := [("method".toList, method.name)]
  value := plain method.requests

def errorRow (method : MethodEntry) (error : Str × Nat) : Sample ν where
  name := "ddf_daemon_request_errors_total".toList
  labels := [("method".toList, method.name), ("error".toList, error.1)]
  value := plain error.2

def bucketRow (method : MethodEntry) (i : Nat) : Sample ν where
  name := duration ++ "_bucket".toList
  labels := [("method".toList, method.name), ("le".toList, bucketLabel i)]
  value := plain (method.buckets.take (i + 1)).sum

def countRow (method : MethodEntry) : Sample ν where
  name := duration ++ "_count".toList
  labels := [("method".toList, method.name)]
  value := plain method.buckets.sum

def latencyRows (method : MethodEntry) : List (Sample ν) :=
  (List.range method.buckets.length).map (bucketRow plain method) ++ [countRow plain method]

def requestsGroup (methods : List MethodEntry) : Exposition.Family ν where
  name := "ddf_daemon_requests_total".toList
  help := requestsHelp
  kind := .counter
  samples := methods.map (requestRow plain)

def errorsGroup (methods : List MethodEntry) : Exposition.Family ν where
  name := "ddf_daemon_request_errors_total".toList
  help := errorsHelp
  kind := .counter
  samples := methods.flatMap fun method => method.errors.map (errorRow plain method)

def latencyGroup (methods : List MethodEntry) : Exposition.Family ν where
  name := duration
  help := latencyHelp
  kind := .histogram
  samples := methods.flatMap (latencyRows plain)

def infoGroup (version : Str) : Exposition.Family ν where
  name := "ddf_daemon_build_info".toList
  help := infoHelp
  kind := .gauge
  samples := [⟨"ddf_daemon_build_info".toList, [("version".toList, version)], plain 1⟩]

def uptimeGroup (uptime : Nat) : Exposition.Family ν where
  name := "ddf_daemon_uptime_seconds".toList
  help := uptimeHelp
  kind := .gauge
  samples := [⟨"ddf_daemon_uptime_seconds".toList, [], plain uptime⟩]

def scalarGroup (counts : Str → Str → Nat) (scalar : Scalar) : Exposition.Family ν where
  name := scalar.name
  help := scalar.help
  kind := scalar.kind
  samples := [⟨scalar.name, [], reading scalar.value (counts scalar.part scalar.field)⟩]

def refusedRow (counts : Str → Str → Nat) (refusal : Str × Str) : Sample ν where
  name := "ddf_daemon_connections_refused_total".toList
  labels := [("reason".toList, refusal.1)]
  value := plain (counts "connections".toList refusal.2)

def refusedGroup (counts : Str → Str → Nat) : Exposition.Family ν where
  name := "ddf_daemon_connections_refused_total".toList
  help := refusedHelp
  kind := .counter
  samples := refusals.map (refusedRow plain counts)

def Content.groups (content : Content) : List (Exposition.Family ν) :=
  [infoGroup plain content.version, uptimeGroup plain content.uptime,
    requestsGroup plain content.methods, errorsGroup plain content.methods,
    latencyGroup plain content.methods] ++
  scalars.map (scalarGroup reading content.counts) ++ [refusedGroup plain content.counts]

def filled (family : Exposition.Family ν) : Bool := !family.samples.isEmpty

end Groups

def Content.written (content : Content) : List (Exposition.Family Str) :=
  (content.groups decimal CountReading.write).filter filled

def Content.counted (content : Content) : List (Exposition.Family ℚ) :=
  (content.groups (fun n : Nat => (n : ℚ)) CountReading.value).filter filled

/-! The text is that of the families. -/

structure Writes (family : Family) (group : Exposition.Family Str) : Prop where
  text : family.text = group.text
  samples : family.samples = group.samples.length

theorem writes_new (name help : Str) (kind : Kind) :
    Writes (.new name kind help) ⟨name, help, kind, []⟩ where
  text := by
    have feed : "\n# TYPE ".toList = ['\n'] ++ "# TYPE ".toList := by decide
    unfold Family.new Exposition.Family.text Family.heading unlines
    rw [feed]
    generalize "# HELP ".toList = first
    generalize "# TYPE ".toList = second
    simp only [List.map_nil, List.append_nil, List.flatMap_cons, List.flatMap_nil,
      List.append_assoc, List.cons_append]
  samples := rfl

theorem labels_text (labels : List (Str × Str)) :
    (labels.zipIdx.flatMap fun entry =>
      (if entry.2 = 0 then '\x7b' else ',') ::
        (entry.1.1 ++ '=' :: '"' :: (escapeLabel entry.1.2 ++ ['"']))) ++
      (if labels.isEmpty then [] else ['\x7d']) = labelsText labels := by
  have more (labels : List (Str × Str)) (i : Nat) :
      ((labels.zipIdx (i + 1)).flatMap fun entry =>
        (if entry.2 = 0 then '\x7b' else ',') ::
          (entry.1.1 ++ '=' :: '"' :: (escapeLabel entry.1.2 ++ ['"']))) ++ ['\x7d'] =
        moreLabels labels := by
    induction labels generalizing i with
    | nil => rfl
    | cons label labels ih =>
      rw [List.zipIdx_cons, List.flatMap_cons, List.append_assoc, ih (i + 1)]
      rfl
  cases labels with
  | nil => rfl
  | cons label labels =>
    rw [List.zipIdx_cons, List.flatMap_cons, List.append_assoc]
    exact congrArg (_ ++ ·) (more labels 0)

theorem writes_sample (family : Family) (group : Exposition.Family Str) (name : Str)
    (labels : List (Str × Str)) (value : Str) (writes : Writes family group) :
    Writes (family.sample name labels value)
      { group with samples := group.samples ++ [⟨name, labels, value⟩] } where
  text := by
    have line : Sample.line ⟨name, labels, value⟩ ++ ['\n'] =
        name ++ (labelsText labels ++ ' ' :: (value ++ ['\n'])) := by
      rw [Sample.line, List.append_assoc, List.append_assoc]
      rfl
    have more (lines : List Str) (last : Str) : unlines (lines ++ [last]) =
        unlines lines ++ (last ++ ['\n']) := by
      rw [unlines, List.flatMap_append, List.flatMap_singleton]
      rfl
    rw [Exposition.Family.text, List.map_append, ← List.append_assoc, List.map_singleton, more,
      line, ← labels_text]
    change family.text ++ name ++ _ ++ _ ++ _ = group.text ++ _
    rw [writes.text]
    simp only [List.append_assoc]
  samples := by
    rw [List.length_append, ← writes.samples]
    rfl

theorem writes_finish (family : Family) (group : Exposition.Family Str)
    (writes : Writes family group) (out : Str) :
    family.finish out = out ++ ([group].filter filled).flatMap Exposition.Family.text := by
  rw [Family.finish, writes.samples, writes.text, List.filter_singleton]
  unfold filled
  cases group.samples with
  | nil => rw [if_neg (by simp)]; simp
  | cons sample samples => rw [if_pos (by simp)]; simp

theorem saturatingAdd64_small (a b : Nat) (small : a + b < 2 ^ 64) : saturatingAdd64 a b = a + b := by
  unfold saturatingAdd64 u64Max
  omega

theorem writes_buckets (method : MethodEntry) (small : method.buckets.sum < 2 ^ 64)
    (before rest : List Nat) (whole : method.buckets = before ++ rest) (family : Family)
    (group : Exposition.Family Str) (writes : Writes family group) :
    Writes (bucketSamples method.name before.length before.sum rest family).1
        { group with samples := group.samples ++
          (List.range' before.length rest.length).map (bucketRow decimal method) } ∧
      (bucketSamples method.name before.length before.sum rest family).2 =
        method.buckets.sum := by
  induction rest generalizing before family group with
  | nil =>
    rw [List.append_nil] at whole
    rw [List.length_nil, List.range'_zero, List.map_nil, List.append_nil, whole]
    exact ⟨writes, rfl⟩
  | cons n rest ih =>
    have sum : (before ++ [n]).sum = before.sum + n := by
      rw [List.sum_append, List.sum_singleton]
    have within : before.sum + n < 2 ^ 64 := by
      rw [whole, List.sum_append, List.sum_cons] at small
      omega
    have length : (before ++ [n]).length = before.length + 1 := List.length_append
    have split : method.buckets = (before ++ [n]) ++ rest := by
      rw [whole, List.append_assoc]
      rfl
    have row : bucketRow decimal method before.length = ⟨duration ++ "_bucket".toList,
        [("method".toList, method.name), ("le".toList, bucketLabel before.length)],
        decimal (before.sum + n)⟩ := by
      rw [bucketRow, split, ← length, List.take_left, sum]
    have next := ih (before ++ [n]) split _ _ (writes_sample family group
      (duration ++ "_bucket".toList)
      [("method".toList, method.name), ("le".toList, bucketLabel before.length)]
      (decimal (before.sum + n)) writes)
    rw [length, sum, ← row] at next
    rw [bucketSamples, saturatingAdd64_small _ _ within, List.length_cons, List.range'_succ,
      List.map_cons]
    dsimp only at next ⊢
    rw [List.append_assoc] at next
    exact next

theorem writes_errors (method : MethodEntry) (errors : List (Str × Nat)) (family : Family)
    (group : Exposition.Family Str) (writes : Writes family group) :
    Writes (errors.foldl (fun family error =>
        family.sample "ddf_daemon_request_errors_total".toList
          [("method".toList, method.name), ("error".toList, error.1)] (decimal error.2)) family)
      { group with samples := group.samples ++ errors.map (errorRow decimal method) } := by
  induction errors generalizing family group with
  | nil =>
    rw [List.map_nil, List.append_nil]
    exact writes
  | cons error errors ih =>
    have next := ih _ _ (writes_sample family group "ddf_daemon_request_errors_total".toList
      [("method".toList, method.name), ("error".toList, error.1)] (decimal error.2) writes)
    dsimp only at next
    rw [List.append_assoc] at next
    exact next

structure MethodsWritten (texts : MethodTexts) (methods : List MethodEntry) : Prop where
  requests : Writes texts.requests (requestsGroup decimal methods)
  errors : Writes texts.errors (errorsGroup decimal methods)
  latency : Writes texts.latency (latencyGroup decimal methods)

theorem methodsWritten_next (texts : MethodTexts) (methods : List MethodEntry) (method : MethodEntry)
    (small : method.buckets.sum < 2 ^ 64) (written : MethodsWritten texts methods) :
    MethodsWritten (texts.method method) (methods ++ [method]) where
  requests := by
    have next := writes_sample texts.requests (requestsGroup decimal methods)
      "ddf_daemon_requests_total".toList [("method".toList, method.name)] (decimal method.requests)
      written.requests
    unfold requestsGroup at next ⊢
    rw [List.map_append, List.map_singleton]
    exact next
  errors := by
    have next := writes_errors method method.errors texts.errors (errorsGroup decimal methods)
      written.errors
    unfold errorsGroup at next ⊢
    rw [List.flatMap_append, List.flatMap_singleton]
    exact next
  latency := by
    obtain ⟨buckets, total⟩ := writes_buckets method small [] method.buckets rfl texts.latency
      (latencyGroup decimal methods) written.latency
    have last := writes_sample _ _ (duration ++ "_count".toList) [("method".toList, method.name)]
      (decimal method.buckets.sum) buckets
    rw [← total] at last
    unfold latencyGroup at last ⊢
    rw [List.flatMap_append, List.flatMap_singleton, latencyRows, ← List.append_assoc,
      List.range_eq_range', countRow, ← total]
    exact last

theorem methodsWritten_all (rest : List MethodEntry) (small : ∀ method ∈ rest,
    method.buckets.sum < 2 ^ 64) (texts : MethodTexts) (methods : List MethodEntry)
    (written : MethodsWritten texts methods) :
    MethodsWritten (rest.foldl MethodTexts.method texts) (methods ++ rest) := by
  induction rest generalizing texts methods with
  | nil => rwa [List.append_nil]
  | cons method rest ih =>
    rw [List.forall_mem_cons] at small
    have next := ih small.2 _ _ (methodsWritten_next texts methods method small.1 written)
    rwa [List.append_assoc] at next

theorem methodFamilies_text (methods : List MethodEntry)
    (small : ∀ method ∈ methods, method.buckets.sum < 2 ^ 64) (out : Str) :
    methodFamilies methods out = out ++ ([requestsGroup decimal methods,
      errorsGroup decimal methods, latencyGroup decimal methods].filter filled).flatMap
        Exposition.Family.text := by
  obtain ⟨requests, errors, latency⟩ := methodsWritten_all methods small
    { requests := .new "ddf_daemon_requests_total".toList .counter requestsHelp
      errors := .new "ddf_daemon_request_errors_total".toList .counter errorsHelp
      latency := .new duration .histogram latencyHelp } []
    ⟨writes_new .., writes_new .., writes_new ..⟩
  rw [List.nil_append] at requests errors latency
  unfold methodFamilies
  dsimp only
  rw [writes_finish _ _ latency, writes_finish _ _ errors, writes_finish _ _ requests,
    List.append_assoc, List.append_assoc, ← List.flatMap_append, ← List.flatMap_append,
    ← List.filter_append, ← List.filter_append]
  rfl

/-! What an accepted document holds. -/

theorem required_eq_ok {α : Type} (found : Option α) (reason : Str) (value : α) :
    required found reason = .ok value ↔ found = some value := by
  cases found with
  | none =>
    refine ⟨fun accepted => ?_, fun same => ?_⟩
    · cases accepted
    · cases same
  | some other => exact Except.ok.injEq other value ▸ (Option.some.injEq other value).symm ▸ Iff.rfl

theorem mapM_eq_some {α β : Type} (f : α → Option β) (items : List α) (results : List β)
    (mapped : items.mapM f = some results) :
    List.Forall₂ (fun item result => f item = some result) items results := by
  induction items generalizing results with
  | nil =>
    obtain rfl := Option.some.inj mapped
    exact .nil
  | cons item items ih =>
    rw [List.mapM_cons] at mapped
    obtain ⟨result, first, mapped⟩ := Option.bind_eq_some_iff.1 mapped
    obtain ⟨others, rest, mapped⟩ := Option.bind_eq_some_iff.1 mapped
    obtain rfl := Option.some.inj mapped
    exact .cons first (ih others rest)

theorem methodEntry_holds (debugText : Str → Str) (member : Str × Value) (method : MethodEntry)
    (read : methodEntry debugText member.1 member.2 = .ok method) : MethodHolds member method := by
  unfold methodEntry at read
  obtain ⟨requests, counted, read⟩ := (bind_eq_ok ..).1 read
  obtain ⟨members, object, read⟩ := (bind_eq_ok ..).1 read
  obtain ⟨errors, labelled, read⟩ := (bind_eq_ok ..).1 read
  obtain ⟨buckets, timed, read⟩ := (bind_eq_ok ..).1 read
  obtain rfl := Except.ok.inj read
  rw [required_eq_ok] at counted object labelled timed
  obtain ⟨items, array, timed⟩ := Option.bind_eq_some_iff.1 timed
  obtain ⟨array, length⟩ := Option.filter_eq_some_iff.1 array
  refine ⟨rfl, counted, ⟨members, object, ?_⟩, items, array, of_decide_eq_true length,
    mapM_eq_some _ _ _ timed⟩
  refine (mapM_eq_some _ _ _ labelled).imp ?_
  intro entry error read
  obtain ⟨n, counted', rfl⟩ := Option.map_eq_some_iff.1 read
  exact ⟨rfl, counted'⟩

theorem scalars_text (doc : Value) (counts : Str → Str → Nat) (rest : List Scalar) (out last : Str)
    (counted : ∀ scalar part field, countAt doc part field = some scalar → counts part field = scalar)
    (accepted : rest.foldlM (scalarFamily doc) out = .ok last) :
    (∀ scalar ∈ rest, countAt doc scalar.part scalar.field =
      some (counts scalar.part scalar.field)) ∧
    last = out ++ ((rest.map (scalarGroup CountReading.write counts)).filter filled).flatMap
      Exposition.Family.text := by
  induction rest generalizing out with
  | nil =>
    obtain rfl := Except.ok.inj accepted
    exact ⟨by simp, (List.append_nil _).symm⟩
  | cons scalar rest ih =>
    rw [List.foldlM_cons] at accepted
    obtain ⟨middle, first, accepted⟩ := (bind_eq_ok ..).1 accepted
    unfold scalarFamily at first
    obtain ⟨n, found, first⟩ := (bind_eq_ok ..).1 first
    obtain rfl := Except.ok.inj first
    unfold count at found
    rw [required_eq_ok] at found
    have same := counted n _ _ found
    obtain ⟨others, rfl⟩ := ih _ accepted
    refine ⟨List.forall_mem_cons.2 ⟨found.trans (congrArg some same.symm), others⟩, ?_⟩
    have writes := writes_sample _ _ scalar.name [] (scalar.value.write n)
      (writes_new scalar.name scalar.help scalar.kind)
    rw [writes_finish _ _ writes, List.append_assoc, ← List.flatMap_append, ← List.filter_append,
      List.map_cons, ← same]
    rfl

theorem refused_text (doc : Value) (counts : Str → Str → Nat) (rest : List (Str × Str))
    (family last : Family) (group : Exposition.Family Str) (writes : Writes family group)
    (counted : ∀ scalar part field, countAt doc part field = some scalar → counts part field = scalar)
    (accepted : rest.foldlM (refusedSample doc) family = .ok last) :
    (∀ refusal ∈ rest, countAt doc "connections".toList refusal.2 =
      some (counts "connections".toList refusal.2)) ∧
    Writes last { group with samples := group.samples ++ rest.map (refusedRow decimal counts) } := by
  induction rest generalizing family group with
  | nil =>
    obtain rfl := Except.ok.inj accepted
    rw [List.map_nil, List.append_nil]
    exact ⟨by simp, writes⟩
  | cons refusal rest ih =>
    rw [List.foldlM_cons] at accepted
    obtain ⟨middle, first, accepted⟩ := (bind_eq_ok ..).1 accepted
    unfold refusedSample at first
    obtain ⟨n, found, first⟩ := (bind_eq_ok ..).1 first
    obtain rfl := Except.ok.inj first
    unfold count at found
    rw [required_eq_ok] at found
    have same := counted n _ _ found
    obtain ⟨others, whole⟩ := ih _ _ (writes_sample family group _ _ _ writes) accepted
    refine ⟨List.forall_mem_cons.2 ⟨found.trans (congrArg some same.symm), others⟩, ?_⟩
    have row : refusedRow decimal counts refusal =
        ⟨"ddf_daemon_connections_refused_total".toList, [("reason".toList, refusal.1)],
          decimal n⟩ := by
      unfold refusedRow
      rw [same]
    rw [List.map_cons, row]
    rw [List.append_assoc] at whole
    exact whole

theorem prometheusText_written (debugText : Str → Str) (doc : Value) (text : Str)
    (accepted : prometheusText debugText doc = .ok text) :
    ∃ content, Holds doc content ∧ ((∀ method ∈ content.methods, method.buckets.sum < 2 ^ 64) →
      text = content.written.flatMap Exposition.Family.text) := by
  unfold prometheusText at accepted
  split at accepted
  · cases accepted
  · obtain ⟨version, versioned, accepted⟩ := (bind_eq_ok ..).1 accepted
    obtain ⟨uptime, up, accepted⟩ := (bind_eq_ok ..).1 accepted
    obtain ⟨members, object, accepted⟩ := (bind_eq_ok ..).1 accepted
    obtain ⟨methods, entries, accepted⟩ := (bind_eq_ok ..).1 accepted
    obtain ⟨out, scalars', accepted⟩ := (bind_eq_ok ..).1 accepted
    obtain ⟨refused, refusals', accepted⟩ := (bind_eq_ok ..).1 accepted
    obtain rfl := Except.ok.inj accepted
    rw [required_eq_ok] at versioned up object
    let counts (part field : Str) : Nat := (countAt doc part field).getD 0
    have counted (n : Nat) (part field : Str) (found : countAt doc part field = some n) :
        counts part field = n := congrArg (Option.getD · 0) found
    obtain ⟨each, rfl⟩ := scalars_text doc counts scalars _ out counted scalars'
    obtain ⟨reasons, writes⟩ := refused_text doc counts refusals _ refused _ (writes_new ..)
      counted refusals'
    refine ⟨⟨version, uptime, methods, counts⟩, ⟨versioned, up, ⟨members, object, ?_⟩, each,
      reasons⟩, fun small => ?_⟩
    · exact (mapM_ok _ _ _ entries).imp fun member method read =>
        methodEntry_holds debugText member method read
    · have info := writes_finish _ _ (writes_sample _ _ "ddf_daemon_build_info".toList
        [("version".toList, version)] "1".toList
        (writes_new "ddf_daemon_build_info".toList infoHelp .gauge)) []
      have up := writes_finish _ _ (writes_sample _ _ "ddf_daemon_uptime_seconds".toList []
        (decimal uptime) (writes_new "ddf_daemon_uptime_seconds".toList uptimeHelp .gauge))
      have one : decimal 1 = "1".toList := by decide
      have five : [infoGroup decimal version, uptimeGroup decimal uptime,
          requestsGroup decimal methods, errorsGroup decimal methods,
          latencyGroup decimal methods] = [infoGroup decimal version] ++
            ([uptimeGroup decimal uptime] ++ [requestsGroup decimal methods,
              errorsGroup decimal methods, latencyGroup decimal methods]) := rfl
      rw [writes_finish _ _ writes, methodFamilies_text methods small, up, info]
      unfold Content.written Content.groups
      dsimp only
      rw [five]
      simp only [List.filter_append, List.flatMap_append, List.append_assoc, List.nil_append]
      unfold infoGroup uptimeGroup refusedGroup
      rw [one]

/-! What the text reads back as. -/

theorem readDigits_fraction (fraction : Nat) (positive : fraction ≠ 0) (small : fraction < 10 ^ 6)
    (digits : Str)
    (padded : digits = List.replicate (6 - (decimal fraction).length) '0' ++ decimal fraction) :
    ∃ kept zeros, (trimEnd '0' digits).length + zeros = 6 ∧ fraction = kept * 10 ^ zeros ∧
      readDigits (trimEnd '0' digits) = some kept := by
  have short : (decimal fraction).length ≤ 6 := by
    rw [decimal, Nat.length_toDigits_le_iff (by decide) (by decide)]
    exact small
  have length : digits.length = 6 := by
    rw [padded, List.length_append, List.length_replicate]
    omega
  have value : Nat.ofDigitChars 10 digits 0 = fraction := by
    rw [padded, Nat.ofDigitChars_append, Nat.ofDigitChars_replicate_zero, Nat.mul_zero,
      ofDigitChars_decimal]
  have each : ∀ c ∈ digits, c.isDigit = true := by
    intro c listed
    rw [padded, List.mem_append] at listed
    rcases listed with zero | digit
    · rw [List.eq_of_mem_replicate zero]
      decide
    · exact decimal_digit fraction c digit
  obtain ⟨zeros, split⟩ := trimEnd_eq_append '0' digits
  generalize trimEnd '0' digits = kept at split ⊢
  have worth : Nat.ofDigitChars 10 kept 0 * 10 ^ zeros = fraction := by
    rw [split, Nat.ofDigitChars_append, Nat.ofDigitChars_replicate_zero] at value
    rw [Nat.mul_comm]
    exact value
  refine ⟨Nat.ofDigitChars 10 kept 0, zeros, ?_, worth.symm, ?_⟩
  · rw [split, List.length_append, List.length_replicate] at length
    exact length
  · unfold readDigits
    rw [if_pos]
    refine ⟨?_, List.all_eq_true.2 fun c listed =>
      each c (split ▸ List.mem_append_left _ listed)⟩
    rintro rfl
    rw [Nat.ofDigitChars_nil, Nat.zero_mul] at worth
    exact positive worth.symm

/-- Seconds are written exactly. -/
theorem readNumber_seconds (micros : Nat) :
    readNumber (seconds micros) = some ((micros : ℚ) / 10 ^ 6) := by
  have split := Nat.div_add_mod micros 1000000
  unfold seconds
  dsimp only
  by_cases whole : micros % 1000000 = 0
  · rw [if_pos whole, readNumber_decimal]
    rw [whole, Nat.add_zero] at split
    have cast : ((1000000 * (micros / 1000000) : Nat) : ℚ) = micros := congrArg _ split
    rw [← cast]
    push_cast
    congr 1
    field_simp
    norm_num
  · rw [if_neg whole]
    obtain ⟨kept, zeros, length, worth, digits⟩ := readDigits_fraction (micros % 1000000) whole
      (Nat.mod_lt _ (by decide)) _ rfl
    generalize trimEnd '0' (List.replicate (6 - (decimal (micros % 1000000)).length) '0' ++
      decimal (micros % 1000000)) = text at length digits ⊢
    have point : splitOnce '.' (decimal (micros / 1000000) ++ '.' :: text) =
        some (decimal (micros / 1000000), text) :=
      (splitOnce_eq_some ..).2 ⟨rfl, fun listed =>
        absurd (decimal_digit _ '.' listed) (by decide)⟩
    rw [readNumber, point]
    dsimp only
    rw [readDigits_decimal, digits, Option.bind_some, Option.map_some]
    congr 1
    rw [worth] at split
    have cast : ((1000000 * (micros / 1000000) + kept * 10 ^ zeros : Nat) : ℚ) = micros :=
      congrArg _ split
    have power : (10 : ℚ) ^ text.length * 10 ^ zeros = 1000000 := by
      rw [← pow_add, length]
      norm_num
    have million : (10 : ℚ) ^ 6 = 1000000 := by norm_num
    rw [← cast, million]
    push_cast
    rw [← power]
    field_simp

theorem readNumber_write (reading : CountReading) (n : Nat) :
    readNumber (reading.write n) = some (reading.value n) := by
  cases reading with
  | plain => exact readNumber_decimal n
  | seconds => exact readNumber_seconds n

theorem sampleReads_of (name : Str) (labels : List (Str × Str)) (written : Str) (value : ℚ)
    (named : isName true name = true) (proper : ∀ label ∈ labels, ProperLabel label)
    (once : (labels.map (·.1)).Nodup) (read : readNumber written = some value) :
    SampleReads ⟨name, labels, written⟩ ⟨name, labels, value⟩ :=
  ⟨rfl, rfl, read, named, proper, once⟩

theorem familyReads_of (name help : Str) (kind : Kind) (written : List (Sample Str))
    (samples : List (Sample ℚ)) (named : isName true name = true)
    (plain : '\n' ∉ help ∧ '\\' ∉ help) (reads : List.Forall₂ SampleReads written samples)
    (own : ∀ sample ∈ samples, belongs name kind sample = true) :
    FamilyReads ⟨name, help, kind, written⟩ ⟨name, help, kind, samples⟩ :=
  ⟨rfl, rfl, rfl, named, plain, reads, own⟩

theorem properLabel_of (key value : Str)
    (proper : isName false key = true ∧ startsWith "__".toList key = false) :
    ProperLabel (key, value) := proper

/-- A label is no bound of a bucket. -/
theorem unbounded_of (key value : Str) (other : key ≠ "le".toList) :
    ∀ label ∈ [(key, value)], label.1 ≠ "le".toList :=
  List.forall_mem_singleton.2 other

theorem single_read (name help : Str) (kind : Kind) (labels : List (Str × Str)) (written : Str)
    (value : ℚ) (named : isName true name = true) (plain : '\n' ∉ help ∧ '\\' ∉ help)
    (other : kind ≠ .histogram) (proper : ∀ label ∈ labels, ProperLabel label)
    (once : (labels.map (·.1)).Nodup) (unbounded : ∀ label ∈ labels, label.1 ≠ "le".toList)
    (read : readNumber written = some value) :
    FamilyReads ⟨name, help, kind, [⟨name, labels, written⟩]⟩
      ⟨name, help, kind, [⟨name, labels, value⟩]⟩ :=
  familyReads_of name help kind _ _ named plain
    (.cons (sampleReads_of name labels written value named proper once read) .nil)
    (List.forall_mem_singleton.2 (belongs_plain name kind labels value other unbounded))

section Groups
variable (methods : List MethodEntry)

theorem requests_read :
    FamilyReads (requestsGroup decimal methods)
      (requestsGroup (fun n : Nat => (n : ℚ)) methods) := by
  unfold requestsGroup
  refine familyReads_of _ _ _ _ _ (by decide) (by decide) ?_ ?_
  · refine forall₂_maps _ _ _ _ fun method _ => ?_
    unfold requestRow
    exact sampleReads_of _ _ _ _ (by decide)
      (List.forall_mem_singleton.2 (properLabel_of _ _ (by decide))) (List.nodup_singleton _)
      (readNumber_decimal _)
  · intro sample listed
    obtain ⟨method, -, rfl⟩ := List.mem_map.1 listed
    unfold requestRow
    exact belongs_plain _ _ _ _ (by decide) (unbounded_of _ _ (by decide))

theorem errors_read :
    FamilyReads (errorsGroup decimal methods) (errorsGroup (fun n : Nat => (n : ℚ)) methods) := by
  unfold errorsGroup
  refine familyReads_of _ _ _ _ _ (by decide) (by decide) ?_ ?_
  · refine forall₂_flatMaps _ _ _ _ fun method _ => forall₂_maps _ _ _ _ fun error _ => ?_
    unfold errorRow
    refine sampleReads_of _ _ _ _ (by decide) (List.forall_mem_cons.2
      ⟨properLabel_of _ _ (by decide), List.forall_mem_singleton.2 (properLabel_of _ _ (by decide))⟩)
      ?_ (readNumber_decimal _)
    exact List.nodup_cons.2 ⟨by simp, List.nodup_singleton _⟩
  · intro sample listed
    obtain ⟨method, -, own⟩ := List.mem_flatMap.1 listed
    obtain ⟨error, -, rfl⟩ := List.mem_map.1 own
    unfold errorRow
    refine belongs_plain _ _ _ _ (by decide) (List.forall_mem_cons.2 ⟨?_, ?_⟩)
    · exact (by decide : "method".toList ≠ "le".toList)
    · exact unbounded_of _ _ (by decide)

theorem latency_read :
    FamilyReads (latencyGroup decimal methods)
      (latencyGroup (fun n : Nat => (n : ℚ)) methods) := by
  unfold latencyGroup
  refine familyReads_of _ _ _ _ _ (by decide) (by decide) ?_ ?_
  · refine forall₂_flatMaps _ _ _ _ fun method _ => ?_
    unfold latencyRows
    refine List.rel_append (forall₂_maps _ _ _ _ fun i _ => ?_) (.cons ?_ .nil)
    · unfold bucketRow
      refine sampleReads_of _ _ _ _ (by decide) (List.forall_mem_cons.2
        ⟨properLabel_of _ _ (by decide),
          List.forall_mem_singleton.2 (properLabel_of _ _ (by decide))⟩) ?_ (readNumber_decimal _)
      exact List.nodup_cons.2 ⟨by simp, List.nodup_singleton _⟩
    · unfold countRow
      exact sampleReads_of _ _ _ _ (by decide)
        (List.forall_mem_singleton.2 (properLabel_of _ _ (by decide))) (List.nodup_singleton _)
        (readNumber_decimal _)
  · intro sample listed
    obtain ⟨method, -, own⟩ := List.mem_flatMap.1 listed
    rcases List.mem_append.1 own with bucket | count
    · obtain ⟨i, -, rfl⟩ := List.mem_map.1 bucket
      exact belongs_bucket _ _ _ ⟨_, List.mem_cons_of_mem _ (List.mem_singleton_self _), rfl⟩
    · rw [List.mem_singleton.1 count]
      exact belongs_count _ _ _

theorem refused_read (counts : Str → Str → Nat) :
    FamilyReads (refusedGroup decimal counts) (refusedGroup (fun n : Nat => (n : ℚ)) counts) := by
  unfold refusedGroup
  refine familyReads_of _ _ _ _ _ (by decide) (by decide) ?_ ?_
  · refine forall₂_maps _ _ _ _ fun refusal _ => ?_
    unfold refusedRow
    exact sampleReads_of _ _ _ _ (by decide)
      (List.forall_mem_singleton.2 (properLabel_of _ _ (by decide))) (List.nodup_singleton _)
      (readNumber_decimal _)
  · intro sample listed
    obtain ⟨refusal, -, rfl⟩ := List.mem_map.1 listed
    unfold refusedRow
    exact belongs_plain _ _ _ _ (by decide) (unbounded_of _ _ (by decide))

end Groups

def Scalar.proper (scalar : Scalar) : Bool :=
  isName true scalar.name && scalar.help.all (fun c => c ≠ '\n' && c ≠ '\\') &&
    scalar.kind ≠ .histogram

theorem proper_literals (name help : String) (kind : Kind) (part field : Str) (reading : CountReading)
    {letters words : Str} (named : name = String.ofList letters)
    (helped : help = String.ofList words)
    (proper : Scalar.proper ⟨letters, kind, words, part, field, reading⟩ = true) :
    Scalar.proper ⟨name.toList, kind, help.toList, part, field, reading⟩ = true := by
  rw [literal_list named, literal_list helped]
  exact proper

/-- Every scalar's name and help text are ones the format lets be written. -/
theorem scalars_proper : scalars.all Scalar.proper = true := by
  simp only [scalars, List.all_cons, List.all_nil, Bool.and_true, Bool.and_eq_true]
  and_intros
  all_goals exact proper_literals _ _ _ _ _ _ rfl rfl (by decide)

theorem groups_read (content : Content) :
    List.Forall₂ FamilyReads (content.groups decimal CountReading.write)
      (content.groups (fun n : Nat => (n : ℚ)) CountReading.value) := by
  have info : FamilyReads (infoGroup decimal content.version)
      (infoGroup (fun n : Nat => (n : ℚ)) content.version) := by
    unfold infoGroup
    exact single_read _ _ _ _ _ _ (by decide) (by decide) (by decide)
      (List.forall_mem_singleton.2 (properLabel_of _ _ (by decide))) (List.nodup_singleton _)
      (unbounded_of _ _ (by decide)) (readNumber_decimal 1)
  have uptime : FamilyReads (uptimeGroup decimal content.uptime)
      (uptimeGroup (fun n : Nat => (n : ℚ)) content.uptime) := by
    unfold uptimeGroup
    exact single_read _ _ _ _ _ _ (by decide) (by decide) (by decide) (by simp) List.nodup_nil
      (by simp) (readNumber_decimal _)
  have scalar (one : Scalar) (listed : one ∈ scalars) :
      FamilyReads (scalarGroup CountReading.write content.counts one)
        (scalarGroup CountReading.value content.counts one) := by
    have proper := List.all_eq_true.1 scalars_proper one listed
    rw [Scalar.proper, Bool.and_eq_true, Bool.and_eq_true, List.all_eq_true,
      decide_eq_true_eq] at proper
    obtain ⟨⟨named, plain⟩, kind⟩ := proper
    have absent (c : Char) (bad : (c ≠ '\n' && c ≠ '\\') = false) : c ∉ one.help := by
      intro inside
      rw [plain c inside] at bad
      cases bad
    unfold scalarGroup
    exact single_read _ _ _ _ _ _ named ⟨absent _ (by decide), absent _ (by decide)⟩ kind
      (by simp) List.nodup_nil (by simp) (readNumber_write _ _)
  unfold Content.groups
  exact List.rel_append (List.rel_append (.cons info (.cons uptime (.cons (requests_read _)
    (.cons (errors_read _) (.cons (latency_read _) .nil))))) (forall₂_maps _ _ _ _ scalar))
    (.cons (refused_read _) .nil)

theorem written_read (content : Content) :
    List.Forall₂ FamilyReads content.written content.counted := by
  refine forall₂_filter _ _ _ _ _ (groups_read content) fun one two reads => ?_
  unfold filled
  have length := reads.samples.length_eq
  rw [Bool.eq_iff_iff, Bool.not_eq_true', Bool.not_eq_true', ← not_iff_not, Bool.not_eq_false,
    Bool.not_eq_false, List.isEmpty_iff, List.isEmpty_iff, ← List.length_eq_zero_iff, length,
    List.length_eq_zero_iff]

/-! Every series occurs once. -/

def headings : List (Str × Kind) :=
  [("ddf_daemon_build_info".toList, .gauge), ("ddf_daemon_uptime_seconds".toList, .gauge),
    ("ddf_daemon_requests_total".toList, .counter),
    ("ddf_daemon_request_errors_total".toList, .counter), (duration, .histogram)] ++
  scalars.map (fun scalar => (scalar.name, scalar.kind)) ++
  [("ddf_daemon_connections_refused_total".toList, .counter)]

theorem headings_apart : (headings.flatMap fun heading => namesOf heading.1 heading.2).Nodup ∧
    (headings.map (·.1)).Nodup := by
  decide +kernel

theorem groups_headings (content : Content) :
    (content.groups (fun n : Nat => (n : ℚ)) CountReading.value).map
      (fun family => (family.name, family.kind)) = headings := by
  unfold Content.groups headings
  rw [List.map_append, List.map_append, List.map_map]
  rfl

theorem counted_names (content : Content) : (content.counted.map Family.name).Nodup ∧
    (content.counted.flatMap Family.names).Nodup := by
  have kept := List.filter_sublist (p := filled)
    (l := content.groups (fun n : Nat => (n : ℚ)) CountReading.value)
  have names := (kept.map fun family => (family.name, family.kind))
  rw [groups_headings] at names
  refine ⟨?_, ?_⟩
  · have once := headings_apart.2.sublist (names.map (·.1))
    rwa [List.map_map] at once
  · have once := headings_apart.1.sublist (names.flatMap fun heading => namesOf heading.1 heading.2)
    rwa [List.flatMap_map] at once

structure Distinct (methods : List MethodEntry) : Prop where
  names : (methods.map MethodEntry.name).Nodup
  errors : ∀ method ∈ methods, (method.errors.map (·.1)).Nodup

theorem holds_distinct (doc : Value) (keyed : doc.Keyed) (content : Content)
    (holds : Holds doc content) : Distinct content.methods := by
  obtain ⟨members, object, entries⟩ := holds.methods
  have object_keyed (value : Value) (keyed : value.Keyed) (members : List (Str × Value))
      (object : value.asObject = some members) :
      (members.map (·.1)).Nodup ∧ KeyedMembers members := by
    cases value <;> cases object
    exact keyed
  obtain ⟨methods, found, own⟩ := Option.bind_eq_some_iff.1 object
  obtain ⟨once, keyed'⟩ := object_keyed methods (keyed_get doc keyed _ _ found) members own
  refine ⟨?_, ?_⟩
  · have same : members.map (·.1) = content.methods.map MethodEntry.name :=
      map_of_forall₂ _ _ _ (fun _ _ entry => entry.name.symm) _ _ entries
    rwa [← same]
  · intro method listed
    obtain ⟨member, inside, entry⟩ := results_of_forall₂ _ _ _ entries method listed
    obtain ⟨errors, object', labels⟩ := entry.errors
    obtain ⟨errors', found', own'⟩ := Option.bind_eq_some_iff.1 object'
    have inner := keyed_member members keyed' member.1 member.2 inside
    obtain ⟨once', -⟩ := object_keyed errors' (keyed_get member.2 inner _ _ found') errors own'
    have same : errors.map (·.1) = method.errors.map (·.1) :=
      map_of_forall₂ _ _ _ (fun _ _ entry => entry.1) _ _ labels
    rwa [← same]

def Tagged (method : MethodEntry) (sample : Sample ℚ) : Prop :=
  ∀ name, ("method".toList, name) ∈ sample.labels ↔ name = method.name

theorem tagged_single (method : MethodEntry) (name : Str) (value : ℚ) :
    Tagged method ⟨name, [("method".toList, method.name)], value⟩ := by
  intro other
  rw [List.mem_singleton, Prod.mk.injEq]
  exact and_iff_right rfl

theorem tagged_pair (method : MethodEntry) (name key label : Str) (value : ℚ)
    (other : key ≠ "method".toList) :
    Tagged method ⟨name, [("method".toList, method.name), (key, label)], value⟩ := by
  intro one
  rw [List.mem_cons, List.mem_singleton, Prod.mk.injEq, Prod.mk.injEq]
  refine ⟨?_, fun same => .inl ⟨rfl, same⟩⟩
  rintro (⟨-, same⟩ | ⟨same, -⟩)
  · exact same
  · exact absurd same.symm other

theorem tagged_series (one two : MethodEntry) (first second : Sample ℚ) (tagged : Tagged one first)
    (tagged' : Tagged two second) (same : first.series = second.series) : one.name = two.name :=
  (tagged' one.name).1 (labels_of_series first second same _ ((tagged one.name).2 rfl))

theorem rows_once (methods : List MethodEntry) (names : (methods.map MethodEntry.name).Nodup)
    (rows : MethodEntry → List (Sample ℚ))
    (tagged : ∀ method ∈ methods, ∀ row ∈ rows method, Tagged method row)
    (once : ∀ method ∈ methods, ((rows method).map Sample.series).Nodup) :
    ((methods.flatMap rows).map Sample.series).Nodup := by
  rw [List.map_flatMap, List.nodup_flatMap]
  refine ⟨once, List.Pairwise.imp_of_mem ?_ (List.pairwise_map.1 names)⟩
  intro one two first second apart series listed listed'
  obtain ⟨a, here, rfl⟩ := List.mem_map.1 listed
  obtain ⟨b, there, same⟩ := List.mem_map.1 listed'
  exact apart (tagged_series one two a b (tagged one first a here) (tagged two second b there)
    same.symm)

theorem errors_once (method : MethodEntry) (labels : (method.errors.map (·.1)).Nodup) :
    ((method.errors.map (errorRow (fun n : Nat => (n : ℚ)) method)).map Sample.series).Nodup := by
  rw [List.map_map]
  refine List.Nodup.map_on ?_ labels.of_map
  intro one first two second same
  have listed := labels_of_series _ _ same ("error".toList, one.1)
    (List.mem_cons_of_mem _ (List.mem_singleton_self _))
  unfold errorRow at listed
  rw [List.mem_cons, List.mem_singleton, Prod.mk.injEq, Prod.mk.injEq] at listed
  rcases listed with ⟨key, -⟩ | ⟨-, label⟩
  · exact absurd key (by decide)
  · exact List.inj_on_of_nodup_map labels first second label

theorem bucketLabels_once : ((List.range latencyBuckets).map bucketLabel).Nodup := by
  decide +kernel

theorem latency_once (method : MethodEntry) (length : method.buckets.length = latencyBuckets) :
    ((latencyRows (fun n : Nat => (n : ℚ)) method).map Sample.series).Nodup := by
  unfold latencyRows
  rw [length, List.map_append, List.nodup_append]
  refine ⟨?_, List.nodup_singleton _, ?_⟩
  · rw [List.map_map]
    refine List.Nodup.map_on ?_ List.nodup_range
    intro i first j second same
    have listed := labels_of_series _ _ same ("le".toList, bucketLabel i)
      (List.mem_cons_of_mem _ (List.mem_singleton_self _))
    unfold bucketRow at listed
    rw [List.mem_cons, List.mem_singleton, Prod.mk.injEq, Prod.mk.injEq] at listed
    rcases listed with ⟨key, -⟩ | ⟨-, label⟩
    · exact absurd key (by decide)
    · exact List.inj_on_of_nodup_map bucketLabels_once first second label
  · intro one listed two last same
    obtain ⟨row, own, rfl⟩ := List.mem_map.1 listed
    obtain ⟨i, -, rfl⟩ := List.mem_map.1 own
    rw [List.map_singleton, List.mem_singleton] at last
    have name : duration ++ "_bucket".toList = duration ++ "_count".toList :=
      congrArg Prod.fst (same.trans last)
    exact absurd name (by decide)

section Series
variable (content : Content) (distinct : Distinct content.methods)
  (length : ∀ method ∈ content.methods, method.buckets.length = latencyBuckets)
include distinct length

theorem groups_once (family : Exposition.Family ℚ)
    (listed : family ∈ content.groups (fun n : Nat => (n : ℚ)) CountReading.value) :
    (family.samples.map Sample.series).Nodup := by
  unfold Content.groups at listed
  rcases List.mem_append.1 listed with listed | last
  · rcases List.mem_append.1 listed with first | scalar
    · simp only [List.mem_cons, List.not_mem_nil, or_false] at first
      rcases first with rfl | rfl | rfl | rfl | rfl
      · exact List.nodup_singleton _
      · exact List.nodup_singleton _
      · have rows := rows_once content.methods distinct.names
          (fun method => [requestRow (fun n : Nat => (n : ℚ)) method])
          (fun method _ => List.forall_mem_singleton.2 (tagged_single method _ _))
          (fun method _ => List.nodup_singleton _)
        rw [← List.map_eq_flatMap] at rows
        exact rows
      · refine rows_once content.methods distinct.names _ ?_ fun method listed =>
          errors_once method (distinct.errors method listed)
        intro method _ row own
        obtain ⟨error, -, rfl⟩ := List.mem_map.1 own
        exact tagged_pair method _ _ _ _ (by decide)
      · refine rows_once content.methods distinct.names _ ?_ fun method listed =>
          latency_once method (length method listed)
        intro method _ row own
        rcases List.mem_append.1 own with bucket | count
        · obtain ⟨i, -, rfl⟩ := List.mem_map.1 bucket
          exact tagged_pair method _ _ _ _ (by decide)
        · rw [List.mem_singleton.1 count]
          exact tagged_single method _ _
    · obtain ⟨one, -, rfl⟩ := List.mem_map.1 scalar
      exact List.nodup_singleton _
  · rw [List.mem_singleton.1 last]
    unfold refusedGroup refusals
    rw [List.map_cons, List.map_singleton, List.map_cons, List.map_singleton, List.nodup_cons]
    refine ⟨fun twice => ?_, List.nodup_singleton _⟩
    have listed := labels_of_series _ _ (List.mem_singleton.1 twice) _ (List.mem_singleton_self _)
    have reason := (Prod.mk.inj (List.mem_singleton.1 listed)).2
    exact absurd reason (by decide)

theorem counted_once : ((content.counted.flatMap Exposition.Family.samples).map
    Sample.series).Nodup := by
  refine series_once content.counted ?_ (counted_names content).2 ?_
  · intro family listed sample own
    obtain ⟨written, -, reads⟩ := results_of_forall₂ _ _ _ (written_read content) family listed
    refine belongs_names family sample ?_
    rw [reads.name, reads.kind]
    exact reads.own sample own
  · intro family listed
    exact groups_once content distinct length family (List.mem_filter.1 listed).1

end Series

/-! The buckets of a method. -/

def boundOf (i : Nat) : WithTop ℚ :=
  if i < latencyBuckets - 1 then (((2 ^ i : Nat) : ℚ) / 10 ^ 6 : ℚ) else ⊤

theorem readBound_label (i : Nat) : readBound (bucketLabel i) = some (boundOf i) := by
  unfold bucketLabel bucketBound boundOf
  split_ifs with below
  · have read := readNumber_seconds (2 ^ i)
    have apart : seconds (2 ^ i) ≠ "+Inf".toList := by
      intro same
      have sign := plain_number _ _ read '+' (by decide) (by decide)
      rw [same] at sign
      exact sign (by decide)
    rw [Option.elim_some, Nat.one_shiftLeft, readBound, if_neg apart, read]
    rfl
  · exact if_pos rfl

theorem boundOf_lt (i j : Nat) (less : i < j) (within : j < latencyBuckets) :
    boundOf i < boundOf j := by
  have below : i < latencyBuckets - 1 := by omega
  unfold boundOf
  rw [if_pos below]
  split_ifs with below'
  · have power : 2 ^ i < 2 ^ j := Nat.pow_lt_pow_right (by decide) less
    have cast : ((2 ^ i : Nat) : ℚ) < ((2 ^ j : Nat) : ℚ) := Nat.cast_lt.2 power
    exact WithTop.coe_lt_coe.2 (div_lt_div_of_pos_right cast (by norm_num))
  · exact WithTop.coe_lt_top _

theorem buckets_rise (method : MethodEntry) (length : method.buckets.length = latencyBuckets) :
    Rises ((List.range latencyBuckets).map (bucketRow (fun n : Nat => (n : ℚ)) method))
      (method.buckets.sum : ℚ) where
  bounds := by
    refine ⟨(List.range latencyBuckets).map boundOf, forall₂_maps _ _ _ _ fun i _ => ?_, ?_, rfl⟩
    · exact readBound_label i
    · rw [List.pairwise_map]
      refine List.Pairwise.imp_of_mem ?_ List.pairwise_lt_range
      intro i j _ within less
      exact boundOf_lt i j less (List.mem_range.1 within)
  counts := by
    rw [List.map_map, List.pairwise_map]
    refine List.pairwise_lt_range.imp ?_
    intro i j less
    have more : (method.buckets.take (i + 1)).sum ≤ (method.buckets.take (j + 1)).sum := by
      have front : (method.buckets.take (j + 1)).take (i + 1) = method.buckets.take (i + 1) := by
        rw [List.take_take, Nat.min_eq_left (by omega)]
      have split := List.take_append_drop (i + 1) (method.buckets.take (j + 1))
      rw [front] at split
      rw [← split, List.sum_append]
      exact Nat.le_add_right _ _
    exact Nat.cast_le.2 more
  last := by
    have whole : method.buckets.take (latencyBuckets - 1 + 1) = method.buckets :=
      List.take_of_length_le (Nat.le_of_eq length)
    have last : (List.range latencyBuckets).getLast? = some (latencyBuckets - 1) := rfl
    rw [List.map_map, List.getLast?_map, last, Option.map_some]
    change some (((method.buckets.take (latencyBuckets - 1 + 1)).sum : Nat) : ℚ) = _
    rw [whole]

/-- A metrics document as it is parsed: no object in it has two members of one name. -/
structure Document where
  value : Value
  keyed : value.Keyed

/-- The text of an accepted document reads back as exactly what the document counts, no series
occurs twice, and each method's buckets are running sums that rise, in bounds and in counts, to the
method's count. -/
theorem exposition_faithful (debugText : Str → Str) (doc : Document) (text : Str)
    (accepted : prometheusText debugText doc.value = .ok text) :
    ∃ content, Holds doc.value content ∧
      ((∀ method ∈ content.methods, method.buckets.sum < 2 ^ 64) →
        Exposition.read text = some content.counted ∧
        ((content.counted.flatMap Exposition.Family.samples).map Sample.series).Nodup ∧
        (∀ method ∈ content.methods,
          latencyGroup (fun n : Nat => (n : ℚ)) content.methods ∈ content.counted ∧
          latencyRows (fun n : Nat => (n : ℚ)) method =
            (List.range latencyBuckets).map (bucketRow (fun n : Nat => (n : ℚ)) method) ++
              [countRow (fun n : Nat => (n : ℚ)) method] ∧
          Rises ((List.range latencyBuckets).map (bucketRow (fun n : Nat => (n : ℚ)) method))
            (countRow (fun n : Nat => (n : ℚ)) method).value) ∧
        ∀ micros, readNumber (seconds micros) = some ((micros : ℚ) / 10 ^ 6)) := by
  obtain ⟨content, holds, written⟩ := prometheusText_written debugText doc.value text accepted
  have distinct := holds_distinct doc.value doc.keyed content holds
  have length : ∀ method ∈ content.methods, method.buckets.length = latencyBuckets := by
    intro method listed
    obtain ⟨members, -, entries⟩ := holds.methods
    obtain ⟨member, -, entry⟩ := results_of_forall₂ _ _ _ entries method listed
    obtain ⟨items, -, size, each⟩ := entry.buckets
    rw [← each.length_eq, size]
  refine ⟨content, holds, fun small => ⟨?_, counted_once content distinct length, ?_,
    readNumber_seconds⟩⟩
  · rw [written small]
    exact read_text content.written content.counted (written_read content) (counted_names content).1
  · intro method listed
    have rows : latencyRows (fun n : Nat => (n : ℚ)) method =
        (List.range latencyBuckets).map (bucketRow (fun n : Nat => (n : ℚ)) method) ++
          [countRow (fun n : Nat => (n : ℚ)) method] := by
      rw [latencyRows, length method listed]
    refine ⟨List.mem_filter.2 ⟨?_, ?_⟩, rows, buckets_rise method (length method listed)⟩
    · unfold Content.groups
      simp
    · have inside : countRow (fun n : Nat => (n : ℚ)) method ∈
          (latencyGroup (fun n : Nat => (n : ℚ)) content.methods).samples :=
        List.mem_flatMap.2 ⟨method, listed, by rw [rows]; simp⟩
      unfold filled
      rw [Bool.not_eq_true', List.isEmpty_eq_false_iff]
      exact List.ne_nil_of_mem inside

def sampleMethod : Value :=
  .object [("requests".toList, .integer 24),
    ("errors".toList, .object [("invalid_params".toList, .integer 1)]),
    ("latency_us".toList, .object [("buckets".toList, .array (List.replicate 24 (.integer 1)))])]

theorem sampleMethod_keyed : sampleMethod.Keyed := by
  have items : KeyedItems (List.replicate 24 (.integer 1)) := by
    simp only [List.replicate, KeyedItems, Value.Keyed, and_self]
  unfold sampleMethod
  simp only [Value.Keyed, KeyedMembers, true_and, and_true]
  exact ⟨by decide, by decide, by decide, items⟩

/-- A document of one method, named by a quote and a backslash, that answered once in every
bucket. -/
def sampleDocument : Document where
  value := .object
    [("schema".toList, .string "deep-diff-forge.daemon-metrics.v0".toList),
      ("version".toList, .string "0.1.0".toList),
      ("uptime_secs".toList, .integer 9),
      ("methods".toList, .object [(['"', '\\'], sampleMethod)]),
      ("admission".toList, .object
        [("admitted".toList, .integer 24), ("waited".toList, .integer 1),
          ("wait_us".toList, .integer 1500250), ("busy".toList, .integer 0),
          ("peak_in_flight_bytes".toList, .integer 7000), ("peak_running".toList, .integer 3)]),
      ("connections".toList, .object
        [("accepted".toList, .integer 5), ("errors".toList, .integer 0),
          ("refused_at_limit".toList, .integer 6), ("refused_peer".toList, .integer 8)]),
      ("engine".toList, .object
        [("panics".toList, .integer 0), ("session_resets".toList, .integer 0),
          ("sessions_opened".toList, .integer 4), ("sessions_closed".toList, .integer 3),
          ("sessions_evicted".toList, .integer 1), ("peak_retained_bytes".toList, .integer 4012)])]
  keyed := by
    simp only [Value.Keyed, KeyedMembers, true_and, and_true]
    exact ⟨by decide, ⟨by decide, sampleMethod_keyed⟩, by decide, by decide, by decide⟩

theorem sampleDocument_accepted :
    ∃ text, prometheusText id sampleDocument.value = .ok text := by
  have accepted : (prometheusText id sampleDocument.value).isOk = true := by decide
  cases computed : prometheusText id sampleDocument.value with
  | error reason =>
    rw [computed] at accepted
    cases accepted
  | ok text => exact ⟨text, rfl⟩

theorem sampleDocument_small (content : Content) (holds : Holds sampleDocument.value content) :
    ∀ method ∈ content.methods, method.buckets.sum < 2 ^ 64 := by
  intro method listed
  obtain ⟨members, object, entries⟩ := holds.methods
  cases object
  obtain ⟨member, own, entry⟩ := results_of_forall₂ _ _ _ entries method listed
  rw [List.mem_singleton.1 own] at entry
  obtain ⟨items, array, -, each⟩ := entry.buckets
  cases array
  have ones : ∀ n ∈ method.buckets, n = 1 := by
    intro n counted
    obtain ⟨item, repeated, read⟩ := results_of_forall₂ _ _ _ each n counted
    rw [(List.mem_replicate.1 repeated).2] at read
    exact (Option.some.inj read).symm
  have length : method.buckets.length = 24 := each.length_eq.symm
  rw [List.eq_replicate_iff.2 ⟨length, ones⟩]
  decide

theorem exposition_faithful_sample : ∃ text content,
    prometheusText id sampleDocument.value = .ok text ∧ Holds sampleDocument.value content ∧
      Exposition.read text = some content.counted ∧
      ((content.counted.flatMap Exposition.Family.samples).map Sample.series).Nodup := by
  obtain ⟨text, accepted⟩ := sampleDocument_accepted
  obtain ⟨content, holds, faithful⟩ := exposition_faithful id sampleDocument text accepted
  have small := sampleDocument_small content holds
  exact ⟨text, content, accepted, holds, (faithful small).1, (faithful small).2.1⟩

end DeepDiffForge.Daemon
