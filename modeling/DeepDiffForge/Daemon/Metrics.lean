import DeepDiffForge.Daemon.Answers
import DeepDiffForge.Lib.Histogram
import Mathlib.Data.Nat.Size

/-! The request counters of a running daemon, and the latency quantiles read from their
histograms. -/

namespace DeepDiffForge.Daemon
open Text Histogram
open SessionTable (resourceExhausted)

/-- Bucket `i` holds requests of less than `2^i` microseconds, the last one the rest. -/
def latencyBuckets : Nat := 24

def protocolUnsupported : Int := 2

def patchParseFailed : Int := 4

def sessionNotFound : Int := 1

def inputContractRefused : Int := 7

def gitFailed : Int := 3

def errorCodes : List (Int × Str) :=
  [(parseError, "parse_error".toList), (invalidRequest, "invalid_request".toList),
    (methodNotFound, "method_not_found".toList), (invalidParams, "invalid_params".toList),
    (internalError, "internal_error".toList),
    (protocolUnsupported, "protocol_unsupported".toList),
    (patchParseFailed, "patch_parse_failed".toList), (sessionNotFound, "session_not_found".toList),
    (inputContractRefused, "input_contract_refused".toList),
    (resourceExhausted, "resource_exhausted".toList), (gitFailed, "git_failed".toList)]

def methodNames : List Str :=
  ["engine.initialize".toList, "engine.methods".toList, "daemon.health".toList,
    "daemon.status".toList, "daemon.shutdown".toList, "diff.plan".toList, "diff.compute".toList,
    "diff.rank".toList, "review.outline".toList, "review.hunks".toList, "review.change".toList,
    "session.open".toList, "session.snapshot".toList, "session.close".toList,
    "daemon.metrics".toList, "findings.verify".toList]

structure Duration where
  secs : Nat
  nanos : Nat
  valid : secs < 2 ^ 64 ∧ nanos < 10 ^ 9

def Duration.asNanos (took : Duration) : Nat := took.secs * 10 ^ 9 + took.nanos

def Duration.asMicros (took : Duration) : Nat := took.secs * 10 ^ 6 + took.nanos / 1000

def micros (took : Duration) : Nat := min took.asMicros (2 ^ 64 - 1)

def leadingZeros (us : Nat) : Nat := 64 - us.size

def bucketOf (us : Nat) : Nat := min (64 - leadingZeros us) (latencyBuckets - 1)

def bucketBound (i : Nat) : Option Nat := if i < latencyBuckets - 1 then some (1 <<< i) else none

def bump (n : Nat) : Nat := (n + 1) % 2 ^ 64

structure MethodCounters where
  requests : Nat
  errors : List Nat
  latency : List Nat
  deriving DecidableEq, Repr

def MethodCounters.default : MethodCounters :=
  ⟨0, List.replicate (errorCodes.length + 1) 0, List.replicate latencyBuckets 0⟩

structure Metrics where
  methods : List MethodCounters
  deriving DecidableEq, Repr

def Metrics.new : Metrics := ⟨List.replicate (methodNames.length + 1) .default⟩

/-- Where a method is counted; an unknown one in the last place. -/
def Metrics.slot (metrics : Metrics) (method : Option Nat) : Nat :=
  method.elim (metrics.methods.length - 1) (min · (metrics.methods.length - 1))

def Metrics.method (metrics : Metrics) (method : Option Nat) : MethodCounters :=
  metrics.methods.getD (metrics.slot method) .default

/-- A request answered: its method's position, how long it took, and its error code if it failed. -/
structure Answered where
  method : Option Nat
  took : Duration
  error : Option Int

def errorSlot (code : Int) : Nat :=
  (errorCodes.findIdx? fun entry => entry.1 = code).getD errorCodes.length

def MethodCounters.request (counters : MethodCounters) (answered : Answered) : MethodCounters where
  requests := bump counters.requests
  latency := counters.latency.modify (bucketOf (micros answered.took)) bump
  errors := match answered.error with
    | some code => counters.errors.modify (errorSlot code) bump
    | none => counters.errors

def Metrics.request (metrics : Metrics) (answered : Answered) : Metrics :=
  ⟨metrics.methods.modify (metrics.slot answered.method) (·.request answered)⟩

def divCeil (n d : Nat) : Nat := (n + (d - 1)) / d

def sumWrapping (histogram : List Nat) : Nat :=
  histogram.foldl (fun total n => (total + n) % 2 ^ 64) 0

def quantileScan (needed : Nat) : Nat → Nat → List Nat → Option Nat
  | _, _, [] => none
  | i, seen, n :: rest =>
      if needed ≤ (seen + n) % 2 ^ 64 then bucketBound i
      else quantileScan needed (i + 1) ((seen + n) % 2 ^ 64) rest

/-- The upper bound of the bucket with the request of a percentile. -/
def quantileBound (histogram : List Nat) (percent : Nat) : Option Nat :=
  let total := sumWrapping histogram
  if total = 0 then none
  else quantileScan (divCeil (total * percent % 2 ^ 64) 100) 0 0 histogram

/-! What the counters hold. -/

def firstSlot (method : Option Nat) : Nat := method.elim methodNames.length (min · methodNames.length)

def sharing (method : Option Nat) (answered : List Answered) : List Answered :=
  answered.filter fun one => firstSlot one.method = firstSlot method

def countersOf (mine : List Answered) : MethodCounters where
  requests := mine.length
  errors := tally errorSlot (errorCodes.length + 1) (mine.filterMap (·.error))
  latency := tally (fun one => bucketOf (micros one.took)) latencyBuckets mine

theorem countersOf_nil : countersOf [] = .default := by
  rw [countersOf, List.filterMap_nil, tally_nil, tally_nil]
  rfl

theorem countersOf_concat (mine : List Answered) (one : Answered) (few : mine.length + 1 < 2 ^ 64) :
    (countersOf mine).request one = countersOf (mine ++ [one]) := by
  have requests : bump mine.length = (mine ++ [one]).length := by
    rw [bump, Nat.mod_eq_of_lt few, List.length_append]
    rfl
  have latency := tally_concat (fun one => bucketOf (micros one.took)) (2 ^ 64) latencyBuckets
    mine one few
  unfold countersOf MethodCounters.request
  rw [requests]
  congr 1
  rw [List.filterMap_append]
  cases failed : one.error with
  | none => simp [failed]
  | some code =>
    have fewer := List.length_filterMap_le (·.error) mine
    have errors := tally_concat errorSlot (2 ^ 64) (errorCodes.length + 1)
      (mine.filterMap (·.error)) code (by omega)
    have last : [one].filterMap (·.error) = [code] := by simp [failed]
    rw [last]
    exact errors

def Metrics.of (answered : List Answered) : Metrics :=
  ⟨(List.range (methodNames.length + 1)).map fun slot =>
    countersOf (answered.filter fun one => firstSlot one.method = slot)⟩

theorem length_of (answered : List Answered) :
    (Metrics.of answered).methods.length = methodNames.length + 1 := by
  rw [Metrics.of, List.length_map, List.length_range]

theorem slot_of (answered : List Answered) (method : Option Nat) :
    (Metrics.of answered).slot method = firstSlot method := by
  rw [Metrics.slot, length_of, Nat.add_sub_cancel, firstSlot]

theorem new_of : Metrics.new = Metrics.of [] := by
  unfold Metrics.new Metrics.of
  simp only [List.filter_nil, countersOf_nil, List.map_const', List.length_range]

theorem request_of (answered : List Answered) (one : Answered)
    (few : answered.length + 1 < 2 ^ 64) :
    (Metrics.of answered).request one = Metrics.of (answered ++ [one]) := by
  rw [Metrics.request, slot_of, Metrics.of, Metrics.of, modify_range]
  congr 1
  refine List.map_congr_left fun slot _ => ?_
  rw [List.filter_append]
  by_cases here : slot = firstSlot one.method
  · have own : [one].filter (fun one => decide (firstSlot one.method = slot)) = [one] := by
      simp [here]
    have fewer := List.length_filter_le (fun one => decide (firstSlot one.method = slot)) answered
    rw [if_pos here, own, countersOf_concat _ _ (by omega)]
  · have other : [one].filter (fun one => decide (firstSlot one.method = slot)) = [] := by
      simp [Ne.symm here]
    rw [if_neg here, other, List.append_nil]

theorem requests_of (before after : List Answered)
    (few : (before ++ after).length < 2 ^ 64) :
    after.foldl Metrics.request (Metrics.of before) = Metrics.of (before ++ after) := by
  induction after generalizing before with
  | nil => rw [List.foldl_nil, List.append_nil]
  | cons one after ih =>
    rw [List.length_append, List.length_cons] at few
    rw [List.foldl_cons, request_of before one (by omega), ih]
    · rw [List.append_assoc, List.singleton_append]
    · rw [List.length_append, List.length_append, List.length_singleton]
      omega

theorem method_requests (answered : List Answered) (few : answered.length < 2 ^ 64)
    (method : Option Nat) :
    (answered.foldl Metrics.request Metrics.new).method method =
      countersOf (sharing method answered) := by
  rw [new_of, requests_of [] answered few, List.nil_append, Metrics.method, slot_of, Metrics.of,
    List.getD_eq_getElem?_getD, List.getElem?_map, List.getElem?_range, sharing]
  · rfl
  · unfold firstSlot
    cases method with
    | none => exact Nat.lt_succ_self _
    | some i => exact Nat.lt_succ_of_le (Nat.min_le_right ..)

theorem errorSlot_lt (code : Int) : errorSlot code < errorCodes.length + 1 := by
  unfold errorSlot
  cases found : errorCodes.findIdx? fun entry => entry.1 = code with
  | none => exact Nat.lt_succ_self _
  | some i =>
    have inside := (List.findIdx?_eq_some_iff_getElem.1 found).1
    exact Nat.lt_succ_of_lt inside

theorem bucketOf_lt (us : Nat) : bucketOf us < latencyBuckets :=
  Nat.lt_of_le_of_lt (Nat.min_le_right ..) (by decide)

/-! The buckets and their bounds. -/

def Duration.below (took : Duration) (us : Nat) : Prop := took.asNanos < us * 1000

instance (took : Duration) (us : Nat) : Decidable (took.below us) :=
  inferInstanceAs (Decidable (took.asNanos < us * 1000))

theorem bucketBound_eq_some (i b : Nat) :
    bucketBound i = some b ↔ i < latencyBuckets - 1 ∧ b = 2 ^ i := by
  rw [bucketBound, Nat.one_shiftLeft]
  split_ifs with inside
  · rw [Option.some.injEq]
    exact ⟨fun same => ⟨inside, same.symm⟩, fun held => held.2.symm⟩
  · simp [inside]

theorem bucketOf_below (took : Duration) (i : Nat) (bounded : i < latencyBuckets - 1) :
    bucketOf (micros took) < i + 1 ↔ took.below (2 ^ i) := by
  have small : i < 23 := bounded
  have bits : bucketOf (micros took) < i + 1 ↔ (micros took).size ≤ i := by
    unfold bucketOf leadingZeros latencyBuckets
    omega
  have power : 2 ^ i ≤ 2 ^ 22 := Nat.pow_le_pow_right (by decide) (by omega)
  rw [bits, Nat.size_le, Duration.below, Duration.asNanos, micros, Duration.asMicros]
  generalize 2 ^ i = bound at power ⊢
  omega

/-! The quantiles. -/

section Quantile
variable (mine : List Answered) (percent : Nat)

/-- At least `percent` % of the requests took less than `us` microseconds. -/
def Covers (us : Nat) : Prop :=
  percent * mine.length ≤ 100 * mine.countP fun one => one.took.below us

/-- A quantile is the least bucket bound below which enough requests fall. -/
structure QuantileExact (histogram : List Nat) : Prop where
  least : ∀ b, quantileBound histogram percent = some b → Covers mine percent b ∧
    (∃ i, bucketBound i = some b) ∧
      ∀ i c, bucketBound i = some c → Covers mine percent c → b ≤ c
  none_iff : quantileBound histogram percent = none ↔
    mine = [] ∨ ∀ i b, bucketBound i = some b → ¬Covers mine percent b

theorem sumWrapping_eq (histogram : List Nat) (few : histogram.sum < 2 ^ 64) :
    sumWrapping histogram = histogram.sum := by
  have run (total : Nat) (histogram : List Nat) (few : total + histogram.sum < 2 ^ 64) :
      histogram.foldl (fun total n => (total + n) % 2 ^ 64) total = total + histogram.sum := by
    induction histogram generalizing total with
    | nil => rfl
    | cons n rest ih =>
      rw [List.sum_cons] at few
      rw [List.foldl_cons, Nat.mod_eq_of_lt (by omega), ih _ (by omega), List.sum_cons,
        Nat.add_assoc]
  rw [sumWrapping, run 0 histogram (by omega), Nat.zero_add]

theorem quantileScan_eq (needed i seen : Nat) (histogram : List Nat)
    (few : seen + histogram.sum < 2 ^ 64) : quantileScan needed i seen histogram =
      (firstReaching needed seen histogram).bind fun k => bucketBound (i + k) := by
  induction histogram generalizing i seen with
  | nil => rfl
  | cons n rest ih =>
    rw [List.sum_cons] at few
    rw [quantileScan, firstReaching, Nat.mod_eq_of_lt (by omega)]
    split_ifs with reached
    · rfl
    · rw [ih _ _ (by omega), Option.bind_map]
      congr 1
      funext k
      rw [Function.comp_apply, Nat.add_right_comm, Nat.add_assoc]

theorem divCeil_le (n c : Nat) : divCeil n 100 ≤ c ↔ n ≤ 100 * c := by
  unfold divCeil
  omega

/-- Enough requests fall below a bucket's bound exactly when its running count is enough. -/
theorem covers_iff (i : Nat) (bounded : i < latencyBuckets - 1) :
    Covers mine percent (2 ^ i) ↔ divCeil (mine.length * percent) 100 ≤
      ((countersOf mine).latency.take (i + 1)).sum := by
  have within : i + 1 ≤ latencyBuckets := by
    have wide : latencyBuckets = 24 := rfl
    omega
  rw [countersOf, sum_take_tally _ _ _ within, divCeil_le, Covers, Nat.mul_comm percent]
  have same : (mine.countP fun one => decide (bucketOf (micros one.took) < i + 1)) =
      mine.countP fun one => decide (one.took.below (2 ^ i)) := by
    refine List.countP_congr fun one _ => ?_
    rw [decide_eq_true_eq, decide_eq_true_eq]
    exact bucketOf_below one.took i bounded
  rw [same]

theorem quantile_of (few : mine.length * 100 < 2 ^ 64) (most : percent ≤ 100) :
    QuantileExact mine percent (countersOf mine).latency := by
  have whole : (countersOf mine).latency.sum = mine.length :=
    sum_tally _ _ mine fun one _ => bucketOf_lt (micros one.took)
  have product : mine.length * percent ≤ mine.length * 100 := Nat.mul_le_mul_left _ most
  have total : sumWrapping (countersOf mine).latency = mine.length := by
    rw [sumWrapping_eq _ (by omega), whole]
  have eval : quantileBound (countersOf mine).latency percent = if mine.length = 0 then none
      else (firstReaching (divCeil (mine.length * percent) 100) 0
        (countersOf mine).latency).bind bucketBound := by
    unfold quantileBound
    dsimp only
    rw [total, Nat.mod_eq_of_lt (by omega), quantileScan_eq _ _ _ _ (by omega)]
    simp only [Nat.zero_add]
  have long : (countersOf mine).latency.length = latencyBuckets := length_tally ..
  -- the scan stops where the counts first cover the percentile
  have stops (nonempty : mine.length ≠ 0) : ∃ k, firstReaching
      (divCeil (mine.length * percent) 100) 0 (countersOf mine).latency = some k := by
    refine firstReaching_isSome _ _ ?_ ?_
    · rw [divCeil_le, whole]
      omega
    · intro empty
      rw [empty] at long
      cases long
  have found (k : Nat) (place : firstReaching (divCeil (mine.length * percent) 100) 0
      (countersOf mine).latency = some k) : k < latencyBuckets ∧
        divCeil (mine.length * percent) 100 ≤ ((countersOf mine).latency.take (k + 1)).sum ∧
          ∀ j < k, ((countersOf mine).latency.take (j + 1)).sum <
            divCeil (mine.length * percent) 100 := by
    have spec := (firstReaching_eq_some _ _ _ k).1 place
    simp only [Nat.zero_add, long] at spec
    exact spec
  constructor
  · intro b bound
    rw [eval] at bound
    split_ifs at bound with nonempty
    obtain ⟨k, place, bucket⟩ := Option.bind_eq_some_iff.1 bound
    obtain ⟨-, enough, before⟩ := found k place
    obtain ⟨bounded, rfl⟩ := (bucketBound_eq_some k b).1 bucket
    refine ⟨(covers_iff mine percent k bounded).2 enough, ⟨k, bucket⟩, fun i c other covers => ?_⟩
    obtain ⟨bounded', rfl⟩ := (bucketBound_eq_some i c).1 other
    refine Nat.pow_le_pow_right (by decide) (Nat.le_of_not_lt fun less => ?_)
    exact absurd ((covers_iff mine percent i bounded').1 covers) (Nat.not_le.2 (before i less))
  · rw [eval]
    by_cases unasked : mine.length = 0
    · rw [if_pos unasked]
      exact iff_of_true rfl (.inl (List.length_eq_zero_iff.1 unasked))
    · rw [if_neg unasked]
      obtain ⟨k, place⟩ := stops unasked
      obtain ⟨inside, enough, before⟩ := found k place
      rw [place, Option.bind_some]
      constructor
      · intro unbounded
        refine .inr fun i b bucket covers => ?_
        obtain ⟨bounded, rfl⟩ := (bucketBound_eq_some i b).1 bucket
        have early := (covers_iff mine percent i bounded).1 covers
        have late : ¬k < latencyBuckets - 1 := by
          intro bounded
          rw [(bucketBound_eq_some k _).2 ⟨bounded, rfl⟩] at unbounded
          cases unbounded
        exact absurd early (Nat.not_le.2 (before i (by omega)))
      · rintro (empty | opened)
        · exact absurd (congrArg List.length empty) unasked
        · rw [bucketBound]
          split_ifs with bounded
          · exact absurd ((covers_iff mine percent k bounded).2 enough)
              (opened k _ ((bucketBound_eq_some k _).2 ⟨bounded, rfl⟩))
          · rfl

end Quantile

/-- A method's counters add up, and its quantiles are exact, after any requests. -/
theorem quantile_exact (answered : List Answered) (few : answered.length * 100 < 2 ^ 64)
    (method : Option Nat) :
    let counters := (answered.foldl Metrics.request Metrics.new).method method
    counters.requests = counters.latency.sum ∧ counters.errors.sum ≤ counters.requests ∧
      ∀ percent ≤ 100, QuantileExact (sharing method answered) percent counters.latency := by
  intro counters
  have same : counters = countersOf (sharing method answered) :=
    method_requests answered (by omega) method
  have fewer : (sharing method answered).length ≤ answered.length := List.length_filter_le ..
  rw [same]
  refine ⟨?_, ?_, fun percent most => ?_⟩
  · exact (sum_tally _ _ _ fun one _ => bucketOf_lt (micros one.took)).symm
  · rw [countersOf, sum_tally _ _ _ fun code _ => errorSlot_lt code]
    exact List.length_filterMap_le ..
  · exact quantile_of _ percent (by omega) most

/-- Three requests of one method and one that failed. -/
def sampleAnswers : List Answered :=
  [⟨some 2, ⟨0, 900, by decide⟩, none⟩, ⟨some 2, ⟨0, 3000, by decide⟩, none⟩,
    ⟨some 2, ⟨9, 0, by decide⟩, some parseError⟩]

theorem quantile_exact_sample :
    let counters := (sampleAnswers.foldl Metrics.request Metrics.new).method (some 2)
    counters.requests = counters.latency.sum ∧ counters.errors.sum ≤ counters.requests ∧
      ∀ percent ≤ 100, QuantileExact (sharing (some 2) sampleAnswers) percent counters.latency :=
  quantile_exact sampleAnswers (by decide) (some 2)

end DeepDiffForge.Daemon
