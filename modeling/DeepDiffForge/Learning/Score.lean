import DeepDiffForge.Core.Review
import DeepDiffForge.Learning.Receipt
import DeepDiffForge.Lib.Binary64
import DeepDiffForge.Lib.Choice
import Mathlib.Algebra.Order.Ring.Unbundled.Rat
import Mathlib.Data.List.Perm.Basic
import Mathlib.Data.Prod.Lex
import Mathlib.Data.Set.Finite.Lemmas

/-! The scores of the strategies, with rates as exact rationals and the mean time as the floating
point number it is stored as, and the strategy that becomes the learned default. -/

namespace DeepDiffForge.Learning
open Choice
open DeepDiffForge.Core (u64Max saturatingAdd64)

structure StrategyScore where
  strategy : Strategy
  samples : Nat
  acceptanceRate : Rat
  fallbackRate : Rat
  meanElapsedMs : Rat
  revisitRate : Rat
  helpfulRate : Rat
  cacheHitRate : Rat
  deriving DecidableEq

def StrategyScore.empty (strategy : Strategy) : StrategyScore where
  strategy
  samples := 0
  acceptanceRate := 0
  fallbackRate := 0
  meanElapsedMs := 0
  revisitRate := 0
  helpfulRate := 0
  cacheHitRate := 0

structure TrustPolicy where
  minSamples : Nat
  minAcceptanceRate : Rat
  minHelpfulRate : Rat
  maxFallbackRate : Rat
  maxRevisitRate : Rat
  maxMeanElapsedMs : Rat

def StrategyScore.earnsTrust (score : StrategyScore) (policy : TrustPolicy) : Bool :=
  max policy.minSamples 1 ≤ score.samples && policy.minAcceptanceRate ≤ score.acceptanceRate &&
    policy.minHelpfulRate ≤ score.helpfulRate && score.fallbackRate ≤ policy.maxFallbackRate &&
    score.revisitRate ≤ policy.maxRevisitRate && score.meanElapsedMs ≤ policy.maxMeanElapsedMs

def scoreOne (strategy : Strategy) (receipts : List StrategyReceipt) : StrategyScore :=
  let mine := receipts.filter (·.strategy = strategy)
  let samples := mine.length
  if samples = 0 then .empty strategy
  else
    let decided := mine.countP (·.outcome.isDecided)
    let accepted := mine.countP (·.outcome = .accepted)
    let fallbacks := mine.countP (·.usedFallback)
    let revisits := mine.countP (·.revisited)
    let helpful := mine.countP (·.isHelpful)
    let hits := mine.countP (·.cache.isHit)
    let totalMs := (mine.map (·.elapsedMs)).foldl saturatingAdd64 0
    { strategy
      samples
      acceptanceRate := if decided = 0 then 0 else (accepted : Rat) / decided
      fallbackRate := (fallbacks : Rat) / samples
      meanElapsedMs := Binary64.divide (Binary64.ofNat totalMs) (Binary64.ofNat samples)
      revisitRate := (revisits : Rat) / samples
      helpfulRate := (helpful : Rat) / samples
      cacheHitRate := (hits : Rat) / samples }

def scoreStrategies (receipts : List StrategyReceipt) : List StrategyScore :=
  Strategy.all.map fun strategy => scoreOne strategy receipts

def compareScores (one two : StrategyScore) : Ordering :=
  (compare one.helpfulRate two.helpfulRate).then (compare two.meanElapsedMs one.meanElapsedMs)

def bestTrusted (scores : List StrategyScore) (policy : TrustPolicy) : Option StrategyScore :=
  maxBy compareScores (scores.filter (·.earnsTrust policy))

/-! What a strategy's receipts say. -/

section Receipts
variable (receipts : List StrategyReceipt) (strategy : Strategy)

def ownReceipts : List StrategyReceipt := receipts.filter (·.strategy = strategy)

def share (holds : StrategyReceipt → Prop) [DecidablePred holds]
    (among : List StrategyReceipt) : Rat :=
  (among.countP fun receipt => decide (holds receipt) : Rat) / among.length

def acceptance : Rat :=
  share (·.outcome = .accepted) <| (ownReceipts receipts strategy).filter fun receipt =>
    receipt.outcome = .accepted ∨ receipt.outcome = .rejected

def helpfulness : Rat :=
  share (fun receipt => receipt.outcome = .accepted ∧ receipt.revisited = false)
    (ownReceipts receipts strategy)

def fallbacks : Rat := share (·.fallback ≠ none) (ownReceipts receipts strategy)

def revisits : Rat := share (·.revisited = true) (ownReceipts receipts strategy)

def totalTime : Nat := ((ownReceipts receipts strategy).map (·.elapsedMs)).sum

def meanTime : Rat := totalTime receipts strategy / (ownReceipts receipts strategy).length

/-- The mean time as a score can hold it: of a total of 64 bits, in floating point. -/
def storedTime : Rat :=
  Binary64.divide (Binary64.ofNat (min (totalTime receipts strategy) u64Max))
    (Binary64.ofNat (ownReceipts receipts strategy).length)

theorem foldl_saturatingAdd64 (times : List Nat) (total : Nat) (bounded : total ≤ u64Max) :
    times.foldl saturatingAdd64 total = min (total + times.sum) u64Max := by
  induction times generalizing total with
  | nil => exact (Nat.min_eq_left bounded).symm
  | cons time times ih =>
    rw [List.foldl_cons, saturatingAdd64, ih _ (Nat.min_le_right ..), List.sum_cons]
    omega

theorem acceptance_eq : acceptance receipts strategy =
    if (ownReceipts receipts strategy).countP (·.outcome.isDecided) = 0 then 0
    else ((ownReceipts receipts strategy).countP (·.outcome = .accepted) : Rat) /
      (ownReceipts receipts strategy).countP (·.outcome.isDecided) := by
  have decided (receipt : StrategyReceipt) :
      decide (receipt.outcome = .accepted ∨ receipt.outcome = .rejected) =
        receipt.outcome.isDecided := by
    cases receipt.outcome <;> rfl
  have accepted : (ownReceipts receipts strategy).countP (fun receipt =>
      decide (receipt.outcome = .accepted) && receipt.outcome.isDecided) =
        (ownReceipts receipts strategy).countP (·.outcome = .accepted) := by
    apply List.countP_congr
    intro receipt _
    cases receipt.outcome <;> simp [ReviewOutcome.isDecided]
  unfold acceptance share
  simp only [decided, List.countP_filter, accepted, ← List.countP_eq_length_filter]
  split_ifs with undecided
  · rw [undecided, Nat.cast_zero, div_zero]
  · rfl

theorem scoreOne_eq : scoreOne strategy receipts =
    { strategy
      samples := (ownReceipts receipts strategy).length
      acceptanceRate := acceptance receipts strategy
      fallbackRate := fallbacks receipts strategy
      meanElapsedMs := storedTime receipts strategy
      revisitRate := revisits receipts strategy
      helpfulRate := helpfulness receipts strategy
      cacheHitRate := share (·.cache.isHit = true) (ownReceipts receipts strategy) } := by
  have own : receipts.filter (·.strategy = strategy) = ownReceipts receipts strategy := rfl
  have fallen (receipt : StrategyReceipt) :
      decide (receipt.fallback ≠ none) = receipt.usedFallback := by
    unfold StrategyReceipt.usedFallback
    cases receipt.fallback <;> rfl
  have helped (receipt : StrategyReceipt) :
      decide (receipt.outcome = .accepted ∧ receipt.revisited = false) = receipt.isHelpful := by
    unfold StrategyReceipt.isHelpful
    cases receipt.revisited <;> simp
  have total := foldl_saturatingAdd64 ((ownReceipts receipts strategy).map (·.elapsedMs)) 0
    (Nat.zero_le _)
  rw [Nat.zero_add] at total
  unfold scoreOne
  simp only [own, total]
  by_cases absent : (ownReceipts receipts strategy).length = 0
  · rw [if_pos absent]
    have empty := List.length_eq_zero_iff.1 absent
    simp [StrategyScore.empty, acceptance, fallbacks, storedTime, revisits, helpfulness, share,
      totalTime, empty, Binary64.divide, Binary64.ofNat, Binary64.rounded]
  · rw [if_neg absent]
    simp only [acceptance_eq, fallbacks, revisits, helpfulness, share, fallen, helped, storedTime,
      totalTime, Bool.decide_eq_true]

end Receipts

theorem scoreOne_perm (strategy : Strategy) (receipts others : List StrategyReceipt)
    (same : receipts.Perm others) : scoreOne strategy receipts = scoreOne strategy others := by
  have mine := same.filter fun receipt => decide (receipt.strategy = strategy)
  have decided := mine.filter fun receipt =>
    decide (receipt.outcome = .accepted ∨ receipt.outcome = .rejected)
  have total := (mine.map (·.elapsedMs)).sum_eq
  rw [scoreOne_eq, scoreOne_eq]
  simp only [acceptance, fallbacks, storedTime, revisits, helpfulness, share, totalTime,
    ownReceipts, mine.length_eq, mine.countP_eq, decided.length_eq, decided.countP_eq, total]

theorem scoreStrategies_perm (receipts others : List StrategyReceipt)
    (same : receipts.Perm others) : scoreStrategies receipts = scoreStrategies others :=
  List.map_congr_left fun strategy _ => scoreOne_perm strategy receipts others same

/-! The documented default. -/

section Default
variable (receipts : List StrategyReceipt) (policy : TrustPolicy)

structure Meets (mean : Strategy → Rat) (strategy : Strategy) : Prop where
  observed : ∃ receipt ∈ receipts, receipt.strategy = strategy
  samples : policy.minSamples ≤ (ownReceipts receipts strategy).length
  acceptance : policy.minAcceptanceRate ≤ acceptance receipts strategy
  helpful : policy.minHelpfulRate ≤ helpfulness receipts strategy
  fallback : fallbacks receipts strategy ≤ policy.maxFallbackRate
  revisit : revisits receipts strategy ≤ policy.maxRevisitRate
  elapsed : mean strategy ≤ policy.maxMeanElapsedMs

/-- A trusted strategy of the greatest helpful rate and, among those, of the least mean time. -/
structure Best (mean : Strategy → Rat) (strategy : Strategy) : Prop where
  meets : Meets receipts policy mean strategy
  helpful : ∀ other, Meets receipts policy mean other →
    helpfulness receipts other ≤ helpfulness receipts strategy
  elapsed : ∀ other, Meets receipts policy mean other →
    helpfulness receipts other = helpfulness receipts strategy → mean strategy ≤ mean other

structure First (strategy : Strategy) : Prop where
  best : Best receipts policy (meanTime receipts) strategy
  first : ∀ other, Best receipts policy (meanTime receipts) other →
    Strategy.all.idxOf strategy ≤ Strategy.all.idxOf other

/-- The default as documented: none without a trusted strategy, otherwise the first of the best,
whatever the order of the receipts. -/
structure Documented : Prop where
  none_iff : bestTrusted (scoreStrategies receipts) policy = none ↔
    ∀ strategy, ¬Meets receipts policy (meanTime receipts) strategy
  first : ∀ score, bestTrusted (scoreStrategies receipts) policy = some score →
    score ∈ scoreStrategies receipts ∧ First receipts policy score.strategy
  order : ∀ others : List StrategyReceipt, others.Perm receipts →
    bestTrusted (scoreStrategies others) policy = bestTrusted (scoreStrategies receipts) policy

/-- Less helpful, or as helpful and slower by the stored means, or alike in both and listed
earlier. -/
def Outdone (other strategy : Strategy) : Prop :=
  helpfulness receipts other < helpfulness receipts strategy ∨
    helpfulness receipts other = helpfulness receipts strategy ∧
      (storedTime receipts strategy < storedTime receipts other ∨
        storedTime receipts strategy = storedTime receipts other ∧
          Strategy.all.idxOf other < Strategy.all.idxOf strategy)

/-- What the stored means must leave as it is: that nothing is trusted by them alone, and that the
first of the best is trusted by them too and outdoes every other strategy that is. -/
structure Settled : Prop where
  none : (∀ strategy, ¬Meets receipts policy (meanTime receipts) strategy) →
    ∀ strategy, ¬Meets receipts policy (storedTime receipts) strategy
  first : ∀ strategy, First receipts policy strategy →
    Meets receipts policy (storedTime receipts) strategy ∧
      ∀ other ≠ strategy, Meets receipts policy (storedTime receipts) other →
        Outdone receipts other strategy

theorem earnsTrust_iff (strategy : Strategy) :
    (scoreOne strategy receipts).earnsTrust policy = true ↔
      Meets receipts policy (storedTime receipts) strategy := by
  have positive : 0 < (ownReceipts receipts strategy).length ↔
      ∃ receipt ∈ receipts, receipt.strategy = strategy := by
    rw [ownReceipts, ← List.countP_eq_length_filter, List.countP_pos_iff]
    simp only [decide_eq_true_eq]
  simp only [scoreOne_eq, StrategyScore.earnsTrust, Bool.and_eq_true, decide_eq_true_eq, and_assoc,
    max_le_iff]
  constructor
  · rintro ⟨samples, one, acceptance, helpful, fallback, revisit, elapsed⟩
    exact ⟨positive.1 one, samples, acceptance, helpful, fallback, revisit, elapsed⟩
  · rintro ⟨observed, samples, acceptance, helpful, fallback, revisit, elapsed⟩
    exact ⟨samples, positive.2 observed, acceptance, helpful, fallback, revisit, elapsed⟩

def rank (mean : Strategy → Rat) (strategy : Strategy) : Rat ×ₗ Ratᵒᵈ :=
  toLex (helpfulness receipts strategy, OrderDual.toDual (mean strategy))

theorem rank_lt (mean : Strategy → Rat) (one two : Strategy) :
    rank receipts mean one < rank receipts mean two ↔
      helpfulness receipts one < helpfulness receipts two ∨
        helpfulness receipts one = helpfulness receipts two ∧ mean two < mean one :=
  Prod.Lex.toLex_lt_toLex

theorem rank_eq (mean : Strategy → Rat) (one two : Strategy)
    (same : rank receipts mean one = rank receipts mean two) :
    helpfulness receipts one = helpfulness receipts two ∧ mean one = mean two :=
  Prod.mk.inj same

def StrategyScore.rank (score : StrategyScore) : Rat ×ₗ Ratᵒᵈ :=
  toLex (score.helpfulRate, OrderDual.toDual score.meanElapsedMs)

theorem scoreOne_rank (strategy : Strategy) :
    (scoreOne strategy receipts).rank = rank receipts (storedTime receipts) strategy := by
  rw [scoreOne_eq]
  rfl

theorem scoreOne_strategy (strategy : Strategy) :
    (scoreOne strategy receipts).strategy = strategy := by
  rw [scoreOne_eq]

theorem compareScores_ranked (one two : StrategyScore) :
    compareScores one two = .gt ↔ two.rank < one.rank := by
  have less : two.rank < one.rank ↔ two.helpfulRate < one.helpfulRate ∨
      two.helpfulRate = one.helpfulRate ∧ one.meanElapsedMs < two.meanElapsedMs :=
    Prod.Lex.toLex_lt_toLex
  rw [less, compareScores, Ordering.then_eq_gt, compare_gt_iff_gt, compare_eq_iff_eq,
    compare_gt_iff_gt, eq_comm]

theorem best_iff (mean : Strategy → Rat) (strategy : Strategy) :
    Best receipts policy mean strategy ↔ Meets receipts policy mean strategy ∧
      ∀ other, Meets receipts policy mean other →
        rank receipts mean other ≤ rank receipts mean strategy := by
  constructor
  · intro best
    refine ⟨best.meets, fun other trusted => not_lt.1 fun greater => ?_⟩
    rcases (rank_lt ..).1 greater with greater | ⟨same, less⟩
    · exact absurd (best.helpful other trusted) (not_le.2 greater)
    · exact absurd (best.elapsed other trusted same.symm) (not_le.2 less)
  · rintro ⟨meets, top⟩
    refine ⟨meets, fun other trusted => not_lt.1 fun greater => ?_,
      fun other trusted same => not_lt.1 fun less => ?_⟩
    · exact absurd (top other trusted) (not_le.2 ((rank_lt ..).2 (.inl greater)))
    · exact absurd (top other trusted) (not_le.2 ((rank_lt ..).2 (.inr ⟨same.symm, less⟩)))

theorem exists_first (strategy : Strategy)
    (meets : Meets receipts policy (meanTime receipts) strategy) :
    ∃ first, First receipts policy first := by
  have finite (holds : Set Strategy) : holds.Finite :=
    Strategy.all.finite_toSet.subset fun strategy _ => Strategy.mem_all strategy
  obtain ⟨top, trusted, greatest⟩ :=
    Set.exists_max_image {strategy | Meets receipts policy (meanTime receipts) strategy}
      (rank receipts (meanTime receipts)) (finite _) ⟨strategy, meets⟩
  obtain ⟨first, best, earliest⟩ :=
    Set.exists_min_image {strategy | Best receipts policy (meanTime receipts) strategy}
      Strategy.all.idxOf (finite _) ⟨top, (best_iff ..).2 ⟨trusted, greatest⟩⟩
  exact ⟨first, best, earliest⟩

theorem mem_trusted (score : StrategyScore) :
    score ∈ (scoreStrategies receipts).filter (·.earnsTrust policy) ↔
      score = scoreOne score.strategy receipts ∧
        Meets receipts policy (storedTime receipts) score.strategy := by
  rw [List.mem_filter, scoreStrategies, List.mem_map]
  constructor
  · rintro ⟨⟨strategy, -, rfl⟩, trusted⟩
    rw [scoreOne_strategy]
    exact ⟨rfl, (earnsTrust_iff receipts policy strategy).1 trusted⟩
  · rintro ⟨same, meets⟩
    rw [same]
    exact ⟨⟨_, Strategy.mem_all _, rfl⟩, (earnsTrust_iff receipts policy _).2 meets⟩

theorem bestTrusted_none : bestTrusted (scoreStrategies receipts) policy = none ↔
    ∀ strategy, ¬Meets receipts policy (storedTime receipts) strategy := by
  rw [bestTrusted, maxBy_eq_none, List.eq_nil_iff_forall_not_mem]
  constructor
  · intro empty strategy meets
    refine empty (scoreOne strategy receipts) ((mem_trusted receipts policy _).2 ?_)
    rw [scoreOne_strategy]
    exact ⟨rfl, meets⟩
  · intro empty score listed
    exact empty _ ((mem_trusted receipts policy score).1 listed).2

theorem scoreStrategies_ordered : (scoreStrategies receipts).Pairwise fun one two =>
    Strategy.all.idxOf one.strategy < Strategy.all.idxOf two.strategy := by
  have all : Strategy.all.Pairwise fun one two =>
      Strategy.all.idxOf one < Strategy.all.idxOf two := by decide
  rw [scoreStrategies, List.pairwise_map]
  refine all.imp fun less => ?_
  rw [scoreOne_strategy, scoreOne_strategy]
  exact less

theorem idxOf_all_injective (one two : Strategy)
    (same : Strategy.all.idxOf one = Strategy.all.idxOf two) : one = two :=
  (List.idxOf_inj (Strategy.mem_all one)).1 same

theorem bestTrusted_last (score : StrategyScore)
    (chosen : bestTrusted (scoreStrategies receipts) policy = some score) :
    score ∈ scoreStrategies receipts ∧
      Meets receipts policy (storedTime receipts) score.strategy ∧
      ∀ other ≠ score.strategy, Meets receipts policy (storedTime receipts) other →
        Outdone receipts other score.strategy := by
  obtain ⟨front, back, whole, below, under⟩ :=
    maxBy_eq_some StrategyScore.rank compareScores compareScores_ranked _ score chosen
  have trusted : score ∈ (scoreStrategies receipts).filter (·.earnsTrust policy) := by
    rw [whole]
    exact List.mem_append_right _ List.mem_cons_self
  obtain ⟨own, meets⟩ := (mem_trusted receipts policy score).1 trusted
  have ranked : score.rank = rank receipts (storedTime receipts) score.strategy :=
    (congrArg StrategyScore.rank own).trans (scoreOne_rank receipts _)
  refine ⟨(List.mem_filter.1 trusted).1, meets, fun other differs listed => ?_⟩
  have place : scoreOne other receipts ∈ front ++ score :: back := by
    rw [← whole, mem_trusted, scoreOne_strategy]
    exact ⟨rfl, listed⟩
  have ordered := (scoreStrategies_ordered receipts).filter (·.earnsTrust policy)
  rw [whole, List.pairwise_append] at ordered
  have outdone (less : rank receipts (storedTime receipts) other <
      rank receipts (storedTime receipts) score.strategy) : Outdone receipts other score.strategy :=
    ((rank_lt ..).1 less).imp_right fun slower => ⟨slower.1, .inl slower.2⟩
  rcases List.mem_append.1 place with held | held
  · have before := ordered.2.2 _ held score List.mem_cons_self
    have most := below _ held
    rw [scoreOne_strategy] at before
    rw [scoreOne_rank, ranked] at most
    rcases most.lt_or_eq with less | same
    · exact outdone less
    · obtain ⟨helpful, time⟩ := rank_eq _ _ _ _ same
      exact .inr ⟨helpful, .inr ⟨time.symm, before⟩⟩
  · rcases List.mem_cons.1 held with same | held
    · rw [← same, scoreOne_strategy] at differs
      exact absurd rfl differs
    · have less := under _ held
      rw [scoreOne_rank, ranked] at less
      exact outdone less

theorem outdone_asymm (one two : Strategy) (first : Outdone receipts one two) :
    ¬Outdone receipts two one := by
  unfold Outdone at *
  rcases first with less | ⟨same, slower | ⟨alike, before⟩⟩
  · rintro (more | ⟨equal, -⟩)
    · exact absurd less (lt_asymm more)
    · exact absurd equal less.ne'
  · rintro (more | ⟨-, more | ⟨equal, -⟩⟩)
    · exact absurd same more.ne'
    · exact absurd slower (lt_asymm more)
    · exact absurd equal slower.ne'
  · rintro (more | ⟨-, more | ⟨-, after⟩⟩)
    · exact absurd same more.ne'
    · exact absurd alike more.ne'
    · omega

/-- The default is the documented one exactly when the stored means settle it alike. -/
theorem bestTrusted_documented : Documented receipts policy ↔ Settled receipts policy := by
  constructor
  · intro documented
    refine ⟨fun untrusted => ?_, fun strategy first => ?_⟩
    · exact (bestTrusted_none receipts policy).1 (documented.none_iff.2 untrusted)
    · cases chosen : bestTrusted (scoreStrategies receipts) policy with
      | none => exact absurd first.best.meets (documented.none_iff.1 chosen strategy)
      | some score =>
        obtain ⟨-, own⟩ := documented.first score chosen
        have same : strategy = score.strategy := idxOf_all_injective _ _
          (Nat.le_antisymm (first.first _ own.best) (own.first _ first.best))
        rw [same]
        exact (bestTrusted_last receipts policy score chosen).2
  · intro settled
    refine ⟨(bestTrusted_none receipts policy).trans ⟨?_, settled.none⟩, fun score chosen => ?_,
      fun others same => ?_⟩
    · intro untrusted strategy meets
      obtain ⟨first, own⟩ := exists_first receipts policy strategy meets
      exact untrusted first (settled.first first own).1
    · obtain ⟨listed, meets, outdone⟩ := bestTrusted_last receipts policy score chosen
      obtain ⟨strategy, trusted⟩ : ∃ strategy, Meets receipts policy (meanTime receipts) strategy :=
        by_contra fun untrusted => settled.none (not_exists.1 untrusted) _ meets
      obtain ⟨first, own⟩ := exists_first receipts policy strategy trusted
      obtain ⟨stored, others⟩ := settled.first first own
      have same : score.strategy = first := by_contra fun differs =>
        outdone_asymm receipts _ _ (others _ differs meets) (outdone first (Ne.symm differs) stored)
      exact ⟨listed, same ▸ own⟩
    · rw [scoreStrategies_perm others receipts same]

theorem settled_iff_unique (exact : ∀ strategy, storedTime receipts strategy =
    meanTime receipts strategy) : Settled receipts policy ↔
      ∀ one two, Best receipts policy (meanTime receipts) one →
        Best receipts policy (meanTime receipts) two → one = two := by
  have same : storedTime receipts = meanTime receipts := funext exact
  constructor
  · intro settled one two best also
    obtain ⟨first, own⟩ := exists_first receipts policy one best.meets
    have here (other : Strategy) (best : Best receipts policy (meanTime receipts) other) :
        other = first := by
      by_contra differs
      have meets := best.meets
      rw [← same] at meets
      rcases (settled.first first own).2 other differs meets with less | ⟨alike, slower | tied⟩
      · exact absurd (best.helpful first own.best.meets) (not_le.2 less)
      · rw [same] at slower
        exact absurd (best.elapsed first own.best.meets alike.symm) (not_le.2 slower)
      · exact absurd (own.first other best) (not_le.2 tied.2)
    rw [here one best, here two also]
  · intro unique
    refine ⟨by rw [same]; exact fun untrusted => untrusted, fun strategy first => ?_⟩
    rw [same]
    refine ⟨first.best.meets, fun other differs meets => ?_⟩
    obtain ⟨-, top⟩ := (best_iff receipts policy _ _).1 first.best
    rcases (top other meets).lt_or_eq with less | alike
    · rcases (rank_lt ..).1 less with less | ⟨helpful, slower⟩
      · exact .inl less
      · rw [← same] at slower
        exact .inr ⟨helpful, .inl slower⟩
    · have best : Best receipts policy (meanTime receipts) other :=
        (best_iff receipts policy _ _).2 ⟨meets, fun another trusted => by
          rw [alike]
          exact top another trusted⟩
      exact absurd (unique other strategy best first.best) differs

end Default

theorem storedTime_exact (receipts : List StrategyReceipt) (strategy : Strategy) (m k : Nat)
    (total : totalTime receipts strategy < 2 ^ 53)
    (count : (ownReceipts receipts strategy).length < 2 ^ 53) (bits : m < 2 ^ 53)
    (held : meanTime receipts strategy = m / 2 ^ k) :
    storedTime receipts strategy = meanTime receipts strategy := by
  have least : totalTime receipts strategy ≤ u64Max := by
    unfold u64Max
    omega
  have kept := Binary64.rounded_exact m (-k) bits
  rw [zpow_neg, zpow_natCast, ← div_eq_mul_inv, ← held] at kept
  rw [storedTime, Nat.min_eq_left least, Binary64.ofNat_exact _ total,
    Binary64.ofNat_exact _ count]
  exact kept

def acceptedReceipt (strategy : Strategy) : StrategyReceipt where
  fileHash := ⟨List.replicate 16 '0', by decide⟩
  language := "rust".toList
  parserVersion := "v".toList
  strategy
  fallback := none
  elapsedMs := 0
  bytes := 0
  nodes := 0
  cache := .cold
  outcome := .accepted
  revisited := false

def onePolicy : TrustPolicy := ⟨1, 0, 0, 1, 1, 0⟩

def tiedReceipts : List StrategyReceipt := [acceptedReceipt .patch, acceptedReceipt .syntaxTree]

/-- Two strategies tied in every rate: the later one is taken. -/
theorem bestTrusted_tied : ¬Documented tiedReceipts onePolicy := by
  intro documented
  have chosen : bestTrusted (scoreStrategies tiedReceipts) onePolicy =
      some (scoreOne .syntaxTree tiedReceipts) := by
    decide +kernel
  have instant (strategy : Strategy) : meanTime tiedReceipts strategy = 0 := by
    cases strategy <;> decide +kernel
  have best : Best tiedReceipts onePolicy (meanTime tiedReceipts) .patch := by
    refine ⟨⟨⟨_, List.mem_cons_self, rfl⟩, ?_, ?_, ?_, ?_, ?_, ?_⟩, fun other _ => ?_,
      fun other _ _ => ?_⟩
    case refine_8 => rw [instant, instant]
    case refine_7 => cases other <;> decide +kernel
    all_goals decide +kernel
  have own := (documented.first _ chosen).2
  rw [scoreOne_strategy] at own
  exact absurd (own.first .patch best) (by decide)

end DeepDiffForge.Learning
