import DeepDiffForge.Graph.Risk
import DeepDiffForge.Lib.Utf8
import Mathlib.Data.List.Sort

/-! The ranked review stream: descending score, then path. -/

namespace DeepDiffForge.Graph
open Text DeepDiffForge.Core

def maxEvidencePerFile : Nat := 32

structure RankedFile where
  path : Str
  status : FileStatus
  score : Nat
  signals : List RiskSignal
  evidence : List Evidence
  evidenceTruncated : Bool
  deriving DecidableEq, Repr

def RankedFile.scored (scan : Scan) (file : ReviewFile) : RankedFile :=
  let assessment := assessFile scan file
  { path := file.path, status := file.status, score := assessment.score,
    signals := assessment.signals, evidence := assessment.evidence.take maxEvidencePerFile,
    evidenceTruncated := maxEvidencePerFile < assessment.evidence.length }

def pathLe (one two : Str) : Bool := decide (Utf8.encode one ≤ Utf8.encode two)

/-- Descending score, then path: whether the first may stand before the second. -/
def rankLe (one two : Nat × Str) : Bool :=
  two.1 < one.1 || (one.1 = two.1 && pathLe one.2 two.2)

def RankedFile.key (ranked : RankedFile) : Nat × Str := (ranked.score, ranked.path)

/-- A stable sort, as `sort_by` is. -/
def sortRanked (ranked : List RankedFile) : List RankedFile :=
  ranked.mergeSort fun one two => rankLe one.key two.key

def rank (scan : Scan) (files : List ReviewFile) : List RankedFile :=
  sortRanked (files.map (RankedFile.scored scan))

theorem pathLe_total (one two : Str) : pathLe one two || pathLe two one := by
  simp only [pathLe, Bool.or_eq_true, decide_eq_true_eq]
  exact List.le_total _ _

theorem pathLe_trans (one two three : Str) (first : pathLe one two = true)
    (second : pathLe two three = true) : pathLe one three = true := by
  simp only [pathLe, decide_eq_true_eq] at first second ⊢
  exact List.le_trans first second

theorem rankLe_total (one two : Nat × Str) : rankLe one two || rankLe two one := by
  have paths := pathLe_total one.2 two.2
  simp only [rankLe, Bool.or_eq_true, Bool.and_eq_true, decide_eq_true_eq] at paths ⊢
  rcases lt_trichotomy one.1 two.1 with less | same | more
  · exact .inr (.inl less)
  · rcases paths with first | second
    · exact .inl (.inr ⟨same, first⟩)
    · exact .inr (.inr ⟨same.symm, second⟩)
  · exact .inl (.inl more)

theorem rankLe_trans (one two three : Nat × Str) (first : rankLe one two = true)
    (second : rankLe two three = true) : rankLe one three = true := by
  simp only [rankLe, Bool.or_eq_true, Bool.and_eq_true, decide_eq_true_eq] at first second ⊢
  rcases first with less | ⟨same, before⟩
  · rcases second with less' | ⟨same', -⟩
    · exact .inl (less'.trans less)
    · exact .inl (same' ▸ less)
  · rcases second with less' | ⟨same', before'⟩
    · exact .inl (same ▸ less')
    · exact .inr ⟨same.trans same', pathLe_trans _ _ _ before before'⟩

end DeepDiffForge.Graph
