import DeepDiffForge.Patch.Grammar

/-! The text that input lines are the lines of. -/

namespace DeepDiffForge.Patch
open Text DeepDiffForge.Core

def InputLine.written (line : InputLine) : Str :=
  line.text ++ if line.terminated then ['\n'] else []

def written (lines : List InputLine) : Str := lines.flatMap InputLine.written

inductive TextLines : List InputLine → Prop where
  | nil : TextLines []
  | last (text : Str) (plain : '\n' ∉ text) (nonempty : text ≠ []) :
      TextLines [{ text, terminated := false }]
  | line {rest : List InputLine} (text : Str) (plain : '\n' ∉ text) (more : TextLines rest) :
      TextLines (writtenLine text :: rest)

theorem textLines_line (line rest : Str) (plain : '\n' ∉ line) :
    textLines (line ++ '\n' :: rest) = writtenLine line :: textLines rest := by
  have ends : unterminated (line ++ ['\n']) = false := by simp [unterminated]
  have whole : line ++ '\n' :: rest = (line ++ ['\n']) ++ rest := by simp
  rw [whole, textLines_append _ _ ends, textLines_terminated _ ends, splitLines_line line [] plain]
  rfl

theorem textLines_last (line : Str) (plain : '\n' ∉ line) (nonempty : line ≠ []) :
    textLines line = [{ text := line, terminated := false }] := by
  have unended : unterminated line = true := by
    have absent : line.getLast? ≠ some '\n' := fun last =>
      plain (List.mem_of_getLast? last)
    simp [unterminated, nonempty, absent]
  simp [textLines, documentLines, splitLines_last line plain nonempty, unended, inputLines]

theorem textLines_written (lines : List InputLine) (read : TextLines lines) :
    textLines (written lines) = lines := by
  induction read with
  | nil => rfl
  | last text plain nonempty =>
    simpa [written, InputLine.written] using textLines_last text plain nonempty
  | @line rest text plain more ih =>
    have whole : written (writtenLine text :: rest) = text ++ '\n' :: written rest := by
      simp [written, InputLine.written, writtenLine]
    rw [whole, textLines_line _ _ plain, ih]

theorem written_textLines (text : Str) :
    written (textLines text) = text ∧ TextLines (textLines text) := by
  induction size : text.length using Nat.strong_induction_on generalizing text with
  | _ size ih =>
    subst size
    cases found : splitOnce '\n' text with
    | none =>
      have plain := (splitOnce_eq_none '\n' text).1 found
      by_cases empty : text = []
      · subst empty
        exact ⟨rfl, .nil⟩
      · rw [textLines_last text plain empty]
        exact ⟨by simp [written, InputLine.written], .last text plain empty⟩
    | some parts =>
      obtain ⟨line, rest⟩ := parts
      obtain ⟨rfl, plain⟩ := (splitOnce_eq_some '\n' text line rest).1 found
      obtain ⟨same, read⟩ := ih rest.length (by simp; omega) rest rfl
      rw [textLines_line line rest plain]
      refine ⟨?_, .line line plain read⟩
      simpa [written, InputLine.written, writtenLine] using same

theorem written_append (first second : List InputLine) :
    written (first ++ second) = written first ++ written second := List.flatMap_append

theorem textLines_parts (first second : List InputLine) (read : TextLines (first ++ second)) :
    TextLines first ∧ TextLines second := by
  induction first with
  | nil => exact ⟨.nil, read⟩
  | cons line first ih =>
    rw [List.cons_append] at read
    generalize rest : first ++ second = more at read
    cases read with
    | last text plain nonempty =>
      obtain ⟨rfl, rfl⟩ := List.append_eq_nil_iff.1 rest
      exact ⟨.last text plain nonempty, .nil⟩
    | line text plain more =>
      subst rest
      obtain ⟨one, other⟩ := ih more
      exact ⟨.line text plain one, other⟩

theorem textLines_exact (lines : List InputLine) (read : TextLines lines) :
    ∀ line ∈ lines, line.lossy = false := by
  induction read with
  | nil => simp
  | last text plain nonempty => simp
  | line text plain more ih => simpa [writtenLine] using ih

end DeepDiffForge.Patch
