import DeepDiffForge.Core.Hazards
import DeepDiffForge.Lib.Json
import DeepDiffForge.Lib.Utf8
import Mathlib.Data.Nat.Log

/-! Untrusted text made safe to show: escaped, cut to a bound, or with the unsafe characters
dropped. -/

namespace DeepDiffForge.Core
open Text

def isBidiOrInvisible (c : Char) : Bool := isBidi c || isInvisible c || isLineSeparator c

def isUnsafeInUntrustedText (c : Char) : Bool :=
  (isControl c && c ≠ '\n' && c ≠ '\t') || isBidiOrInvisible c

/-- A number in hex, with at least `width` digits. -/
def hexPadded (width n : Nat) : Str := Json.hexDigits (max width (Nat.log 16 n + 1)) n

def displayChar (c : Char) : Str :=
  if isTerminalUnsafe c then '\\' :: 'x' :: hexPadded 2 c.toNat
  else if isBidiOrInvisible c then
    '\\' :: 'u' :: '\x7b' :: (hexPadded 4 c.toNat ++ ['\x7d'])
  else [c]

def displaySafe (value : Str) : Str := value.flatMap displayChar

/-- The characters shown from the start within `maxBytes`, when `used` bytes are written, and the
bytes of the source they stand for. -/
def displayFrom (maxBytes : Nat) : Nat → Str → Str × Nat
  | _, [] => ([], 0)
  | used, c :: rest =>
      let rendered := displayChar c
      if maxBytes < used + byteLength rendered then ([], 0)
      else
        let (out, consumed) := displayFrom maxBytes (used + byteLength rendered) rest
        (rendered ++ out, c.utf8Size + consumed)

def omitted (bytes : Nat) : Str := "... [".toList ++ decimal bytes ++ " bytes omitted]".toList

def displaySafeBounded (value : Str) (maxBytes : Nat) : Str :=
  let (out, consumed) := displayFrom maxBytes 0 value
  if consumed < byteLength value then out ++ omitted (byteLength value - consumed) else out

theorem byteLength_append (first second : Str) :
    byteLength (first ++ second) = byteLength first + byteLength second := by
  simp only [byteLength, Utf8.encode, List.flatMap_append, List.length_append]

theorem byteLength_singleton (c : Char) : byteLength [c] = c.utf8Size := by
  simp [byteLength, Utf8.encode]

theorem byteLength_pos (text : Str) (nonempty : text ≠ []) : 0 < byteLength text := by
  cases text with
  | nil => exact absurd rfl nonempty
  | cons c rest =>
    have first := c.utf8Size_pos
    have whole := byteLength_append [c] rest
    rw [byteLength_singleton] at whole
    change byteLength (c :: rest) = _ at whole
    omega

theorem displaySafe_cons (c : Char) (rest : Str) :
    displaySafe (c :: rest) = displayChar c ++ displaySafe rest := List.flatMap_cons

theorem displayFrom_shown (maxBytes used : Nat) (value : Str) (within : used ≤ maxBytes) :
    ∃ shown rest, value = shown ++ rest ∧
      displayFrom maxBytes used value = (displaySafe shown, byteLength shown) ∧
      used + byteLength (displaySafe shown) ≤ maxBytes := by
  induction value generalizing used with
  | nil => exact ⟨[], [], rfl, rfl, within⟩
  | cons c value ih =>
    by_cases full : maxBytes < used + byteLength (displayChar c)
    · refine ⟨[], c :: value, rfl, ?_, within⟩
      rw [displayFrom, if_pos full]
      rfl
    · obtain ⟨shown, rest, same, read, bounded⟩ := ih (used + byteLength (displayChar c)) (by omega)
      refine ⟨c :: shown, rest, by rw [same]; rfl, ?_, ?_⟩
      · have bytes := byteLength_append [c] shown
        rw [byteLength_singleton] at bytes
        rw [displayFrom, if_neg full, read, displaySafe_cons]
        exact congrArg _ bytes.symm
      · rw [displaySafe_cons, byteLength_append]
        omega

/-- What is shown is the start of the text, rendered within the bound, and the bytes left out. -/
theorem displaySafeBounded_shown (value : Str) (maxBytes : Nat) :
    ∃ shown rest, value = shown ++ rest ∧ byteLength (displaySafe shown) ≤ maxBytes ∧
      displaySafeBounded value maxBytes =
        displaySafe shown ++ (if rest = [] then [] else omitted (byteLength rest)) := by
  obtain ⟨shown, rest, same, read, bounded⟩ := displayFrom_shown maxBytes 0 value (Nat.zero_le _)
  refine ⟨shown, rest, same, by omega, ?_⟩
  have bytes : byteLength value = byteLength shown + byteLength rest := by
    rw [same, byteLength_append]
  rw [displaySafeBounded, read]
  change (if byteLength shown < byteLength value then _ else _) = _
  by_cases absent : rest = []
  · have whole : ¬ byteLength shown < byteLength value := by
      rw [bytes, absent]
      exact Nat.lt_irrefl _
    rw [if_neg whole, if_pos absent, List.append_nil]
  · have more := byteLength_pos rest absent
    rw [if_pos (by omega), if_neg absent, bytes, Nat.add_sub_cancel_left]

/-- Neither a terminal control nor a character that hides or reorders text. -/
def shownSafely (c : Char) : Bool := !isTerminalUnsafe c && !isBidiOrInvisible c

theorem shownSafely_printable (c : Char) (ascii : Json.printable c = true) :
    shownSafely c = true := by
  simp only [Json.printable, Bool.and_eq_true, decide_eq_true_eq] at ascii
  have control : isControl c = false := by
    simp only [isControl, inRange, Bool.or_eq_false_iff, Bool.and_eq_false_iff,
      decide_eq_false_iff_not]
    omega
  have hidden : isBidiOrInvisible c = false := by
    simp only [isBidiOrInvisible, isBidi, isInvisible, isLineSeparator, inRange,
      Bool.or_eq_false_iff, Bool.and_eq_false_iff, decide_eq_false_iff_not]
    omega
  rw [shownSafely, isTerminalUnsafe, control, hidden]
  rfl

theorem shownSafely_displayChar (c : Char) : ∀ other ∈ displayChar c, shownSafely other = true := by
  intro other listed
  have hex (width : Nat) (digit : other ∈ hexPadded width c.toNat) : shownSafely other = true :=
    shownSafely_printable other (Json.printable_hexDigits _ _ other digit)
  rw [displayChar] at listed
  split at listed
  · rcases List.mem_cons.1 listed with rfl | listed
    · decide
    · rcases List.mem_cons.1 listed with rfl | listed
      · decide
      · exact hex 2 listed
  · split at listed
    · simp only [List.mem_cons, List.mem_append, List.not_mem_nil, or_false] at listed
      rcases listed with rfl | rfl | rfl | digit | rfl
      · decide
      · decide
      · decide
      · exact hex 4 digit
      · decide
    · rename_i plain hidden
      obtain rfl := List.mem_singleton.1 listed
      simp [shownSafely, plain, hidden]

theorem shownSafely_omitted (bytes : Nat) : ∀ c ∈ omitted bytes, shownSafely c = true := by
  intro c listed
  simp only [omitted, List.mem_append] at listed
  rcases listed with (first | digit) | last
  · exact List.all_eq_true.1 (by decide : "... [".toList.all shownSafely = true) c first
  · exact shownSafely_printable c (Json.printable_of_plain c (Json.plain_decimal bytes c digit))
  · exact List.all_eq_true.1 (by decide : " bytes omitted]".toList.all shownSafely = true) c last

theorem shownSafely_bounded (value : Str) (maxBytes : Nat) :
    ∀ c ∈ displaySafeBounded value maxBytes, shownSafely c = true := by
  obtain ⟨shown, rest, -, -, same⟩ := displaySafeBounded_shown value maxBytes
  rw [same]
  intro c listed
  rcases List.mem_append.1 listed with first | last
  · obtain ⟨source, -, rendered⟩ := List.mem_flatMap.1 first
    exact shownSafely_displayChar source c rendered
  · split at last
    · cases last
    · exact shownSafely_omitted _ c last

end DeepDiffForge.Core
