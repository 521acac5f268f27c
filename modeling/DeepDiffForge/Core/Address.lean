import DeepDiffForge.Core.Seal

/-! What a hunk's address is the digest of, and that it is written in one way only. -/

namespace DeepDiffForge.Core
open Text

def rangeText (start count : Nat) : Str := decimal start ++ ',' :: decimal count

def addressStart : Str := "ddf-hunk-v1\x00".toList

def PatchHunk.preimage (hunk : PatchHunk) (path : Str) : Str :=
  addressStart ++ (path ++ '\x00' :: (rangeText (hunk.oldStart.getD 0) hunk.counts.1 ++ '\x00' ::
    (rangeText (hunk.newStart.getD 0) hunk.counts.2 ++ '\x00' :: hunk.bodyBytes)))

theorem address_eq (hunk : PatchHunk) (path : Str) :
    hunk.address path = sha256Hex (Utf8.encode (hunk.preimage path)) := by
  unfold PatchHunk.address
  dsimp only
  apply congrArg
  apply congrArg
  unfold PatchHunk.preimage rangeText addressStart
  simp only [List.append_assoc, List.cons_append]

theorem decimal_injective (one two : Nat) (same : decimal one = decimal two) : one = two := by
  rw [← ofDigitChars_decimal one, same, ofDigitChars_decimal]

theorem decimal_without (n : Nat) (c : Char) (mark : c.isDigit = false) : c ∉ decimal n := by
  intro member
  rw [decimal_digit n c member] at mark
  cases mark

/-- Two pairs of numbers written with a comma between them. -/
theorem numbers_unique (a b a' b' : Nat)
    (same : rangeText a b = rangeText a' b') :
    a = a' ∧ b = b' := by
  obtain ⟨first, second⟩ := cut_unique ',' _ _ _ _ (decimal_without a ',' rfl)
    (decimal_without a' ',' rfl) same
  exact ⟨decimal_injective a a' first, decimal_injective b b' second⟩

def PatchLine.shown (line : PatchLine) : PatchLineKind × Str × Bool :=
  (line.kind, line.text, line.noNewline)

def eofLine : Str := "\\ No newline at end of file\n".toList

def PatchLine.bytes (line : PatchLine) : Str :=
  line.kind.marker :: line.text ++ ['\n'] ++ if line.noNewline then eofLine else []

theorem bodyBytes_eq (hunk : PatchHunk) : hunk.bodyBytes = hunk.lines.flatMap PatchLine.bytes := rfl

theorem marker_injective (one two : PatchLineKind) (same : one.marker = two.marker) :
    one = two := by
  cases one <;> cases two <;> first | rfl | exact absurd same (by decide)

theorem body_begins (lines : List PatchLine) (rest : Str) :
    lines.flatMap PatchLine.bytes ≠ eofLine ++ rest := by
  cases lines with
  | nil => exact List.cons_ne_nil _ _ ∘ Eq.symm
  | cons line lines =>
    intro same
    have first : line.kind.marker = '\\' := (List.cons.inj same).1
    cases kind : line.kind <;> rw [kind] at first <;> exact absurd first (by decide)

/-- A body of lines without line feeds reads back in one way. -/
theorem body_unique (one two : List PatchLine) (plainOne : ∀ line ∈ one, '\n' ∉ line.text)
    (plainTwo : ∀ line ∈ two, '\n' ∉ line.text)
    (same : one.flatMap PatchLine.bytes = two.flatMap PatchLine.bytes) :
    one.map PatchLine.shown = two.map PatchLine.shown := by
  induction one generalizing two with
  | nil =>
    cases two with
    | nil => rfl
    | cons line two => cases same
  | cons line one ih =>
    cases two with
    | nil => cases same
    | cons other two =>
      have parts (line : PatchLine) (rest : List PatchLine) :
          (line :: rest).flatMap PatchLine.bytes = line.kind.marker :: (line.text ++ '\n' ::
            ((if line.noNewline then eofLine else []) ++ rest.flatMap PatchLine.bytes)) := by
        rw [List.flatMap_cons, PatchLine.bytes]
        simp
      rw [parts, parts] at same
      obtain ⟨marker, rest⟩ := List.cons.inj same
      obtain ⟨text, after⟩ := cut_unique '\n' _ _ _ _ (plainOne line List.mem_cons_self)
        (plainTwo other List.mem_cons_self) rest
      have ended : line.noNewline = other.noNewline ∧
          one.flatMap PatchLine.bytes = two.flatMap PatchLine.bytes := by
        cases first : line.noNewline <;> cases second : other.noNewline <;>
          simp only [first, second, if_true, Bool.false_eq_true, if_false, List.nil_append] at after
        · exact ⟨rfl, after⟩
        · exact absurd after (body_begins one _)
        · exact absurd after.symm (body_begins two _)
        · exact ⟨rfl, List.append_cancel_left after⟩
      have later := ih two (fun line mem => plainOne line (.tail _ mem))
        (fun line mem => plainTwo line (.tail _ mem)) ended.2
      have own : line.shown = other.shown := by
        rw [PatchLine.shown, PatchLine.shown, marker_injective _ _ marker, text, ended.1]
      rw [List.map_cons, List.map_cons, own, later]

structure SameHunk (one two : PatchHunk) (pathOne pathTwo : Str) : Prop where
  path : pathOne = pathTwo
  starts : one.oldStart.getD 0 = two.oldStart.getD 0 ∧ one.newStart.getD 0 = two.newStart.getD 0
  counts : one.counts = two.counts
  body : one.lines.map PatchLine.shown = two.lines.map PatchLine.shown

theorem preimage_unique (one two : PatchHunk) (pathOne pathTwo : Str) (cleanOne : '\x00' ∉ pathOne)
    (cleanTwo : '\x00' ∉ pathTwo) (plainOne : ∀ line ∈ one.lines, '\n' ∉ line.text)
    (plainTwo : ∀ line ∈ two.lines, '\n' ∉ line.text)
    (same : one.preimage pathOne = two.preimage pathTwo) : SameHunk one two pathOne pathTwo := by
  have range (a b : Nat) : '\x00' ∉ rangeText a b := by
    rw [rangeText, List.mem_append, List.mem_cons]
    rintro (first | comma | second)
    · exact decimal_without a '\x00' rfl first
    · cases comma
    · exact decimal_without b '\x00' rfl second
  rw [PatchHunk.preimage, PatchHunk.preimage, bodyBytes_eq, bodyBytes_eq] at same
  obtain ⟨path, header⟩ := cut_unique '\x00' _ _ _ _ cleanOne cleanTwo
    (List.append_cancel_left same)
  obtain ⟨old, later⟩ := cut_unique '\x00' _ _ _ _ (range _ _) (range _ _) header
  obtain ⟨new, body⟩ := cut_unique '\x00' _ _ _ _ (range _ _) (range _ _) later
  obtain ⟨oldStart, oldCount⟩ := numbers_unique _ _ _ _ old
  obtain ⟨newStart, newCount⟩ := numbers_unique _ _ _ _ new
  exact ⟨path, ⟨oldStart, newStart⟩, Prod.ext oldCount newCount,
    body_unique _ _ plainOne plainTwo body⟩

end DeepDiffForge.Core
