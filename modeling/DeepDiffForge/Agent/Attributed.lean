import DeepDiffForge.Agent.Verdicts

/-! What an accepted finding shows of its entry is sanitised. It is attributed when what is kept
of the agent's name is not blank: the check for a blank name reads the name before it is
sanitised. -/

namespace DeepDiffForge.Agent
open Text DeepDiffForge.Core Fallible

/-- A text that starts with no space still starts with none once its end is cut. -/
theorem dropWhile_trimmed (text : Str) (starts : ∀ c ∈ text.head?, isWhitespace c = false) :
    (text.rdropWhile isWhitespace).dropWhile isWhitespace = text.rdropWhile isWhitespace := by
  cases kept : text.rdropWhile isWhitespace with
  | nil => rfl
  | cons c rest =>
    obtain ⟨tail, whole⟩ := List.rdropWhile_prefix isWhitespace text
    rw [kept] at whole
    have head := starts c (by rw [← whole]; rfl)
    exact List.dropWhile_cons_of_neg (by simp [head])

theorem dropWhile_starts (text : Str) :
    ∀ c ∈ (text.dropWhile isWhitespace).head?, isWhitespace c = false := by
  intro c head
  have stopped := List.head?_dropWhile_not isWhitespace text
  rw [Option.mem_def.1 head] at stopped
  exact stopped

theorem trim_trim (text : Str) : trim (trim text) = trim text := by
  rw [trim, trim, dropWhile_trimmed _ (dropWhile_starts text), List.rdropWhile_idempotent]

theorem trim_ne_nil (text : Str) : trim text ≠ [] ↔ ∃ c ∈ text, isWhitespace c = false := by
  constructor
  · intro filled
    obtain ⟨c, rest, whole⟩ := List.exists_cons_of_ne_nil filled
    have headed := List.rdropWhile_prefix isWhitespace (text.dropWhile isWhitespace)
    rw [← trim, whole] at headed
    obtain ⟨tail, cut⟩ := headed
    refine ⟨c, ?_, dropWhile_starts text c (by rw [← cut]; rfl)⟩
    exact (List.dropWhile_sublist isWhitespace).subset (by rw [← cut]; exact List.mem_cons_self)
  · rintro ⟨c, listed, visible⟩ blank
    rw [trim, List.rdropWhile_eq_nil_iff] at blank
    have dropped : text.dropWhile isWhitespace = [] := by
      cases kept : text.dropWhile isWhitespace with
      | nil => rfl
      | cons d rest =>
        have head := dropWhile_starts text d (by rw [kept]; rfl)
        rw [kept] at blank
        exact absurd (blank d List.mem_cons_self) (by simp [head])
    exact absurd (List.dropWhile_eq_nil_iff.1 dropped c listed) (by simp [visible])

def keptOf (raw : Str) : Str := (raw.filter fun c => !isUnsafeInUntrustedText c).take maxBodyLen

theorem sanitizeBody_sublist (raw : Str) : (sanitizeBody raw).Sublist (keptOf raw) :=
  (List.rdropWhile_prefix isWhitespace _).sublist.trans (List.dropWhile_sublist isWhitespace)

theorem sanitizeBody_safe (raw : Str) :
    ∀ c ∈ sanitizeBody raw, isUnsafeInUntrustedText c = false := by
  intro c listed
  have kept := (List.take_sublist _ _).subset ((sanitizeBody_sublist raw).subset listed)
  simpa using (List.mem_filter.1 kept).2

theorem sanitizeBody_again (raw : Str) : sanitizeBody (sanitizeBody raw) = sanitizeBody raw := by
  have safe : (sanitizeBody raw).filter (fun c => !isUnsafeInUntrustedText c) = sanitizeBody raw :=
    List.filter_eq_self.2 fun c listed => by rw [sanitizeBody_safe raw c listed]; rfl
  have short : (sanitizeBody raw).length ≤ maxBodyLen :=
    (sanitizeBody_sublist raw).length_le.trans (List.length_take_le _ _)
  rw [sanitizeBody, safe, List.take_of_length_le short]
  exact trim_trim (keptOf raw)

def Accepted.texts (found : Accepted) : List Str :=
  [found.agent, found.title, found.body] ++ found.model.toList ++ found.id.toList ++ found.evidence

def Accepted.Clean (found : Accepted) : Prop :=
  ∀ text ∈ found.texts, sanitizeBody text = text ∧ ∀ c ∈ text, isUnsafeInUntrustedText c = false

/-- Its agent has a name that is not all white space. -/
def Accepted.Attributed (found : Accepted) : Prop :=
  found.agent ≠ [] ∧ ∃ c ∈ found.agent, isWhitespace c = false

section Check
variable (fromStr : Str → Option Value) (files : List ReviewFile) (inputSha256 : Str)

/-- The entry's agent is a name that keeps a character other than white space once its unsafe
characters are dropped and it is cut to the longest body. -/
def NamesAgent (raw : Str) : Prop :=
  ∃ members agent, fromStr raw = some (.object members) ∧
    get members "agent".toList = some (.string agent) ∧ ∃ c ∈ keptOf agent, isWhitespace c = false

theorem required_ok (members : List (Str × Value)) (key text : Str)
    (read : required members key = .ok text) : get members key = some (.string text) := by
  obtain ⟨found, held, ok⟩ := (bind_eq_ok _ _ _).1 read
  rw [stringField_ok members key found held]
  cases found with
  | none => cases ok
  | some own => rw [Except.ok.inj ok]; rfl

theorem attributed_sanitized (agent : Str) :
    (∃ c ∈ sanitizeBody agent, isWhitespace c = false) ↔
      ∃ c ∈ keptOf agent, isWhitespace c = false := by
  rw [← trim_ne_nil, ← trim_ne_nil, sanitizeBody, trim_trim]
  rfl

theorem check_clean (raw : Str) (index : Nat) (found : Accepted)
    (ok : check fromStr files inputSha256 raw index = .ok found) :
    found.Clean ∧ (found.Attributed ↔ NamesAgent fromStr raw) := by
  obtain ⟨members, agent, _, title, body, _, _, evidence, _, _, model, id, _, _, _, _, _, read,
    author, -, -, -, -, -, -, -, -, -, rfl⟩ :=
    check_reads fromStr files inputSha256 raw index found ok
  constructor
  · have shown (source : Str) : sanitizeBody (sanitizeBody source) = sanitizeBody source ∧
        ∀ c ∈ sanitizeBody source, isUnsafeInUntrustedText c = false :=
      ⟨sanitizeBody_again source, sanitizeBody_safe source⟩
    intro text listed
    simp only [Accepted.texts, List.mem_append, List.mem_cons, List.not_mem_nil, or_false,
      Option.mem_toList, Option.map_eq_some_iff, List.mem_map] at listed
    rcases listed with (((rfl | rfl | rfl) | ⟨source, -, rfl⟩) | ⟨source, -, rfl⟩) |
      ⟨source, -, rfl⟩
    all_goals exact shown _
  · have object := readObject_ok fromStr raw members read
    have name := required_ok members _ agent author
    constructor
    · rintro ⟨-, visible⟩
      exact ⟨members, agent, object, name, (attributed_sanitized agent).1 visible⟩
    · rintro ⟨members', agent', object', name', visible⟩
      obtain rfl := Value.object.inj (Option.some.inj (object.symm.trans object'))
      obtain rfl := Value.string.inj (Option.some.inj (name.symm.trans name'))
      have kept := (attributed_sanitized agent).2 visible
      obtain ⟨c, listed, -⟩ := kept
      exact ⟨List.ne_nil_of_mem listed, (attributed_sanitized agent).2 visible⟩

/-- An accepted finding is clean, and attributed exactly when its entry names an agent. -/
theorem verify_attributed (findings : List Str) (found : Accepted)
    (accepted : found ∈ (verify fromStr files inputSha256 findings).accepted) :
    ∃ raw, (entries findings)[found.index]? = some raw ∧ found.Clean ∧
      (found.Attributed ∧ found.Clean ↔ NamesAgent fromStr raw) := by
  obtain ⟨raw, known, ok⟩ :=
    (verify_tracked fromStr files inputSha256 findings).checked found accepted
  obtain ⟨clean, named⟩ := check_clean fromStr files inputSha256 raw _ found ok
  exact ⟨raw, known, clean, (and_iff_left clean).trans named⟩

end Check

def plainFile : ReviewFile :=
  ⟨"a".toList, .modified, ⟨[], [], [], 0⟩, none, ⟨.line, none, []⟩⟩

def findingBy (agent : Str) : List (Str × Value) :=
  [("agent".toList, .string agent), ("severity".toList, .string "low".toList),
    ("title".toList, .string "t".toList), ("body".toList, .string "b".toList),
    ("path".toList, .string "a".toList)]

def findingLine (agent : Str) : Str :=
  "\x7b\"agent\":\"".toList ++ agent ++
    "\",\"severity\":\"low\",\"title\":\"t\",\"body\":\"b\",\"path\":\"a\"\x7d".toList

def readFinding (agent raw : Str) : Option Value :=
  if raw = findingLine agent then some (.object (findingBy agent)) else none

def acceptedFrom (agent : Str) : Accepted :=
  ⟨0, agent, none, none, .low, "t".toList, "b".toList, "a".toList, .file, none, none, []⟩

theorem verify_attributed_named :
    ∃ raw, (entries [findingLine "ci".toList])[(acceptedFrom "ci".toList).index]? = some raw ∧
      (acceptedFrom "ci".toList).Clean ∧
      ((acceptedFrom "ci".toList).Attributed ∧ (acceptedFrom "ci".toList).Clean ↔
        NamesAgent (readFinding "ci".toList) raw) :=
  verify_attributed (readFinding "ci".toList) [plainFile] [] [findingLine "ci".toList]
    (acceptedFrom "ci".toList) (by decide +kernel)

/-- A name of one zero-width space is accepted, and nothing is left of it. -/
theorem accepts_anonymous :
    ∃ found ∈ (verify (readFinding ['\u200B']) [plainFile] [] [findingLine ['\u200B']]).accepted,
      ¬found.Attributed :=
  ⟨acceptedFrom [], by decide +kernel, fun attributed => attributed.1 rfl⟩

end DeepDiffForge.Agent
