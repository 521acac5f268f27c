import DeepDiffForge.Lib.Decimal
import DeepDiffForge.Lib.Fallible
import Mathlib.Algebra.Order.Ring.Rat
import Mathlib.Data.Finset.Dedup
import Mathlib.Data.List.Infix
import Mathlib.Order.WithBot
import Mathlib.Tactic.FieldSimp
import Mathlib.Tactic.Ring

/-! The text exposition format of metrics, version 0.0.4: families of samples as they are written,
and a reader of them. -/

namespace DeepDiffForge.Exposition
open Text Fallible

inductive Kind where
  | counter | gauge | histogram
  deriving DecidableEq, Repr

def Kind.label : Kind → Str
  | .counter => "counter".toList
  | .gauge => "gauge".toList
  | .histogram => "histogram".toList

def Kind.all : List Kind := [.counter, .gauge, .histogram]

structure Sample (ν : Type) where
  name : Str
  labels : List (Str × Str)
  value : ν
  deriving DecidableEq

/-- The samples of one metric, with what its `HELP` and `TYPE` lines say. -/
structure Family (ν : Type) where
  name : Str
  help : Str
  kind : Kind
  samples : List (Sample ν)
  deriving DecidableEq

def Sample.series {ν : Type} (sample : Sample ν) : Str × Finset (Str × Str) :=
  (sample.name, sample.labels.toFinset)

/-! Writing. -/

def escapeChar (c : Char) : Str :=
  if c = '\\' then ['\\', '\\'] else if c = '"' then ['\\', '"']
  else if c = '\n' then ['\\', 'n'] else [c]

def escape (value : Str) : Str := value.flatMap escapeChar

def labelText (label : Str × Str) : Str := label.1 ++ '=' :: '"' :: (escape label.2 ++ ['"'])

def moreLabels : List (Str × Str) → Str
  | [] => ['\x7d']
  | label :: labels => ',' :: (labelText label ++ moreLabels labels)

def labelsText : List (Str × Str) → Str
  | [] => []
  | label :: labels => '\x7b' :: (labelText label ++ moreLabels labels)

def Sample.line (sample : Sample Str) : Str :=
  sample.name ++ (labelsText sample.labels ++ ' ' :: sample.value)

def Family.heading {ν : Type} (family : Family ν) : List Str :=
  ["# HELP ".toList ++ (family.name ++ ' ' :: family.help),
    "# TYPE ".toList ++ (family.name ++ ' ' :: family.kind.label)]

def Family.text (family : Family Str) : Str :=
  unlines (family.heading ++ family.samples.map Sample.line)

/-! Reading. -/

def nameStart (colon : Bool) (c : Char) : Bool := c.isAlpha || c = '_' || (colon && c = ':')

def nameChar (colon : Bool) (c : Char) : Bool := c.isAlphanum || c = '_' || (colon && c = ':')

def isName (colon : Bool) (name : Str) : Bool :=
  name.head?.any (nameStart colon) && name.all (nameChar colon)

def unescape : Str → Option (Str × Str)
  | [] => none
  | '"' :: rest => some ([], rest)
  | '\\' :: '\\' :: rest => (unescape rest).map fun read => ('\\' :: read.1, read.2)
  | '\\' :: '"' :: rest => (unescape rest).map fun read => ('"' :: read.1, read.2)
  | '\\' :: 'n' :: rest => (unescape rest).map fun read => ('\n' :: read.1, read.2)
  | c :: rest =>
      if c = '\\' ∨ c = '\n' then none
      else (unescape rest).map fun read => (c :: read.1, read.2)

def readLabel (text : Str) : Option ((Str × Str) × Str) :=
  (splitOnce '=' text).bind fun parts =>
    if isName false parts.1 && !startsWith "__".toList parts.1 then
      (stripPrefix ['"'] parts.2).bind fun rest =>
        (unescape rest).map fun read => ((parts.1, read.1), read.2)
    else none

def readLabels : Nat → Str → Option (List (Str × Str) × Str)
  | 0, _ => none
  | bound + 1, text =>
      (readLabel text).bind fun read =>
        match read.2 with
        | [] => none
        | c :: rest =>
            if c = '\x7d' then some ([read.1], rest)
            else if c = ',' then
              (readLabels bound rest).map fun more => (read.1 :: more.1, more.2)
            else none

def readLabelled : Str → Option (List (Str × Str) × Str)
  | [] => some ([], [])
  | c :: rest => if c = '\x7b' then readLabels rest.length rest else some ([], c :: rest)

def readDigits (text : Str) : Option Nat :=
  if text ≠ [] ∧ text.all Char.isDigit then some (Nat.ofDigitChars 10 text 0) else none

def readNumber (text : Str) : Option ℚ :=
  match splitOnce '.' text with
  | none => (readDigits text).map fun n : Nat => (n : ℚ)
  | some (whole, fraction) =>
      (readDigits whole).bind fun n : Nat =>
        (readDigits fraction).map fun m : Nat => (n : ℚ) + m / 10 ^ fraction.length

def readSample (line : Str) : Option (Sample ℚ) :=
  let name := line.takeWhile fun c => c ≠ '\x7b' && c ≠ ' '
  (readLabelled (line.drop name.length)).bind fun read =>
    if isName true name ∧ (read.1.map (·.1)).Nodup then
      (stripPrefix [' '] read.2).bind fun value =>
        (readNumber value).map fun value => ⟨name, read.1, value⟩
    else none

inductive Line where
  | help (name text : Str)
  | type (name : Str) (kind : Kind)
  | sample (sample : Sample ℚ)

/-- What a `HELP` line says: a backslash and a line feed are escaped there. -/
def readHelp : Str → Option Str
  | [] => some []
  | '\\' :: '\\' :: rest => (readHelp rest).map ('\\' :: ·)
  | '\\' :: 'n' :: rest => (readHelp rest).map ('\n' :: ·)
  | c :: rest => if c = '\\' then none else (readHelp rest).map (c :: ·)

def readLine (line : Str) : Option Line :=
  match stripPrefix "# ".toList line with
  | none => (readSample line).map .sample
  | some comment =>
      match splitOnce ' ' comment with
      | none => none
      | some (keyword, rest) =>
          match splitOnce ' ' rest with
          | none => none
          | some (name, text) =>
              if isName true name = false then none
              else if keyword = "HELP".toList then (readHelp text).map (.help name)
              else if keyword = "TYPE".toList then
                (Kind.all.find? fun kind => kind.label = text).map (.type name)
              else none

def belongs {ν : Type} (family : Str) (kind : Kind) (sample : Sample ν) : Bool :=
  let count := sample.name.reverse.take 6 = "_count".toList.reverse
  (if kind = .histogram then
    sample.name = family ++ "_bucket".toList || sample.name = family ++ "_count".toList ||
      sample.name = family ++ "_sum".toList
  else sample.name = family) &&
    ((decide (kind = .histogram) == sample.labels.any fun label => label.1 = "le".toList) || count)

structure Reading where
  name : Str
  help : Str
  kind : Option Kind
  samples : List (Sample ℚ)

def takeLine (families : List Reading) : Line → Option (List Reading)
  | .help name text =>
      if families.any (·.name = name) then none else some (⟨name, text, none, []⟩ :: families)
  | .type name kind =>
      match families with
      | ⟨other, text, none, []⟩ :: older =>
          if other = name then some (⟨name, text, some kind, []⟩ :: older) else none
      | _ => none
  | .sample sample =>
      match families with
      | ⟨name, text, some kind, samples⟩ :: older =>
          if belongs name kind sample then some (⟨name, text, some kind, samples ++ [sample]⟩ :: older)
          else none
      | _ => none

def Reading.close (reading : Reading) : Option (Family ℚ) :=
  reading.kind.map fun kind => ⟨reading.name, reading.help, kind, reading.samples⟩

/-- The families of a text: every line ends in a line feed, and every family has its `HELP` and
`TYPE` lines and then its samples, in one group. -/
def read (text : Str) : Option (List (Family ℚ)) :=
  if unterminated text then none
  else
    ((splitLines text).mapM readLine).bind fun lines =>
      (lines.foldlM takeLine []).bind fun families => families.reverse.mapM Reading.close

/-! What is written reads back. -/

theorem unescape_escape (value rest : Str) :
    unescape (escape value ++ '"' :: rest) = some (value, rest) := by
  induction value with
  | nil => rfl
  | cons c value ih =>
    rw [escape, List.flatMap_cons, List.append_assoc]
    change unescape (escapeChar c ++ (escape value ++ '"' :: rest)) = _
    unfold escapeChar
    by_cases backslash : c = '\\'
    · subst backslash
      rw [if_pos rfl]
      change (unescape (escape value ++ '"' :: rest)).map _ = _
      rw [ih]
      rfl
    · rw [if_neg backslash]
      by_cases quote : c = '"'
      · subst quote
        rw [if_pos rfl]
        change (unescape (escape value ++ '"' :: rest)).map _ = _
        rw [ih]
        rfl
      · rw [if_neg quote]
        by_cases feed : c = '\n'
        · subst feed
          rw [if_pos rfl]
          change (unescape (escape value ++ '"' :: rest)).map _ = _
          rw [ih]
          rfl
        · rw [if_neg feed, List.singleton_append, unescape.eq_def]
          simp [backslash, feed, ih]

theorem plain_escape (value : Str) : '\n' ∉ escape value := by
  intro listed
  obtain ⟨c, -, own⟩ := List.mem_flatMap.1 listed
  unfold escapeChar at own
  split_ifs at own with backslash quote feed
  · exact absurd own (by decide)
  · exact absurd own (by decide)
  · exact absurd own (by decide)
  · exact feed (List.mem_singleton.1 own).symm

theorem nameChar_apart (colon : Bool) (name : Str) (named : isName colon name = true) (c : Char)
    (other : nameChar colon c = false) : c ∉ name := by
  intro listed
  have every := List.all_eq_true.1 (Bool.and_eq_true_iff.1 named).2 c listed
  rw [every] at other
  cases other

def ProperLabel (label : Str × Str) : Prop :=
  isName false label.1 = true ∧ startsWith "__".toList label.1 = false

theorem readLabel_text (label : Str × Str) (rest : Str) (proper : ProperLabel label) :
    readLabel (labelText label ++ rest) = some (label, rest) := by
  have split : splitOnce '=' (labelText label ++ rest) =
      some (label.1, '"' :: (escape label.2 ++ '"' :: rest)) := by
    refine (splitOnce_eq_some ..).2 ⟨?_, nameChar_apart false _ proper.1 '=' (by decide)⟩
    rw [labelText, List.append_assoc, List.cons_append, List.cons_append, List.append_assoc]
    rfl
  have opened : stripPrefix ['"'] ('"' :: (escape label.2 ++ '"' :: rest)) =
      some (escape label.2 ++ '"' :: rest) := (stripPrefix_eq_some ..).2 rfl
  rw [readLabel, split, Option.bind_some]
  dsimp only
  rw [proper.1, proper.2, opened, Option.bind_some, unescape_escape]
  rfl

theorem readLabels_text (label : Str × Str) (labels : List (Str × Str)) (rest : Str) (bound : Nat)
    (enough : labels.length < bound) (proper : ∀ label' ∈ label :: labels, ProperLabel label') :
    readLabels bound (labelText label ++ (moreLabels labels ++ rest)) =
      some (label :: labels, rest) := by
  induction labels generalizing label bound with
  | nil =>
    obtain ⟨bound, rfl⟩ : ∃ more, bound = more + 1 := ⟨bound - 1, by omega⟩
    rw [readLabels, readLabel_text label _ (proper label (List.mem_cons_self ..))]
    rfl
  | cons next labels ih =>
    rw [List.length_cons] at enough
    obtain ⟨bound, rfl⟩ : ∃ more, bound = more + 1 := ⟨bound - 1, by omega⟩
    rw [readLabels, readLabel_text label _ (proper label (List.mem_cons_self ..)), moreLabels,
      List.cons_append, Option.bind_some]
    dsimp only
    rw [if_neg (by decide), if_pos rfl, List.append_assoc, ih next bound (by omega) (List.forall_mem_cons.1 proper).2]
    rfl

theorem plain_labelText (label : Str × Str) (proper : ProperLabel label) :
    '\n' ∉ labelText label := by
  have name := nameChar_apart false label.1 proper.1 '\n' (by decide)
  have value := plain_escape label.2
  rw [labelText]
  simp [name, value]

theorem plain_moreLabels (labels : List (Str × Str)) (proper : ∀ label ∈ labels, ProperLabel label) :
    '\n' ∉ moreLabels labels := by
  induction labels with
  | nil => decide
  | cons label labels ih =>
    rw [List.forall_mem_cons] at proper
    have here := plain_labelText label proper.1
    have rest := ih proper.2
    rw [moreLabels]
    simp [here, rest]

theorem length_moreLabels (labels : List (Str × Str)) : labels.length < (moreLabels labels).length := by
  induction labels with
  | nil => exact Nat.one_pos
  | cons label labels ih =>
    rw [moreLabels, List.length_cons, List.length_cons, List.length_append]
    omega

theorem plain_digits (text : Str) (n : Nat) (read : readDigits text = some n) :
    ∀ c ∈ text, c.isDigit = true := by
  unfold readDigits at read
  split_ifs at read with digits
  exact List.all_eq_true.1 digits.2

theorem plain_number (text : Str) (value : ℚ) (read : readNumber text = some value) (c : Char)
    (other : c.isDigit = false) (apart : c ≠ '.') : c ∉ text := by
  intro listed
  have digit (part : Str) (n : Nat) (own : readDigits part = some n) : c ∉ part := by
    intro inside
    rw [plain_digits part n own c inside] at other
    cases other
  unfold readNumber at read
  cases split : splitOnce '.' text with
  | none =>
    rw [split] at read
    obtain ⟨n, own, -⟩ := Option.map_eq_some_iff.1 read
    exact digit text n own listed
  | some parts =>
    rw [split] at read
    obtain ⟨n, whole, read⟩ := Option.bind_eq_some_iff.1 read
    obtain ⟨m, fraction, -⟩ := Option.map_eq_some_iff.1 read
    obtain ⟨text', -⟩ := (splitOnce_eq_some '.' text parts.1 parts.2).1 split
    rw [text', List.mem_append, List.mem_cons] at listed
    rcases listed with first | same | second
    · exact digit _ n whole first
    · exact apart same
    · exact digit _ m fraction second

structure SampleReads (written : Sample Str) (sample : Sample ℚ) : Prop where
  name : sample.name = written.name
  labels : sample.labels = written.labels
  value : readNumber written.value = some sample.value
  named : isName true written.name = true
  proper : ∀ label ∈ written.labels, ProperLabel label
  once : (written.labels.map (·.1)).Nodup

theorem readSample_line (written : Sample Str) (sample : Sample ℚ)
    (reads : SampleReads written sample) : readSample written.line = some sample := by
  obtain ⟨name, labels, value⟩ := sample
  obtain ⟨rfl, rfl, number, named, proper, once⟩ := reads
  have apart : ∀ c ∈ written.name, (c ≠ '\x7b' && c ≠ ' ') = true := by
    intro c listed
    have brace := nameChar_apart true _ named '\x7b' (by decide)
    have blank := nameChar_apart true _ named ' ' (by decide)
    rw [Bool.and_eq_true, decide_eq_true_eq, decide_eq_true_eq]
    exact ⟨fun same => brace (same ▸ listed), fun same => blank (same ▸ listed)⟩
  have ends : (labelsText written.labels ++ ' ' :: written.value).takeWhile
      (fun c => c ≠ '\x7b' && c ≠ ' ') = [] := by
    cases written.labels <;> rfl
  have front : written.line.takeWhile (fun c => c ≠ '\x7b' && c ≠ ' ') = written.name := by
    rw [Sample.line, List.takeWhile_append_of_pos apart, ends, List.append_nil]
  have labelled : readLabelled (labelsText written.labels ++ ' ' :: written.value) =
      some (written.labels, ' ' :: written.value) := by
    cases labels : written.labels with
    | nil => rfl
    | cons label labels' =>
      rw [labels] at proper
      have size := length_moreLabels labels'
      rw [labelsText, List.cons_append, readLabelled, if_pos rfl, List.append_assoc]
      refine readLabels_text label labels' _ _ ?_ proper
      rw [List.length_append, List.length_append]
      omega
  have rest : written.line.drop written.name.length =
      labelsText written.labels ++ ' ' :: written.value := List.drop_left ..
  have opened : stripPrefix [' '] (' ' :: written.value) = some written.value :=
    (stripPrefix_eq_some ..).2 rfl
  unfold readSample
  dsimp only
  rw [front, rest, labelled, Option.bind_some, if_pos ⟨named, once⟩, opened, Option.bind_some,
    number]
  rfl

theorem plain_sampleLine (written : Sample Str) (sample : Sample ℚ)
    (reads : SampleReads written sample) : '\n' ∉ written.line := by
  have name := nameChar_apart true written.name reads.named '\n' (by decide)
  have value := plain_number written.value _ reads.value '\n' (by decide) (by decide)
  have labels : '\n' ∉ labelsText written.labels := by
    have proper := reads.proper
    cases listed : written.labels with
    | nil => exact List.not_mem_nil
    | cons label labels =>
      rw [listed, List.forall_mem_cons] at proper
      have here := plain_labelText label proper.1
      have rest := plain_moreLabels labels proper.2
      rw [labelsText]
      simp [here, rest]
  rw [Sample.line]
  simp [name, value, labels]

theorem readLine_sample (written : Sample Str) (sample : Sample ℚ)
    (reads : SampleReads written sample) : readLine written.line = some (.sample sample) := by
  have other : stripPrefix "# ".toList written.line = none := by
    have nonempty : written.name ≠ [] := by
      intro absent
      have named := reads.named
      rw [absent] at named
      cases named
    have hash := nameChar_apart true written.name reads.named '#' (by decide)
    cases name : written.name with
    | nil => exact absurd name nonempty
    | cons c rest =>
      rw [name, List.mem_cons, not_or] at hash
      rw [Sample.line, name]
      exact if_neg hash.1
  rw [readLine, other]
  exact congrArg (Option.map Line.sample) (readSample_line written sample reads)

theorem readHelp_plain (text : Str) (plain : '\\' ∉ text) : readHelp text = some text := by
  induction text with
  | nil => rfl
  | cons c text ih =>
    rw [List.mem_cons, not_or] at plain
    rw [readHelp.eq_def]
    simp [Ne.symm plain.1, ih plain.2]

structure FamilyReads (written : Family Str) (family : Family ℚ) : Prop where
  name : family.name = written.name
  help : family.help = written.help
  kind : family.kind = written.kind
  named : isName true written.name = true
  plain : '\n' ∉ written.help ∧ '\\' ∉ written.help
  samples : List.Forall₂ SampleReads written.samples family.samples
  own : ∀ sample ∈ family.samples, belongs written.name written.kind sample = true

def Family.reading (family : Family ℚ) : Reading :=
  ⟨family.name, family.help, some family.kind, family.samples⟩

def Family.heard (family : Family ℚ) : List Line :=
  .help family.name family.help :: .type family.name family.kind ::
    family.samples.map Line.sample

theorem readLine_help (name help : Str) (named : isName true name = true)
    (plain : '\\' ∉ help) :
    readLine ("# HELP ".toList ++ (name ++ ' ' :: help)) = some (.help name help) := by
  have comment : stripPrefix "# ".toList ("# HELP ".toList ++ (name ++ ' ' :: help)) =
      some ("HELP".toList ++ ' ' :: (name ++ ' ' :: help)) := (stripPrefix_eq_some ..).2 rfl
  have keyword : splitOnce ' ' ("HELP".toList ++ ' ' :: (name ++ ' ' :: help)) =
      some ("HELP".toList, name ++ ' ' :: help) := (splitOnce_eq_some ..).2 ⟨rfl, by decide⟩
  have parts : splitOnce ' ' (name ++ ' ' :: help) = some (name, help) :=
    (splitOnce_eq_some ..).2 ⟨rfl, nameChar_apart true name named ' ' (by decide)⟩
  rw [readLine, comment]
  dsimp only
  rw [keyword]
  dsimp only
  rw [parts]
  dsimp only
  rw [named, if_neg (by decide), if_pos rfl, readHelp_plain help plain]
  rfl

theorem readLine_type (name : Str) (kind : Kind) (named : isName true name = true) :
    readLine ("# TYPE ".toList ++ (name ++ ' ' :: kind.label)) = some (.type name kind) := by
  have comment : stripPrefix "# ".toList ("# TYPE ".toList ++ (name ++ ' ' :: kind.label)) =
      some ("TYPE".toList ++ ' ' :: (name ++ ' ' :: kind.label)) := (stripPrefix_eq_some ..).2 rfl
  have keyword : splitOnce ' ' ("TYPE".toList ++ ' ' :: (name ++ ' ' :: kind.label)) =
      some ("TYPE".toList, name ++ ' ' :: kind.label) := (splitOnce_eq_some ..).2 ⟨rfl, by decide⟩
  have parts : splitOnce ' ' (name ++ ' ' :: kind.label) = some (name, kind.label) :=
    (splitOnce_eq_some ..).2 ⟨rfl, nameChar_apart true name named ' ' (by decide)⟩
  have known : (Kind.all.find? fun other => other.label = kind.label) = some kind := by
    cases kind <;> decide
  rw [readLine, comment]
  dsimp only
  rw [keyword]
  dsimp only
  rw [parts]
  dsimp only
  rw [named, if_neg (by decide), if_neg (by decide), if_pos rfl, known]
  rfl

theorem forall₂_lines (samples : List (Sample Str)) (read : List (Sample ℚ))
    (each : List.Forall₂ SampleReads samples read) :
    List.Forall₂ (fun line heard => readLine line = some heard) (samples.map Sample.line)
      (read.map Line.sample) := by
  induction each with
  | nil => exact .nil
  | cons first rest ih => exact .cons (readLine_sample _ _ first) ih

theorem heard_lines (written : Family Str) (family : Family ℚ) (reads : FamilyReads written family) :
    List.Forall₂ (fun line heard => readLine line = some heard)
      (written.heading ++ written.samples.map Sample.line) family.heard := by
  have help := readLine_help written.name written.help reads.named reads.plain.2
  have kind := readLine_type written.name written.kind reads.named
  rw [← reads.name, ← reads.help] at help
  rw [← reads.name, ← reads.kind] at kind
  rw [Family.heading, ← reads.name, ← reads.help, ← reads.kind]
  exact .cons help (.cons kind (forall₂_lines _ _ reads.samples))

/-- The lines of a family are taken after any families of other names. -/
theorem takeLine_family (written : Family Str) (family : Family ℚ)
    (reads : FamilyReads written family) (older : List Reading)
    (apart : ∀ other ∈ older, other.name ≠ family.name) :
    family.heard.foldlM takeLine older = some (family.reading :: older) := by
  have samples (taken rest : List (Sample ℚ))
      (own : ∀ sample ∈ rest, belongs family.name family.kind sample = true) :
      (rest.map Line.sample).foldlM takeLine
          (⟨family.name, family.help, some family.kind, taken⟩ :: older) =
        some (⟨family.name, family.help, some family.kind, taken ++ rest⟩ :: older) := by
    induction rest generalizing taken with
    | nil => rw [List.append_nil]; rfl
    | cons sample rest ih =>
      rw [List.forall_mem_cons] at own
      rw [List.map_cons, List.foldlM_cons, takeLine, if_pos own.1]
      have next := ih (taken ++ [sample]) own.2
      rwa [List.append_assoc] at next
  have fresh : ¬ older.any (·.name = family.name) = true := by
    rw [List.any_eq_true]
    rintro ⟨other, listed, same⟩
    exact apart other listed (of_decide_eq_true same)
  rw [Family.heard, List.foldlM_cons, takeLine, if_neg fresh]
  change ((.type family.name family.kind :: family.samples.map Line.sample).foldlM takeLine
    (⟨family.name, family.help, none, []⟩ :: older)) = _
  rw [List.foldlM_cons, takeLine, if_pos rfl]
  have own := reads.own
  rw [← reads.name, ← reads.kind] at own
  exact samples [] family.samples own

theorem takeLine_families (written : List (Family Str)) (families : List (Family ℚ))
    (reads : List.Forall₂ FamilyReads written families)
    (once : (families.map Family.name).Nodup) (older : List Reading)
    (apart : ∀ family ∈ families, ∀ other ∈ older, other.name ≠ family.name) :
    (families.flatMap Family.heard).foldlM takeLine older =
      some ((families.map Family.reading).reverse ++ older) := by
  induction reads generalizing older with
  | nil => rfl
  | cons first rest ih =>
    rename_i one family more families
    rw [List.map_cons, List.nodup_cons] at once
    rw [List.forall_mem_cons] at apart
    rw [List.flatMap_cons, List.foldlM_append, takeLine_family one family first older apart.1]
    change (families.flatMap Family.heard).foldlM takeLine (family.reading :: older) = _
    rw [ih once.2, List.map_cons, List.reverse_cons, List.append_assoc]
    · rfl
    · intro later listed other member
      rcases List.mem_cons.1 member with rfl | before
      · exact fun same => once.1 (List.mem_map.2 ⟨later, listed, same.symm⟩)
      · exact apart.2 later listed other before

theorem plain_lines (written : Family Str) (family : Family ℚ) (reads : FamilyReads written family) :
    ∀ line ∈ written.heading ++ written.samples.map Sample.line, '\n' ∉ line := by
  have name := nameChar_apart true written.name reads.named '\n' (by decide)
  have help := reads.plain.1
  have kind : '\n' ∉ written.kind.label := by cases written.kind <;> decide
  intro line listed
  rcases List.mem_append.1 listed with heading | samples
  · unfold Family.heading at heading
    rcases List.mem_pair.1 heading with rfl | rfl
    · simp [name, help]
    · simp [name, kind]
  · obtain ⟨sample, own, rfl⟩ := List.mem_map.1 samples
    obtain ⟨i, within, rfl⟩ := List.getElem_of_mem own
    exact plain_sampleLine _ _ ((List.forall₂_iff_get.1 reads.samples).2 i within
      ((List.forall₂_iff_get.1 reads.samples).1 ▸ within))

/-- Families of different names, written one after another, read back. -/
theorem read_text (written : List (Family Str)) (families : List (Family ℚ))
    (reads : List.Forall₂ FamilyReads written families)
    (once : (families.map Family.name).Nodup) :
    read (written.flatMap Family.text) = some families := by
  have lines : written.flatMap Family.text = unlines (written.flatMap fun family =>
      family.heading ++ family.samples.map Sample.line) := by
    rw [unlines, List.flatMap_assoc]
    rfl
  have plain : ∀ line ∈ written.flatMap fun family =>
      family.heading ++ family.samples.map Sample.line, '\n' ∉ line := by
    intro line listed
    obtain ⟨family, member, own⟩ := List.mem_flatMap.1 listed
    obtain ⟨i, within, rfl⟩ := List.getElem_of_mem member
    exact plain_lines _ _ ((List.forall₂_iff_get.1 reads).2 i within
      ((List.forall₂_iff_get.1 reads).1 ▸ within)) line own
  have heard : List.Forall₂ (fun line heard => readLine line = some heard)
      (written.flatMap fun family => family.heading ++ family.samples.map Sample.line)
      (families.flatMap Family.heard) := by
    clear lines plain once
    induction reads with
    | nil => exact .nil
    | cons first rest ih => exact List.rel_append (heard_lines _ _ first) ih
  have ended (lines : List Str) : unterminated (unlines lines) = false := by
    induction lines using List.reverseRecOn with
    | nil => rfl
    | append_singleton lines line ih => simp [unterminated, unlines]
  have split := splitLines_unlines _ [] plain
  rw [List.append_nil, ← lines] at split
  have closed (families : List (Family ℚ)) :
      (families.map Family.reading).mapM Reading.close = some families :=
    mapM_some _ _ _ (by
      induction families with
      | nil => exact .nil
      | cons family families ih => exact .cons rfl ih)
  have taken := takeLine_families written families reads once [] (fun _ _ _ listed => by cases listed)
  rw [List.append_nil] at taken
  unfold read
  rw [split, lines, ended, if_neg Bool.false_ne_true]
  change (List.mapM readLine ((written.flatMap fun family =>
    family.heading ++ family.samples.map Sample.line) ++ [])).bind _ = _
  rw [List.append_nil, mapM_some _ _ _ heard, Option.bind_some, taken, Option.bind_some,
    List.reverse_reverse, closed]

/-! Numbers, series and histograms. -/

theorem readDigits_decimal (n : Nat) : readDigits (decimal n) = some n := by
  unfold readDigits
  rw [if_pos ⟨decimal_ne_nil n, List.all_eq_true.2 (decimal_digit n)⟩, ofDigitChars_decimal]

theorem readNumber_decimal (n : Nat) : readNumber (decimal n) = some (n : ℚ) := by
  have whole : splitOnce '.' (decimal n) = none :=
    (splitOnce_eq_none ..).2 fun listed => absurd (decimal_digit n '.' listed) (by decide)
  rw [readNumber, whole]
  dsimp only
  rw [readDigits_decimal]
  rfl

def namesOf (family : Str) (kind : Kind) : List Str :=
  match kind with
  | .histogram => [family ++ "_bucket".toList, family ++ "_count".toList, family ++ "_sum".toList]
  | _ => [family]

def Family.names {ν : Type} (family : Family ν) : List Str := namesOf family.name family.kind

theorem belongs_names (family : Family ℚ) (sample : Sample ℚ)
    (own : belongs family.name family.kind sample = true) : sample.name ∈ family.names := by
  have named := (Bool.and_eq_true_iff.1 own).1
  unfold Family.names namesOf
  cases kind : family.kind <;> rw [kind] at named
  · exact List.mem_singleton.2 (of_decide_eq_true named)
  · exact List.mem_singleton.2 (of_decide_eq_true named)
  · rw [if_pos rfl, Bool.or_eq_true, Bool.or_eq_true, decide_eq_true_eq, decide_eq_true_eq,
      decide_eq_true_eq] at named
    rw [List.mem_cons, List.mem_cons, List.mem_singleton]
    rcases named with (bucket | count) | sum
    · exact .inl bucket
    · exact .inr (.inl count)
    · exact .inr (.inr sum)

theorem belongs_plain (family : Str) (kind : Kind) (labels : List (Str × Str)) (value : ℚ)
    (other : kind ≠ .histogram) (unbounded : ∀ label ∈ labels, label.1 ≠ "le".toList) :
    belongs family kind ⟨family, labels, value⟩ = true := by
  have absent : (labels.any fun label => label.1 = "le".toList) = false :=
    List.any_eq_false.2 fun label listed => by simpa using unbounded label listed
  unfold belongs
  dsimp only
  rw [if_neg other, decide_eq_true rfl, decide_eq_false other, absent]
  rfl

theorem belongs_bucket (family : Str) (labels : List (Str × Str)) (value : ℚ)
    (bounded : ∃ label ∈ labels, label.1 = "le".toList) :
    belongs family .histogram ⟨family ++ "_bucket".toList, labels, value⟩ = true := by
  have present : (labels.any fun label => label.1 = "le".toList) = true := by
    obtain ⟨label, listed, same⟩ := bounded
    exact List.any_eq_true.2 ⟨label, listed, decide_eq_true same⟩
  unfold belongs
  dsimp only
  rw [if_pos rfl, decide_eq_true rfl, decide_eq_true rfl, present]
  rfl

theorem belongs_count (family : Str) (labels : List (Str × Str)) (value : ℚ) :
    belongs family .histogram ⟨family ++ "_count".toList, labels, value⟩ = true := by
  have last : (family ++ "_count".toList).reverse.take 6 = "_count".toList.reverse := by
    rw [List.reverse_append]
    exact List.take_left' (by decide)
  unfold belongs
  dsimp only
  rw [if_pos rfl, decide_eq_true last, Bool.or_true, Bool.and_true, Bool.or_eq_true,
    Bool.or_eq_true]
  exact .inl (.inr (decide_eq_true rfl))

theorem series_once (families : List (Family ℚ))
    (own : ∀ family ∈ families, ∀ sample ∈ family.samples, sample.name ∈ family.names)
    (apart : (families.flatMap Family.names).Nodup)
    (each : ∀ family ∈ families, (family.samples.map Sample.series).Nodup) :
    ((families.flatMap Family.samples).map Sample.series).Nodup := by
  rw [List.map_flatMap]
  rw [List.nodup_flatMap] at apart ⊢
  refine ⟨each, List.Pairwise.imp_of_mem ?_ apart.2⟩
  intro one two first second names series listed listed'
  obtain ⟨a, here, rfl⟩ := List.mem_map.1 listed
  obtain ⟨b, there, same⟩ := List.mem_map.1 listed'
  have name : b.name = a.name := congrArg Prod.fst same
  exact names (own one first a here) (name ▸ own two second b there)

theorem labels_of_series {ν : Type} (one two : Sample ν) (same : one.series = two.series)
    (label : Str × Str) (listed : label ∈ one.labels) : label ∈ two.labels := by
  have labels : one.labels.toFinset = two.labels.toFinset := congrArg Prod.snd same
  rw [← List.mem_toFinset] at listed ⊢
  rwa [← labels]

def Sample.le {ν : Type} (sample : Sample ν) : Option Str :=
  (sample.labels.find? fun label => label.1 = "le".toList).map (·.2)

def readBound (text : Str) : Option (WithTop ℚ) :=
  if text = "+Inf".toList then some ⊤ else (readNumber text).map fun value : ℚ => (value : WithTop ℚ)

structure Rises (buckets : List (Sample ℚ)) (total : ℚ) : Prop where
  bounds : ∃ bounds, List.Forall₂ (fun bucket bound => bucket.le.bind readBound = some bound)
    buckets bounds ∧ bounds.Pairwise (· < ·) ∧ bounds.getLast? = some ⊤
  counts : (buckets.map Sample.value).Pairwise (· ≤ ·)
  last : (buckets.map Sample.value).getLast? = some total

end DeepDiffForge.Exposition
