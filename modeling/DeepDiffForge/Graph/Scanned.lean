import DeepDiffForge.Graph.Lexical
import DeepDiffForge.Lib.Masking

/-! A scan keeps or blanks each character of a line whole: what it has pending ends between two
characters, and inside a character it does one thing to every byte. -/

namespace DeepDiffForge.Graph
open Text Utf8 Masking DeepDiffForge.Core

def Low (byte : UInt8) : Prop := byte.toNat < 0x80

theorem high_ne (byte low : UInt8) (high : 0x80 ≤ byte.toNat) (small : Low low) : byte ≠ low := by
  rintro rfl
  exact absurd small (Nat.not_lt.2 high)

theorem low_sign (c : Char) (ascii : c.toNat < 0x80) : Low (sign c) := by
  rw [Low, sign, UInt8.toNat_ofNat']
  exact Nat.lt_of_le_of_lt (Nat.mod_le _ _) ascii

def FrameOk (done : Str) : Frame → Prop
  | .str held => Low held.quote ∧ Reaches done held.start
  | .code held => Low held.close ∧ ∀ opener ∈ held.opener, Low opener
  | .comment => True

theorem reaches_more (done more : Str) (count : Nat) (reaches : Reaches done count) :
    Reaches (done ++ more) count := by
  obtain ⟨start, rest, rfl, length⟩ := reaches
  exact ⟨start, rest ++ more, List.append_assoc .., length⟩

theorem frameOk_more (done more : Str) (frame : Frame) (ok : FrameOk done frame) :
    FrameOk (done ++ more) frame := by
  cases frame with
  | str held => exact ⟨ok.1, reaches_more done more _ ok.2⟩
  | code held => exact ok
  | comment => trivial

def ReadingOk (reading : Reading) : Prop :=
  (∀ quote ∈ reading.inTriple, Low quote) ∧ ∀ frame ∈ reading.inString, FrameOk [] frame

/-- What the scan does to the bytes of a character it has nothing pending for. -/
def keeps (language : Language) (scan : Scanner) (state : Reading) : Bool :=
  if state.inBlockComment || state.inTriple.isSome then false
  else
    match scan.stack with
    | .comment :: _ => false
    | .str _ :: _ => language = .yaml
    | .code held :: _ => !held.spec
    | [] => true

/-- What is pending ends between characters, or is one byte of a character that is kept. -/
def Pending (language : Language) (rest : Str) (scan : Scanner) (state : Reading) : Prop :=
  (Reaches rest scan.blank ∧ Reaches rest (scan.blank + scan.copy)) ∨
    (scan.blank = 0 ∧ scan.copy = 1 ∧ keeps language scan state = true)

structure Between (language : Language) (done rest : Str) (scan : Scanner) (state : Reading) :
    Prop where
  masked : Masked done scan.out
  frames : ∀ frame ∈ scan.stack, FrameOk done frame
  reading : ReadingOk state
  pending : Pending language rest scan state

section High
variable (language : Language) (before : Bytes) (byte : UInt8) (after : Bytes)
  (high : 0x80 ≤ byte.toNat)
include high

theorem high_startsWith (first : UInt8) (word : Bytes) (low : Low first) :
    startsWith (first :: word) (byte :: after) = false := by
  rw [Bool.eq_false_iff]
  intro starts
  obtain ⟨rest, whole⟩ := (startsWith_iff _ _).1 starts
  exact high_ne byte first high low (List.cons.inj whole).1

theorem high_interpolation (quote : UInt8) (fstring : Bool) :
    Frame.interpolation language quote fstring (byte :: after) = none := by
  have paren := high_startsWith byte after high (sign '$') [sign '('] (low_sign '$' (by decide))
  have brace := high_startsWith byte after high (sign '$') [sign '\x7b'] (low_sign '$' (by decide))
  have tick := high_ne byte (sign '\x60') high (low_sign '\x60' (by decide))
  have curly := high_ne byte (sign '\x7b') high (low_sign '\x7b' (by decide))
  have opened : ascii "$(" = [sign '$', sign '('] := rfl
  have opened' : ascii "$\x7b" = [sign '$', sign '\x7b'] := rfl
  simp [Frame.interpolation, opened, opened', paren, brace, tick, curly]

theorem high_trackCode (scan : Scanner)
    (frames : ∀ held outer, scan.stack = .code held :: outer →
      Low held.close ∧ ∀ opener ∈ held.opener, Low opener) :
    Scanner.trackCode language before byte after scan = scan := by
  rw [Scanner.trackCode]
  split
  · next held outer whole =>
    obtain ⟨close, opener⟩ := frames held outer whole
    have cases' : Scanner.trackCases language before byte after held = held := by
      have one : startsWith (ascii "case") (byte :: after) = false :=
        high_startsWith byte after high (sign 'c') _ (low_sign 'c' (by decide))
      have two : startsWith (ascii "esac") (byte :: after) = false :=
        high_startsWith byte after high (sign 'e') _ (low_sign 'e' (by decide))
      simp [Scanner.trackCases, shellWordAt, one, two]
    have brackets : Scanner.trackBrackets language byte held = held := by
      have signs (c : Char) (low : c.toNat < 0x80) : byte ≠ sign c :=
        high_ne byte (sign c) high (low_sign c low)
      simp [Scanner.trackBrackets, signs '(' (by decide), signs '[' (by decide),
        signs ')' (by decide), signs ']' (by decide), signs ':' (by decide)]
    have unopened : held.opener ≠ some byte := fun same => high_ne byte byte high (opener byte same) rfl
    have unclosed : byte ≠ held.close := high_ne byte held.close high close
    rw [cases']
    dsimp only
    rw [brackets, ← whole]
    simp [unopened, unclosed]
  · rfl

theorem high_inPlainCode (scan : Scanner) (state : Reading)
    (frames : ∀ held outer, scan.stack = .code held :: outer →
      Low held.close ∧ ∀ opener ∈ held.opener, Low opener) :
    Scanner.inPlainCode language before byte after scan state = some (scan.push byte, state) := by
  have signs (c : Char) (low : c.toNat < 0x80) : byte ≠ sign c :=
    high_ne byte (sign c) high (low_sign c low)
  have quote := signs '"' (by decide)
  have tick := signs '\'' (by decide)
  have back := signs '\x60' (by decide)
  have hash := signs '#' (by decide)
  have opens : language.opensString byte = false := by
    cases language <;> simp [Language.opensString, quote, tick, back]
  simp [Scanner.inPlainCode, Scanner.charLiteral, quote, tick, hash, opens,
    high_trackCode language before byte after high scan frames]

theorem high_inCode (scan : Scanner) (state : Reading)
    (frames : ∀ held outer, scan.stack = .code held :: outer →
      Low held.close ∧ ∀ opener ∈ held.opener, Low opener) :
    Scanner.inCode language before byte after scan state = some (scan.push byte, state) := by
  have signs (c : Char) (low : c.toNat < 0x80) : byte ≠ sign c :=
    high_ne byte (sign c) high (low_sign c low)
  have one : startsWith (ascii "//") (byte :: after) = false :=
    high_startsWith byte after high (sign '/') _ (low_sign '/' (by decide))
  have two : startsWith (ascii "/*") (byte :: after) = false :=
    high_startsWith byte after high (sign '/') _ (low_sign '/' (by decide))
  simp [Scanner.inCode, signs '\\' (by decide), signs '/' (by decide), one, two,
    high_inPlainCode language before byte after high scan state frames]

theorem high_inString (held : StrFrame) (outer : List Frame) (scan : Scanner)
    (quote : Low held.quote) :
    Scanner.inString language byte after held outer scan =
      ({ scan with stack := if held.escaped then .str { held with escaped := false } :: outer
          else scan.stack }).push (if language = Language.yaml then byte else blankByte) := by
  have closed := high_ne byte held.quote high quote
  have slash := high_ne byte (sign '\\') high (low_sign '\\' (by decide))
  have doubled : startsWith (ascii "\x7b\x7b") (byte :: after) = false :=
    high_startsWith byte after high (sign '\x7b') _ (low_sign '\x7b' (by decide))
  simp only [Scanner.inString, Scanner.closes, Scanner.escapes, closed, slash, doubled,
    high_interpolation language byte after high]
  split_ifs <;> simp_all

/-- A byte of a longer character, with nothing pending: it is kept or blanked as the scan does. -/
theorem high_step (scan : Scanner) (state : Reading) (blank : scan.blank = 0)
    (copy : scan.copy = 0) (done : Str) (frames : ∀ frame ∈ scan.stack, FrameOk done frame)
    (ok : ReadingOk state) :
    ∃ stack, Scanner.step language before byte after scan state = some
        (({ scan with stack } : Scanner).push
          (if keeps language scan state then byte else blankByte), state) ∧
      (∀ frame ∈ stack, FrameOk done frame) ∧
      keeps language { scan with stack } state = keeps language scan state := by
  have still (b : UInt8) (same : (if keeps language scan state then byte else blankByte) = b)
      (stepped : Scanner.step language before byte after scan state = some (scan.push b, state)) :
      ∃ stack, Scanner.step language before byte after scan state = some
          (({ scan with stack } : Scanner).push
            (if keeps language scan state then byte else blankByte), state) ∧
        (∀ frame ∈ stack, FrameOk done frame) ∧
        keeps language { scan with stack } state = keeps language scan state :=
    ⟨scan.stack, by rw [stepped, same], frames, rfl⟩
  have star : startsWith (ascii "*/") (byte :: after) = false :=
    high_startsWith byte after high (sign '*') _ (low_sign '*' (by decide))
  by_cases block : state.inBlockComment = true
  · refine still blankByte (by simp [keeps, block]) ?_
    simp [Scanner.step, blank, copy, block, star]
  cases within : state.inTriple with
  | some quote =>
    have shut : startsWith [quote, quote, quote] (byte :: after) = false :=
      high_startsWith byte after high quote _ (ok.1 quote within)
    refine still blankByte (by simp [keeps, within]) ?_
    simp [Scanner.step, blank, copy, block, within, shut]
  | none =>
    cases whole : scan.stack with
    | nil =>
      refine still byte (by simp [keeps, block, within, whole]) ?_
      rw [← high_inCode language before byte after high scan state (by simp [whole])]
      simp [Scanner.step, blank, copy, block, within, whole]
    | cons frame outer =>
      cases frame with
      | comment =>
        refine still blankByte (by simp [keeps, block, within, whole]) ?_
        simp [Scanner.step, blank, copy, block, within, whole, star]
      | code held =>
        have inner := frames (.code held) (by rw [whole]; exact List.mem_cons_self)
        by_cases spec : held.spec = true
        · have brace := high_ne byte (sign '\x7d') high (low_sign '\x7d' (by decide))
          refine still blankByte (by simp [keeps, block, within, whole, spec]) ?_
          simp [Scanner.step, blank, copy, block, within, whole, spec, brace,
            high_interpolation language byte after high]
        · refine still byte (by simp [keeps, block, within, whole, spec]) ?_
          rw [← high_inCode language before byte after high scan state (by
            intro other rest same
            obtain ⟨same, -⟩ := List.cons.inj (whole.symm.trans same)
            obtain rfl := Frame.code.inj same
            exact inner)]
          simp [Scanner.step, blank, copy, block, within, whole, spec]
      | str held =>
        have inner := frames (.str held) (by rw [whole]; exact List.mem_cons_self)
        have keep : keeps language scan state = decide (language = Language.yaml) := by
          simp [keeps, block, within, whole]
        refine ⟨if held.escaped then .str { held with escaped := false } :: outer else scan.stack,
          ?_, ?_, ?_⟩
        · rw [keep]
          have stepped : Scanner.step language before byte after scan state =
              some (Scanner.inString language byte after held outer scan, state) := by
            simp [Scanner.step, blank, copy, block, within, whole]
          rw [stepped, high_inString language byte after high held outer scan inner.1]
          simp
        · split_ifs
          · intro frame listed
            rcases List.mem_cons.1 listed with rfl | later
            · exact inner
            · exact frames frame (by rw [whole]; exact List.mem_cons_of_mem _ later)
          · exact frames
        · split_ifs
          · simp [keeps, block, within, whole]
          · rfl

end High

section Ascii
variable (language : Language) (done : Str) (c : Char) (rest : Str)

structure Moved (scan : Scanner) (scan' : Scanner) (state' : Reading) : Prop where
  out : ∃ b, (b = sign c ∨ b = blankByte) ∧ scan'.out = scan.out ++ [b]
  frames : ∀ frame ∈ scan'.stack, FrameOk (done ++ [c]) frame
  reading : ReadingOk state'
  pending : Pending language rest scan' state'

theorem pending_none (scan : Scanner) (state : Reading) (blank : scan.blank = 0)
    (copy : scan.copy = 0) : Pending language rest scan state := by
  refine .inl ⟨?_, ?_⟩
  · rw [blank]
    exact reaches_zero rest
  · rw [blank, copy]
    exact reaches_zero rest

theorem pending_copy (scan : Scanner) (state : Reading) (blank : scan.blank = 0)
    (reaches : Reaches rest scan.copy) : Pending language rest scan state := by
  refine .inl ⟨?_, ?_⟩
  · rw [blank]
    exact reaches_zero rest
  · rwa [blank, Nat.zero_add]

theorem pending_blank (scan : Scanner) (state : Reading) (copy : scan.copy = 0)
    (reaches : Reaches rest scan.blank) : Pending language rest scan state := by
  refine .inl ⟨reaches, ?_⟩
  rwa [copy, Nat.add_zero]

/-- What starts here with ASCII goes on between characters. -/
theorem reaches_starts (byte : UInt8) (word : Bytes) (low : ∀ b ∈ word, Low b)
    (starts : startsWith (byte :: word) (sign c :: encode rest) = true) :
    Reaches rest word.length := by
  obtain ⟨tail, whole⟩ := (startsWith_iff _ _).1 starts
  have cut := (List.cons.inj whole).2
  cases filled : word.length with
  | zero => exact reaches_zero rest
  | succ n =>
    have within : n < word.length := by omega
    refine reaches_after rest n word[n] ?_ (low _ (List.getElem_mem within))
    rw [cut, List.append_eq, List.getElem?_append_left within, List.getElem?_eq_getElem within]

theorem interpolation_ok (quote : UInt8) (fstring : Bool) (frame : Frame) (len : Nat)
    (opened : Frame.interpolation language quote fstring (sign c :: encode rest) =
      some (frame, len)) : FrameOk (done ++ [c]) frame ∧ Reaches rest (len - 1) := by
  have opener (d : Char) (ascii : d.toNat < 0x80) : ∀ b ∈ some (sign d), Low b := by
    rintro b ⟨⟩
    exact low_sign d ascii
  simp only [Frame.interpolation] at opened
  split_ifs at opened with paren tick brace curly
  · obtain ⟨rfl, rfl⟩ := Prod.mk.inj (Option.some.inj opened)
    simp only [Bool.and_eq_true] at paren
    refine ⟨⟨low_sign ')' (by decide), opener '(' (by decide)⟩, ?_⟩
    exact reaches_starts c rest (sign '$') [sign '('] (by
      intro b listed
      rw [List.mem_singleton.1 listed]
      exact low_sign '(' (by decide)) paren.2
  · obtain ⟨rfl, rfl⟩ := Prod.mk.inj (Option.some.inj opened)
    refine ⟨⟨low_sign '\x60' (by decide), ?_⟩, reaches_zero rest⟩
    rintro opener ⟨⟩
  · obtain ⟨rfl, rfl⟩ := Prod.mk.inj (Option.some.inj opened)
    simp only [Bool.and_eq_true] at brace
    refine ⟨⟨low_sign '\x7d' (by decide), opener '\x7b' (by decide)⟩, ?_⟩
    exact reaches_starts c rest (sign '$') [sign '\x7b'] (by
      intro b listed
      rw [List.mem_singleton.1 listed]
      exact low_sign '\x7b' (by decide)) brace.2
  · obtain ⟨rfl, rfl⟩ := Prod.mk.inj (Option.some.inj opened)
    exact ⟨⟨low_sign '\x7d' (by decide), opener '\x7b' (by decide)⟩, reaches_zero rest⟩

theorem frames_more (stack : List Frame) (frames : ∀ frame ∈ stack, FrameOk done frame) :
    ∀ frame ∈ stack, FrameOk (done ++ [c]) frame :=
  fun frame listed => frameOk_more done [c] frame (frames frame listed)

theorem frames_cons (frame : Frame) (stack : List Frame) (ok : FrameOk (done ++ [c]) frame)
    (frames : ∀ frame ∈ stack, FrameOk done frame) :
    ∀ other ∈ frame :: stack, FrameOk (done ++ [c]) other :=
  List.forall_mem_cons.2 ⟨ok, frames_more done c stack frames⟩

/-- The hashes behind a raw string's closing quote are ASCII. -/
theorem reaches_hashes (count : Nat) (within : count ≤ (encode rest).length)
    (hashes : ((encode rest).take count).all (· = sign '#') = true) : Reaches rest count := by
  cases count with
  | zero => exact reaches_zero rest
  | succ n =>
    have held : (encode rest)[n]? = some (encode rest)[n] := List.getElem?_eq_getElem within
    refine reaches_after rest n _ held ?_
    have listed : (encode rest)[n] ∈ (encode rest).take (n + 1) :=
      List.mem_take_iff_getElem.2 ⟨n, by omega, rfl⟩
    rw [of_decide_eq_true (List.all_eq_true.1 hashes _ listed)]
    exact low_sign '#' (by decide)

theorem moved_inString (held : StrFrame) (outer : List Frame) (scan : Scanner) (state : Reading)
    (blank : scan.blank = 0) (copy : scan.copy = 0) (whole : scan.stack = .str held :: outer)
    (frames : ∀ frame ∈ scan.stack, FrameOk done frame)
    (ok : ReadingOk state) :
    Moved language done c rest scan
      (Scanner.inString language (sign c) (encode rest) held outer scan) state := by
  have inner : FrameOk done (.str held) := frames _ (by rw [whole]; exact List.mem_cons_self)
  have behind : ∀ frame ∈ outer, FrameOk done frame :=
    fun frame listed => frames frame (by rw [whole]; exact List.mem_cons_of_mem _ listed)
  have marked (escaped : Bool) : ∀ frame ∈ Frame.str { held with escaped } :: outer,
      FrameOk (done ++ [c]) frame :=
    frames_cons done c _ outer ⟨inner.1, reaches_more done [c] _ inner.2⟩ behind
  have shown : (if language = Language.yaml then sign c else blankByte) = sign c ∨
      (if language = Language.yaml then sign c else blankByte) = blankByte := by
    split_ifs
    · exact .inl rfl
    · exact .inr rfl
  rw [Scanner.inString]
  generalize (if language = Language.yaml then sign c else blankByte) = b at shown ⊢
  by_cases escaped : held.escaped = true
  · rw [if_pos escaped]
    exact ⟨⟨b, shown, rfl⟩, marked false, ok, pending_none language rest _ _ blank copy⟩
  rw [if_neg escaped]
  by_cases closed : Scanner.closes (sign c) (encode rest) held = true
  · rw [if_pos closed]
    simp only [Scanner.closes, Bool.and_eq_true, decide_eq_true_eq, Bool.or_eq_true,
      Bool.not_eq_true'] at closed
    have reached : Reaches rest (if held.triple = true then 2 else held.raw.getD 0) := by
      by_cases three : held.triple = true
      · have starts := closed.1.1.2.resolve_left (by simp [three])
        rw [if_pos three]
        exact reaches_starts c rest held.quote [held.quote, held.quote] (by
          intro b listed
          simp only [List.mem_cons, List.not_mem_nil, or_false, or_self] at listed
          rw [listed]
          exact inner.1) starts
      · rw [if_neg three]
        exact reaches_hashes rest _ closed.1.2 closed.2
    exact ⟨⟨sign c, .inl rfl, rfl⟩, frames_more done c outer behind, ok,
      pending_copy language rest _ _ blank reached⟩
  rw [if_neg closed]
  by_cases doubled : (held.fstring && startsWith (ascii "\x7b\x7b") (sign c :: encode rest)) = true
  · rw [if_pos doubled]
    rw [Bool.and_eq_true] at doubled
    refine ⟨⟨b, shown, rfl⟩, frames_more done c _ frames, ok,
      pending_blank language rest _ _ copy ?_⟩
    exact reaches_starts c rest (sign '\x7b') [sign '\x7b'] (by
      intro b listed
      rw [List.mem_singleton.1 listed]
      exact low_sign '\x7b' (by decide)) doubled.2
  rw [if_neg doubled]
  cases opened : Frame.interpolation language held.quote held.fstring (sign c :: encode rest) with
  | some found =>
    obtain ⟨code, len⟩ := found
    obtain ⟨inner', reaches⟩ := interpolation_ok language done c rest _ _ code len opened
    exact ⟨⟨sign c, .inl rfl, rfl⟩, frames_cons done c code _ inner' (whole ▸ frames), ok,
      pending_copy language rest _ _ blank reaches⟩
  | none =>
    dsimp only
    by_cases slash : Scanner.escapes language (sign c) (encode rest) held = true
    · rw [if_pos slash]
      exact ⟨⟨b, shown, rfl⟩, marked true, ok, pending_none language rest _ _ blank copy⟩
    · rw [if_neg slash]
      exact ⟨⟨b, shown, rfl⟩, frames_more done c _ frames, ok,
        pending_none language rest _ _ blank copy⟩

theorem trackCode_same (before : Bytes) (byte : UInt8) (after : Bytes) (scan : Scanner) :
    (Scanner.trackCode language before byte after scan).out = scan.out ∧
      (Scanner.trackCode language before byte after scan).blank = scan.blank ∧
      (Scanner.trackCode language before byte after scan).copy = scan.copy := by
  rw [Scanner.trackCode]
  split
  · dsimp only
    split_ifs
    all_goals exact ⟨rfl, rfl, rfl⟩
  · exact ⟨rfl, rfl, rfl⟩

theorem trackCases_ends (before : Bytes) (byte : UInt8) (after : Bytes) (held : CodeFrame) :
    (Scanner.trackCases language before byte after held).close = held.close ∧
      (Scanner.trackCases language before byte after held).opener = held.opener := by
  rw [Scanner.trackCases]
  split_ifs <;> exact ⟨rfl, rfl⟩

theorem trackBrackets_ends (byte : UInt8) (held : CodeFrame) :
    (Scanner.trackBrackets language byte held).close = held.close ∧
      (Scanner.trackBrackets language byte held).opener = held.opener := by
  rw [Scanner.trackBrackets]
  split_ifs <;> exact ⟨rfl, rfl⟩

theorem trackCode_frames (before : Bytes) (byte : UInt8) (after : Bytes) (scan : Scanner)
    (frames : ∀ frame ∈ scan.stack, FrameOk done frame) :
    ∀ frame ∈ (Scanner.trackCode language before byte after scan).stack, FrameOk done frame := by
  rw [Scanner.trackCode]
  split
  · next held outer whole =>
    have inner : FrameOk done (.code held) := frames _ (by rw [whole]; exact List.mem_cons_self)
    have behind : ∀ frame ∈ outer, FrameOk done frame :=
      fun frame listed => frames frame (by rw [whole]; exact List.mem_cons_of_mem _ listed)
    have cases' := trackCases_ends language before byte after held
    have brackets := trackBrackets_ends language byte
      (Scanner.trackCases language before byte after held)
    have ok (other : CodeFrame) (close : other.close = held.close)
        (opener : other.opener = held.opener) :
        ∀ frame ∈ Frame.code other :: outer, FrameOk done frame :=
      List.forall_mem_cons.2 ⟨⟨close ▸ inner.1, opener ▸ inner.2⟩, behind⟩
    dsimp only
    split_ifs
    · exact ok _ (brackets.1.trans cases'.1) (brackets.2.trans cases'.2)
    · exact behind
    · exact ok _ (brackets.1.trans cases'.1) (brackets.2.trans cases'.2)
    · exact ok _ (brackets.1.trans cases'.1) (brackets.2.trans cases'.2)
  · exact frames

theorem regexEnd_slash (inClass escaped : Bool) (seen n : Nat) (bytes : Bytes)
    (ends : regexEnd inClass escaped seen bytes = some n) :
    ∃ i, bytes[i]? = some (sign '/') ∧ n = seen + i + 1 := by
  induction bytes generalizing inClass escaped seen with
  | nil => cases ends
  | cons b rest ih =>
    have later (inClass escaped : Bool)
        (ends : regexEnd inClass escaped (seen + 1) rest = some n) :
        ∃ i, (b :: rest)[i]? = some (sign '/') ∧ n = seen + i + 1 := by
      obtain ⟨i, held, count⟩ := ih inClass escaped (seen + 1) ends
      exact ⟨i + 1, held, by omega⟩
    rw [regexEnd] at ends
    split_ifs at ends with one two three four five
    · exact later _ _ ends
    · exact later _ _ ends
    · exact later _ _ ends
    · exact later _ _ ends
    · rw [Bool.and_eq_true, decide_eq_true_eq] at five
      exact ⟨0, by rw [five.1]; rfl, (Option.some.inj ends).symm⟩
    · exact later _ _ ends

theorem charLiteral_reaches (close : Nat)
    (literal : Scanner.charLiteral language (sign c) (encode rest) = some close) :
    Reaches rest close := by
  rw [Scanner.charLiteral] at literal
  have low : Low (sign '\'') := low_sign '\'' (by decide)
  split_ifs at literal with escaped held
  · obtain rfl := Option.some.inj literal
    simp only [Bool.and_eq_true, decide_eq_true_eq] at held
    exact reaches_after rest 2 _ held.2 low
  · next held =>
    obtain rfl := Option.some.inj literal
    simp only [Bool.and_eq_true, decide_eq_true_eq] at held
    exact reaches_after rest 1 _ held.2 low

variable (plain : c.toNat < 0x80)
include plain

theorem starts_ok (held : StrFrame) (quote : held.quote = sign c)
    (start : held.start = (encode done).length) : FrameOk (done ++ [c]) (.str held) := by
  refine ⟨?_, ?_⟩
  · rw [quote]
    exact low_sign c plain
  · rw [start]
    exact ⟨done, [c], rfl, rfl⟩

theorem moved_inPlainCode (scan scan' : Scanner) (state state' : Reading)
    (blank : scan.blank = 0) (copy : scan.copy = 0)
    (frames : ∀ frame ∈ scan.stack, FrameOk done frame)
    (ok : ReadingOk state)
    (stepped : Scanner.inPlainCode language (encode done) (sign c) (encode rest) scan state =
      some (scan', state')) : Moved language done c rest scan scan' state' := by
  have thrice (starts : startsWith (List.replicate 3 (sign c)) (sign c :: encode rest) = true) :
      Reaches rest 2 :=
    reaches_starts c rest (sign c) [sign c, sign c] (by
      intro b listed
      simp only [List.mem_cons, List.not_mem_nil, or_false, or_self] at listed
      rw [listed]
      exact low_sign c plain) starts
  rw [Scanner.inPlainCode] at stepped
  by_cases hash : (!decide (scan.stack ≠ []) && decide (sign c = sign '#') &&
      isCommentStart language (encode done)) = true
  · rw [if_pos hash] at stepped
    cases stepped
  rw [if_neg hash] at stepped
  by_cases three : (decide (language = .python) &&
      (decide (sign c = sign '"') || decide (sign c = sign '\'')) &&
        startsWith (List.replicate 3 (sign c)) (sign c :: encode rest)) = true
  · rw [if_pos three] at stepped
    rw [Bool.and_eq_true] at three
    by_cases nested : scan.stack = []
    · rw [if_neg (not_not.2 nested)] at stepped
      obtain ⟨rfl, rfl⟩ := Prod.mk.inj (Option.some.inj stepped)
      refine ⟨⟨sign c, .inl rfl, rfl⟩, frames_more done c _ frames, ?_,
        pending_copy language rest _ _ blank (thrice three.2)⟩
      refine ⟨?_, ok.2⟩
      rintro quote ⟨⟩
      exact low_sign c plain
    · rw [if_pos nested] at stepped
      obtain ⟨rfl, rfl⟩ := Prod.mk.inj (Option.some.inj stepped)
      refine ⟨⟨sign c, .inl rfl, rfl⟩, ?_, ok,
        pending_copy language rest _ _ blank (thrice three.2)⟩
      exact frames_cons done c _ _ (starts_ok done c plain _ rfl rfl) frames
  rw [if_neg three] at stepped
  cases literal : Scanner.charLiteral language (sign c) (encode rest) with
  | some close =>
    rw [literal] at stepped
    obtain ⟨rfl, rfl⟩ := Prod.mk.inj (Option.some.inj stepped)
    exact ⟨⟨blankByte, .inr rfl, rfl⟩, frames_more done c _ frames, ok,
      pending_blank language rest _ _ copy (charLiteral_reaches language c rest close literal)⟩
  | none =>
    rw [literal] at stepped
    dsimp only at stepped
    split_ifs at stepped with opens
    · obtain ⟨rfl, rfl⟩ := Prod.mk.inj (Option.some.inj stepped)
      refine ⟨⟨sign c, .inl rfl, rfl⟩, ?_, ok, pending_none language rest _ _ blank copy⟩
      exact frames_cons done c _ _ (starts_ok done c plain _ rfl rfl) frames
    · obtain ⟨rfl, rfl⟩ := Prod.mk.inj (Option.some.inj stepped)
      obtain ⟨out, blank', copy'⟩ :=
        trackCode_same language (encode done) (sign c) (encode rest) scan
      refine ⟨⟨sign c, .inl rfl, congrArg (· ++ [sign c]) out⟩, ?_, ok,
        pending_none language rest _ _ (blank'.trans blank) (copy'.trans copy)⟩
      exact frames_more done c _
        (trackCode_frames language done (encode done) (sign c) (encode rest) scan frames)

theorem moved_inCode (scan scan' : Scanner) (state state' : Reading)
    (blank : scan.blank = 0) (copy : scan.copy = 0)
    (frames : ∀ frame ∈ scan.stack, FrameOk done frame)
    (ok : ReadingOk state)
    (kept : keeps language scan state = true)
    (stepped : Scanner.inCode language (encode done) (sign c) (encode rest) scan state =
      some (scan', state')) : Moved language done c rest scan scan' state' := by
  rw [Scanner.inCode] at stepped
  split_ifs at stepped with slash line comment nested regex
  · obtain ⟨rfl, rfl⟩ := Prod.mk.inj (Option.some.inj stepped)
    exact ⟨⟨sign c, .inl rfl, rfl⟩, frames_more done c _ frames, ok,
      .inr ⟨blank, rfl, kept⟩⟩
  · obtain ⟨rfl, rfl⟩ := Prod.mk.inj (Option.some.inj stepped)
    simp only [Bool.and_eq_true] at comment
    refine ⟨⟨blankByte, .inr rfl, rfl⟩, frames_cons done c .comment _ trivial frames, ok,
      pending_blank language rest _ _ copy ?_⟩
    exact reaches_starts c rest (sign '/') [sign '*'] (by
      intro b listed
      rw [List.mem_singleton.1 listed]
      exact low_sign '*' (by decide)) comment.2
  · obtain ⟨rfl, rfl⟩ := Prod.mk.inj (Option.some.inj stepped)
    simp only [Bool.and_eq_true] at comment
    refine ⟨⟨blankByte, .inr rfl, rfl⟩, frames_more done c _ frames, ok,
      pending_blank language rest _ _ copy ?_⟩
    exact reaches_starts c rest (sign '/') [sign '*'] (by
      intro b listed
      rw [List.mem_singleton.1 listed]
      exact low_sign '*' (by decide)) comment.2
  · cases ends : regexLen (sign c :: encode rest) with
    | some len =>
      rw [ends] at stepped
      obtain ⟨rfl, rfl⟩ := Prod.mk.inj (Option.some.inj stepped)
      obtain ⟨i, held, count⟩ := regexEnd_slash false false 1 len _ ends
      have short : len - 2 = i := by omega
      refine ⟨⟨sign c, .inl rfl, rfl⟩, frames_more done c _ frames, ok, .inl ⟨?_, ?_⟩⟩
      · exact short ▸ reaches_at rest i _ held (low_sign '/' (by decide))
      · exact short ▸ reaches_after rest i _ held (low_sign '/' (by decide))
    | none =>
      rw [ends] at stepped
      obtain ⟨out, frames', ok', pending⟩ := moved_inPlainCode language done c rest plain
        { scan with noRegex := true } scan' state state' blank copy frames ok stepped
      exact ⟨out, frames', ok', pending⟩
  · exact moved_inPlainCode language done c rest plain scan scan' state state' blank copy frames
      ok stepped

/-- A character of one byte. -/
theorem ascii_step (scan scan' : Scanner) (state state' : Reading)
    (between : Between language done (c :: rest) scan state)
    (stepped : Scanner.step language (encode done) (sign c) (encode rest) scan state =
      some (scan', state')) : Moved language done c rest scan scan' state' := by
  obtain ⟨-, frames, ok, pending⟩ := between
  have single : (String.utf8EncodeChar c).length = 1 := by rw [encodeChar_low c plain]; rfl
  have past (count : Nat) (positive : 0 < count) (reaches : Reaches (c :: rest) count) :
      Reaches rest (count - 1) := by
    have later := (reaches_cons c rest count positive reaches).2
    rwa [single] at later
  rw [Scanner.step] at stepped
  by_cases blank : 0 < scan.blank
  · rw [if_pos blank] at stepped
    obtain ⟨rfl, rfl⟩ := Prod.mk.inj (Option.some.inj stepped)
    rcases pending with ⟨reaches, beyond⟩ | ⟨absent, -, -⟩
    · refine ⟨⟨blankByte, .inr rfl, rfl⟩, frames_more done c _ frames, ok,
        .inl ⟨past _ blank reaches, ?_⟩⟩
      have later := past _ (by omega) beyond
      rwa [Nat.sub_add_comm blank] at later
    · omega
  rw [if_neg blank] at stepped
  have blank' : scan.blank = 0 := by omega
  by_cases copy : 0 < scan.copy
  · rw [if_pos copy] at stepped
    obtain ⟨rfl, rfl⟩ := Prod.mk.inj (Option.some.inj stepped)
    refine ⟨⟨sign c, .inl rfl, rfl⟩, frames_more done c _ frames, ok, ?_⟩
    rcases pending with ⟨-, beyond⟩ | ⟨-, one, -⟩
    · rw [blank', Nat.zero_add] at beyond
      exact pending_copy language rest _ _ blank' (past _ copy beyond)
    · refine pending_none language rest _ _ blank' ?_
      change scan.copy - 1 = 0
      omega
  rw [if_neg copy] at stepped
  have copy' : scan.copy = 0 := by omega
  have blanked (scan'' : Scanner) (state'' : Reading) (out : scan''.out = scan.out ++ [blankByte])
      (frames' : ∀ frame ∈ scan''.stack, FrameOk done frame) (ok' : ReadingOk state'')
      (pending' : Pending language rest scan'' state'') :
      Moved language done c rest scan scan'' state'' :=
    ⟨⟨blankByte, .inr rfl, out⟩, frames_more done c _ frames', ok', pending'⟩
  have closed (starts : startsWith (ascii "*/") (sign c :: encode rest) = true) :
      Reaches rest 1 :=
    reaches_starts c rest (sign '*') [sign '/'] (by
      intro b listed
      rw [List.mem_singleton.1 listed]
      exact low_sign '/' (by decide)) starts
  by_cases block : state.inBlockComment = true
  · rw [if_pos block] at stepped
    split_ifs at stepped with shut
    · obtain ⟨rfl, rfl⟩ := Prod.mk.inj (Option.some.inj stepped)
      exact blanked _ _ rfl frames ok (pending_blank language rest _ _ copy' (closed shut))
    · obtain ⟨rfl, rfl⟩ := Prod.mk.inj (Option.some.inj stepped)
      exact blanked _ _ rfl frames ok (pending_none language rest _ _ blank' copy')
  rw [if_neg block] at stepped
  cases within : state.inTriple with
  | some quote =>
    rw [within] at stepped
    dsimp only at stepped
    split_ifs at stepped with shut
    · obtain ⟨rfl, rfl⟩ := Prod.mk.inj (Option.some.inj stepped)
      refine ⟨⟨sign c, .inl rfl, rfl⟩, frames_more done c _ frames, ⟨?_, ok.2⟩,
        pending_copy language rest _ _ blank' ?_⟩
      · rintro other ⟨⟩
      · exact reaches_starts c rest quote [quote, quote] (by
          intro b listed
          simp only [List.mem_cons, List.not_mem_nil, or_false, or_self] at listed
          rw [listed]
          exact ok.1 quote within) shut
    · obtain ⟨rfl, rfl⟩ := Prod.mk.inj (Option.some.inj stepped)
      exact blanked _ _ rfl frames ok (pending_none language rest _ _ blank' copy')
  | none =>
    rw [within] at stepped
    cases whole : scan.stack with
    | nil =>
      rw [whole] at stepped
      exact moved_inCode language done c rest plain scan scan' state state' blank' copy' frames ok
        (by simp [keeps, block, within, whole]) stepped
    | cons frame outer =>
      have behind : ∀ frame ∈ outer, FrameOk done frame :=
        fun frame listed => frames frame (by rw [whole]; exact List.mem_cons_of_mem _ listed)
      rw [whole] at stepped
      cases frame with
      | comment =>
        dsimp only at stepped
        split_ifs at stepped with shut
        · obtain ⟨rfl, rfl⟩ := Prod.mk.inj (Option.some.inj stepped)
          exact blanked _ _ rfl behind ok (pending_blank language rest _ _ copy' (closed shut))
        · obtain ⟨rfl, rfl⟩ := Prod.mk.inj (Option.some.inj stepped)
          exact blanked _ _ rfl frames ok (pending_none language rest _ _ blank' copy')
      | str held =>
        obtain ⟨rfl, rfl⟩ := Prod.mk.inj (Option.some.inj stepped)
        exact moved_inString language done c rest held outer scan state blank' copy' whole frames ok
      | code held =>
        dsimp only at stepped
        by_cases spec : held.spec = true
        · rw [if_pos spec] at stepped
          cases opened : Frame.interpolation language (sign '"') true (sign c :: encode rest) with
          | some found =>
            obtain ⟨frame, len⟩ := found
            rw [opened] at stepped
            obtain ⟨rfl, rfl⟩ := Prod.mk.inj (Option.some.inj stepped)
            exact ⟨⟨sign c, .inl rfl, rfl⟩, frames_cons done c frame _
                (interpolation_ok language done c rest _ _ frame len opened).1 (whole ▸ frames), ok,
              pending_none language rest _ _ blank' copy'⟩
          | none =>
            rw [opened] at stepped
            dsimp only at stepped
            split_ifs at stepped with shut
            · obtain ⟨rfl, rfl⟩ := Prod.mk.inj (Option.some.inj stepped)
              exact ⟨⟨sign c, .inl rfl, rfl⟩, frames_more done c _ behind, ok,
                pending_none language rest _ _ blank' copy'⟩
            · obtain ⟨rfl, rfl⟩ := Prod.mk.inj (Option.some.inj stepped)
              exact blanked _ _ rfl frames ok (pending_none language rest _ _ blank' copy')
        · rw [if_neg spec] at stepped
          exact moved_inCode language done c rest plain scan scan' state state' blank' copy' frames
            ok (by simp [keeps, block, within, whole, spec]) stepped

end Ascii

section Run
variable (language : Language)

theorem run_blank (before bytes after : Bytes) (scan : Scanner) (state : Reading)
    (enough : bytes.length ≤ scan.blank) :
    Scanner.run language before (bytes ++ after) scan state =
      Scanner.run language (before ++ bytes) after
        { scan with out := scan.out ++ blanks bytes.length, blank := scan.blank - bytes.length }
        state := by
  induction bytes generalizing before scan with
  | nil => simp [blanks]
  | cons byte bytes ih =>
    rw [List.length_cons] at enough
    have stepped : Scanner.step language before byte (bytes ++ after) scan state =
        some (({ scan with blank := scan.blank - 1 } : Scanner).push blankByte, state) := by
      rw [Scanner.step, if_pos (by omega)]
    rw [List.cons_append, Scanner.run, stepped]
    dsimp only
    rw [ih _ _ (by simp only [Scanner.push]; omega), List.append_assoc, List.singleton_append]
    congr 1
    simp only [Scanner.push, blanks, List.length_cons, List.replicate_succ, List.append_assoc,
      Scanner.mk.injEq, and_true, true_and]
    exact ⟨rfl, by omega⟩

theorem run_copy (before bytes after : Bytes) (scan : Scanner) (state : Reading)
    (blank : scan.blank = 0) (enough : bytes.length ≤ scan.copy) :
    Scanner.run language before (bytes ++ after) scan state =
      Scanner.run language (before ++ bytes) after
        { scan with out := scan.out ++ bytes, copy := scan.copy - bytes.length } state := by
  induction bytes generalizing before scan with
  | nil => simp
  | cons byte bytes ih =>
    rw [List.length_cons] at enough
    have stepped : Scanner.step language before byte (bytes ++ after) scan state =
        some (({ scan with copy := scan.copy - 1 } : Scanner).push byte, state) := by
      rw [Scanner.step, if_neg (by omega), if_pos (by omega)]
    rw [List.cons_append, Scanner.run, stepped]
    dsimp only
    rw [ih (before ++ [byte]) (({ scan with copy := scan.copy - 1 } : Scanner).push byte) blank
      (by simp only [Scanner.push]; omega), List.append_assoc, List.singleton_append]
    congr 1
    simp only [Scanner.push, List.length_cons, List.append_assoc, Scanner.mk.injEq, and_true,
      true_and]
    exact ⟨rfl, by omega⟩

/-- The bytes of a longer character with nothing pending: all are kept, or all are blanked. -/
theorem run_high (done : Str) (before bytes after : Bytes) (scan : Scanner) (state : Reading)
    (high : ∀ byte ∈ bytes, 0x80 ≤ byte.toNat) (blank : scan.blank = 0) (copy : scan.copy = 0)
    (frames : ∀ frame ∈ scan.stack, FrameOk done frame) (ok : ReadingOk state) :
    ∃ stack, Scanner.run language before (bytes ++ after) scan state =
        Scanner.run language (before ++ bytes) after
          { scan with
            out := scan.out ++ if keeps language scan state then bytes else blanks bytes.length
            stack }
          state ∧
      ∀ frame ∈ stack, FrameOk done frame := by
  induction bytes generalizing before scan with
  | nil => exact ⟨scan.stack, by simp [blanks], frames⟩
  | cons byte bytes ih =>
    obtain ⟨first, later⟩ := List.forall_mem_cons.1 high
    obtain ⟨stack, stepped, frames', kept⟩ := high_step language before byte (bytes ++ after) first
      scan state blank copy done frames ok
    obtain ⟨stack', runs, frames''⟩ := ih (before ++ [byte])
      (({ scan with stack } : Scanner).push
        (if keeps language scan state then byte else blankByte)) later blank copy frames'
    refine ⟨stack', ?_, frames''⟩
    rw [List.cons_append, Scanner.run, stepped]
    dsimp only
    rw [runs, List.append_assoc, List.singleton_append]
    congr 1
    have kept' : keeps language (({ scan with stack } : Scanner).push
        (if keeps language scan state then byte else blankByte)) state =
        keeps language scan state := kept
    rw [kept']
    simp only [Scanner.push, List.append_assoc, Scanner.mk.injEq, and_true]
    cases keeps language scan state <;> rfl

/-- A character of several bytes. -/
theorem char_run (done : Str) (c : Char) (rest : Str) (high : ¬ c.toNat < 0x80) (scan : Scanner)
    (state : Reading) (between : Between language done (c :: rest) scan state) :
    ∃ scan', Scanner.run language (encode done) (encode (c :: rest)) scan state =
        Scanner.run language (encode (done ++ [c])) (encode rest) scan' state ∧
      Between language (done ++ [c]) rest scan' state := by
  obtain ⟨masked, frames, ok, pending⟩ := between
  have whole : encode (done ++ [c]) = encode done ++ String.utf8EncodeChar c := by
    rw [encode_append, encode_cons]
    exact congrArg _ (List.append_nil _)
  have bytes := encodeChar_high c (by omega)
  have kept : Masked (done ++ [c]) (scan.out ++ String.utf8EncodeChar c) := by
    have one := Masked.keep c [] [] .nil
    rw [List.append_nil] at one
    exact masked.append done [c] scan.out _ one
  have blanked : Masked (done ++ [c]) (scan.out ++ blanks (String.utf8EncodeChar c).length) := by
    have one := Masked.blank c [] [] .nil
    rw [List.append_nil] at one
    exact masked.append done [c] scan.out _ one
  have frames' := fun frame listed => frameOk_more done [c] frame (frames frame listed)
  rw [encode_cons, whole]
  by_cases blank : 0 < scan.blank
  · rcases pending with ⟨reaches, beyond⟩ | ⟨absent, -, -⟩
    · obtain ⟨enough, left⟩ := reaches_cons c rest _ blank reaches
      obtain ⟨-, left'⟩ := reaches_cons c rest _ (by omega) beyond
      refine ⟨_, run_blank language _ _ _ scan state enough, blanked, frames', ok, .inl ⟨left, ?_⟩⟩
      rwa [Nat.sub_add_comm enough] at left'
    · omega
  have blank' : scan.blank = 0 := by omega
  by_cases copy : 0 < scan.copy
  · rcases pending with ⟨-, beyond⟩ | ⟨-, one, keep⟩
    · rw [blank', Nat.zero_add] at beyond
      obtain ⟨enough, left⟩ := reaches_cons c rest _ copy beyond
      exact ⟨_, run_copy language _ _ _ scan state blank' enough, kept, frames', ok,
        pending_copy language rest _ _ blank' left⟩
    · obtain ⟨first, tail, split⟩ := List.exists_cons_of_length_pos (encodeChar_pos c)
      rw [split, ← List.singleton_append, List.append_assoc,
        run_copy language _ [first] _ scan state blank' (by rw [one]; rfl)]
      rw [split] at bytes kept
      obtain ⟨stack, runs, frames''⟩ := run_high language done (encode done ++ [first]) tail
        (encode rest)
        { scan with out := scan.out ++ [first], copy := scan.copy - [first].length } state
        (fun byte listed => bytes byte (List.mem_cons_of_mem _ listed)) blank'
        (by rw [one]; rfl) frames ok
      have same : keeps language
          { scan with out := scan.out ++ [first], copy := scan.copy - [first].length } state =
            true := keep
      rw [same, if_pos rfl, List.append_assoc, List.append_assoc] at runs
      exact ⟨_, runs, kept, fun frame listed => frameOk_more done [c] frame (frames'' frame listed),
        ok, pending_none language rest _ _ blank' (by simp [one])⟩
  · obtain ⟨stack, runs, frames''⟩ := run_high language done (encode done)
      (String.utf8EncodeChar c) (encode rest) scan state bytes blank' (by omega) frames ok
    refine ⟨_, runs, ?_, fun frame listed => frameOk_more done [c] frame (frames'' frame listed), ok,
      pending_none language rest _ _ blank' (by change scan.copy = 0; omega)⟩
    cases keeps language scan state
    · exact blanked
    · exact kept

/-- A scan shows the line up to where it stops, each character whole. -/
theorem run_masked (done rest : Str) (scan : Scanner) (state : Reading)
    (between : Between language done rest scan state) :
    ∃ shown, shown <+: done ++ rest ∧
      Masked shown (Scanner.run language (encode done) (encode rest) scan state).1.out ∧
      (∀ frame ∈ (Scanner.run language (encode done) (encode rest) scan state).1.stack,
        FrameOk shown frame) ∧
      ReadingOk (Scanner.run language (encode done) (encode rest) scan state).2 := by
  induction rest generalizing done scan state with
  | nil =>
    exact ⟨done, by rw [List.append_nil], between.masked, between.frames, between.reading⟩
  | cons c rest ih =>
    have onward : done ++ c :: rest = done ++ [c] ++ rest := by
      rw [List.append_assoc, List.singleton_append]
    by_cases plain : c.toNat < 0x80
    · have single : encode (c :: rest) = sign c :: encode rest := by
        rw [encode_cons, encodeChar_low c plain]
        rfl
      rw [single, Scanner.run]
      cases stepped : Scanner.step language (encode done) (sign c) (encode rest) scan state with
      | none =>
        exact ⟨done, List.prefix_append .., between.masked, between.frames, between.reading⟩
      | some next =>
        obtain ⟨scan', state'⟩ := next
        obtain ⟨⟨b, shown, out⟩, frames, ok, pending⟩ :=
          ascii_step language done c rest plain scan scan' state state' between stepped
        have low := encodeChar_low c plain
        have masked : Masked (done ++ [c]) scan'.out := by
          rw [out]
          refine between.masked.append done [c] scan.out [b] ?_
          rcases shown with rfl | rfl
          · have one := Masked.keep c [] [] .nil
            rwa [low] at one
          · have one := Masked.blank c [] [] .nil
            rwa [low] at one
        have moved := ih (done ++ [c]) scan' state' ⟨masked, frames, ok, pending⟩
        have read : encode (done ++ [c]) = encode done ++ [sign c] := by
          rw [encode_append, encode_cons, low]
          rfl
        rwa [onward, ← read]
    · obtain ⟨scan', runs, between'⟩ := char_run language done c rest plain scan state between
      rw [runs, onward]
      exact ih (done ++ [c]) scan' state between'

end Run

end DeepDiffForge.Graph
