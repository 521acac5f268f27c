import Mathlib.Algebra.Group.Nat.Defs
import Mathlib.Data.List.Basic
import Mathlib.Data.List.DropRight

/-! Strings as lists of characters: prefixes, searches, and the lines of a text. A text read
from a well-formed UTF-8 source is the list of its scalar values, so every operation that looks
for an ASCII character agrees with the one on its bytes. -/

namespace DeepDiffForge.Text

abbrev Str := List Char

instance : LawfulBEq Str := inferInstance

theorem literal_list {text : String} {letters : Str} (same : text = String.ofList letters) :
    text.toList = letters := by
  rw [same, String.toList_ofList]

/-- What a literal holds is read off its letters. -/
theorem literal_free {text : String} {letters : Str} (c : Char)
    (same : text = String.ofList letters) (free : letters.all (· ≠ c) = true) :
    c ∉ text.toList := by
  rw [literal_list same]
  intro listed
  simpa using List.all_eq_true.1 free c listed

theorem literal_shape (text : String) {letters : Str} (test : Char → Bool) (width : Nat)
    (same : text = String.ofList letters)
    (shape : letters.all test = true ∧ letters.length = width) :
    text.toList.all test = true ∧ text.toList.length = width := by
  rw [literal_list same]
  exact shape

theorem takeWhile_run {α : Type} (test : α → Bool) (run rest : List α)
    (all : ∀ item ∈ run, test item = true) (stop : ∀ item ∈ rest.head?, test item = false) :
    (run ++ rest).takeWhile test = run ∧ (run ++ rest).dropWhile test = rest := by
  rw [List.takeWhile_append_of_pos all, List.dropWhile_append_of_pos all]
  cases rest with
  | nil => simp
  | cons item rest =>
    have off := stop item rfl
    rw [List.takeWhile_cons_of_neg (by simp [off]), List.dropWhile_cons_of_neg (by simp [off])]
    simp

theorem dropWhile_stops {α : Type} (test : α → Bool) (items : List α) :
    ∀ item ∈ (items.dropWhile test).head?, test item = false := by
  intro item head
  have stopped := List.head?_dropWhile_not test items
  rw [Option.mem_def.1 head] at stopped
  exact stopped

section Generic
variable {α : Type} [DecidableEq α]

def stripPrefix : List α → List α → Option (List α)
  | [], rest => some rest
  | _ :: _, [] => none
  | x :: pre, y :: rest => if x = y then stripPrefix pre rest else none

def startsWith (pre whole : List α) : Bool := (stripPrefix pre whole).isSome

/-- The parts before and after the first `sep`. -/
def splitOnce (sep : α) : List α → Option (List α × List α)
  | [] => none
  | x :: rest =>
      if x = sep then some ([], rest)
      else (splitOnce sep rest).map (fun parts => (x :: parts.1, parts.2))

/-- The parts before and after the last `sep`. -/
def rsplitOnce (sep : α) : List α → Option (List α × List α)
  | [] => none
  | x :: rest =>
      match rsplitOnce sep rest with
      | some parts => some (x :: parts.1, parts.2)
      | none => if x = sep then some ([], rest) else none

def rfind (pat : List α) : List α → Option Nat
  | [] => if pat = [] then some 0 else none
  | x :: rest =>
      match rfind pat rest with
      | some place => some (place + 1)
      | none => if startsWith pat (x :: rest) then some 0 else none

def trimEnd (c : α) (whole : List α) : List α := whole.rdropWhile (· = c)

theorem stripPrefix_eq_some (pre whole rest : List α) :
    stripPrefix pre whole = some rest ↔ whole = pre ++ rest := by
  induction pre generalizing whole with
  | nil => simp [stripPrefix, eq_comm]
  | cons x pre ih =>
    cases whole with
    | nil => simp [stripPrefix]
    | cons y whole =>
      by_cases same : x = y
      · simp [stripPrefix, same, ih]
      · simp [stripPrefix, same, Ne.symm same]

@[simp] theorem stripPrefix_append (pre rest : List α) :
    stripPrefix pre (pre ++ rest) = some rest :=
  (stripPrefix_eq_some pre _ rest).2 rfl

theorem startsWith_iff (pre whole : List α) :
    startsWith pre whole = true ↔ ∃ rest, whole = pre ++ rest := by
  simp only [startsWith, Option.isSome_iff_exists, stripPrefix_eq_some]

@[simp] theorem startsWith_append (pre rest : List α) : startsWith pre (pre ++ rest) = true := by
  simp [startsWith]

theorem stripPrefix_eq_none (pre whole : List α) :
    stripPrefix pre whole = none ↔ startsWith pre whole = false := by
  simp [startsWith]

theorem startsWith_single (a : α) (whole : List α) :
    startsWith [a] whole = whole.head?.any (a = ·) := by
  cases whole with
  | nil => rfl
  | cons b rest =>
    by_cases same : a = b
    · simp [startsWith, stripPrefix, same]
    · simp [startsWith, stripPrefix, same]

theorem splitOnce_eq_some (sep : α) (whole before after : List α) :
    splitOnce sep whole = some (before, after) ↔
      whole = before ++ sep :: after ∧ sep ∉ before := by
  induction whole generalizing before with
  | nil => simp [splitOnce]
  | cons x whole ih =>
    by_cases same : x = sep
    · subst same
      cases before with
      | nil => simp [splitOnce, eq_comm]
      | cons y before => simp [splitOnce]; intro eq _ ne; exact (ne eq).elim
    · cases before with
      | nil => simp [splitOnce, same]
      | cons y before =>
        simp only [splitOnce, if_neg same, Option.map_eq_some_iff, Prod.mk.injEq, Prod.exists,
          List.cons_append, List.cons.injEq, List.mem_cons, not_or]
        constructor
        · rintro ⟨a, b, found, ⟨rfl, rfl⟩, rfl⟩
          obtain ⟨rfl, absent⟩ := (ih a).1 found
          exact ⟨⟨rfl, rfl⟩, Ne.symm same, absent⟩
        · rintro ⟨⟨rfl, rest⟩, _, absent⟩
          exact ⟨before, after, (ih before).2 ⟨rest, absent⟩, ⟨rfl, rfl⟩, rfl⟩

theorem splitOnce_eq_none (sep : α) (whole : List α) : splitOnce sep whole = none ↔ sep ∉ whole := by
  induction whole with
  | nil => simp [splitOnce]
  | cons x whole ih =>
    by_cases same : x = sep
    · simp [splitOnce, same]
    · simp [splitOnce, same, Ne.symm same, ih]

theorem cut_unique (c : α) (before before' after after' : List α) (first : c ∉ before)
    (first' : c ∉ before') (same : before ++ c :: after = before' ++ c :: after') :
    before = before' ∧ after = after' := by
  have one := (splitOnce_eq_some c (before ++ c :: after) before after).2 ⟨rfl, first⟩
  have two := (splitOnce_eq_some c (before ++ c :: after) before' after').2 ⟨same, first'⟩
  rw [one] at two
  exact Prod.mk.inj (Option.some.inj two)

theorem last_cut_unique (c : α) (before before' after after' : List α) (last : c ∉ after)
    (last' : c ∉ after') (same : before ++ c :: after = before' ++ c :: after') :
    before = before' ∧ after = after' := by
  have turned := congrArg List.reverse same
  simp only [List.reverse_append, List.reverse_cons, List.append_assoc,
    List.singleton_append] at turned
  obtain ⟨afters, befores⟩ := cut_unique c _ _ _ _ (by rwa [List.mem_reverse])
    (by rwa [List.mem_reverse]) turned
  exact ⟨List.reverse_injective befores, List.reverse_injective afters⟩

theorem trimEnd_of_getLast (c : α) (whole : List α) (last : whole.getLast? ≠ some c) :
    trimEnd c whole = whole := by
  unfold trimEnd
  rw [List.rdropWhile_eq_self_iff]
  intro nonempty eq
  apply last
  rw [List.getLast?_eq_some_getLast nonempty]
  simpa using eq

theorem trimEnd_eq_append (c : α) (whole : List α) :
    ∃ n, whole = trimEnd c whole ++ List.replicate n c := by
  induction whole using List.reverseRecOn with
  | nil => exact ⟨0, rfl⟩
  | append_singleton whole x ih =>
    by_cases same : x = c
    · obtain ⟨n, eq⟩ := ih
      refine ⟨n + 1, ?_⟩
      have trimmed : trimEnd c (whole ++ [x]) = trimEnd c whole := by
        simp [trimEnd, same]
      rw [trimmed, List.replicate_succ', ← List.append_assoc, ← eq, same]
    · refine ⟨0, ?_⟩
      simp [trimEnd, same]

theorem trimEnd_append (c : α) (pre rest : List α) (last : pre.getLast? ≠ some c) :
    trimEnd c (pre ++ rest) = pre ++ trimEnd c rest := by
  induction rest using List.reverseRecOn with
  | nil =>
    have empty : trimEnd c ([] : List α) = [] := rfl
    rw [List.append_nil, empty, List.append_nil, trimEnd_of_getLast c pre last]
  | append_singleton rest x ih =>
    rw [← List.append_assoc]
    by_cases same : x = c
    · simp only [trimEnd, same, decide_true, List.rdropWhile_concat_pos] at ih ⊢
      exact ih
    · simp [trimEnd, same]

theorem stripPrefix_trimEnd (c : α) (pre whole : List α) (last : pre.getLast? ≠ some c) :
    stripPrefix pre (trimEnd c whole) = (stripPrefix pre whole).map (trimEnd c) := by
  cases starts : stripPrefix pre whole with
  | some rest =>
    rw [(stripPrefix_eq_some pre whole rest).1 starts, trimEnd_append c pre rest last]
    simp
  | none =>
    rw [Option.map_none, stripPrefix_eq_none]
    by_contra kept
    rw [Bool.not_eq_false, startsWith_iff] at kept
    obtain ⟨rest, kept⟩ := kept
    obtain ⟨n, whole_eq⟩ := trimEnd_eq_append c whole
    rw [kept, List.append_assoc] at whole_eq
    rw [whole_eq, stripPrefix_append] at starts
    cases starts

theorem startsWith_trimEnd (c : α) (pre whole : List α) (last : pre.getLast? ≠ some c) :
    startsWith pre (trimEnd c whole) = startsWith pre whole := by
  simp [startsWith, stripPrefix_trimEnd c pre whole last]

/-- Of two beginnings of one list, one begins the other. -/
theorem startsWith_comparable (first second whole : List α) (one : startsWith first whole = true)
    (other : startsWith second whole = true) :
    startsWith first second = true ∨ startsWith second first = true := by
  simp only [startsWith_iff] at *
  obtain ⟨rest, same⟩ := one
  obtain ⟨rest', same'⟩ := other
  have left : first <+: whole := ⟨rest, same.symm⟩
  have right : second <+: whole := ⟨rest', same'.symm⟩
  rcases List.prefix_or_prefix_of_prefix left right with ⟨more, eq⟩ | ⟨more, eq⟩
  · exact .inl ⟨more, eq.symm⟩
  · exact .inr ⟨more, eq.symm⟩

theorem startsWith_apart (first second whole : List α) (one : startsWith first whole = true)
    (apart : (startsWith first second || startsWith second first) = false) :
    startsWith second whole = false := by
  by_contra other
  rw [Bool.not_eq_false] at other
  rw [Bool.or_eq_false_iff] at apart
  rcases startsWith_comparable first second whole one other with first | second
  · exact Bool.noConfusion (apart.1.symm.trans first)
  · exact Bool.noConfusion (apart.2.symm.trans second)

end Generic

/-- The lines of a text, as `split_terminator('\n')` gives them: a final line feed ends the
last line and begins no other. -/
def splitLines : Str → List Str
  | [] => []
  | c :: rest =>
      if c = '\n' then [] :: splitLines rest
      else
        match splitLines rest with
        | [] => [[c]]
        | line :: lines => (c :: line) :: lines

def unlines (lines : List Str) : Str := lines.flatMap (· ++ ['\n'])

def unterminated (text : Str) : Bool := text ≠ [] && text.getLast? ≠ some '\n'

theorem splitLines_line (line rest : Str) (plain : '\n' ∉ line) :
    splitLines (line ++ '\n' :: rest) = line :: splitLines rest := by
  induction line with
  | nil => simp [splitLines]
  | cons c line ih =>
    simp only [List.mem_cons, not_or] at plain
    simp only [List.cons_append, splitLines, if_neg (Ne.symm plain.1), ih plain.2]

theorem splitLines_last (line : Str) (plain : '\n' ∉ line) (nonempty : line ≠ []) :
    splitLines line = [line] := by
  induction line with
  | nil => exact (nonempty rfl).elim
  | cons c line ih =>
    simp only [List.mem_cons, not_or] at plain
    cases line with
    | nil => simp [splitLines, Ne.symm plain.1]
    | cons d line =>
      rw [splitLines, if_neg (Ne.symm plain.1), ih plain.2 (by simp)]

theorem splitLines_unlines (lines : List Str) (rest : Str) (plain : ∀ line ∈ lines, '\n' ∉ line) :
    splitLines (unlines lines ++ rest) = lines ++ splitLines rest := by
  induction lines with
  | nil => rfl
  | cons line lines ih =>
    have head := plain line (by simp)
    have tail := ih (fun other member => plain other (by simp [member]))
    simp only [unlines, List.flatMap_cons, List.append_assoc, List.cons_append,
      List.nil_append] at tail ⊢
    rw [splitLines_line line _ head, tail]

theorem splitLines_plain (text : Str) : ∀ line ∈ splitLines text, '\n' ∉ line := by
  induction text with
  | nil => simp [splitLines]
  | cons c text ih =>
    by_cases feed : c = '\n'
    · simp only [splitLines, if_pos feed, List.mem_cons]
      rintro line (rfl | member)
      · simp
      · exact ih line member
    · simp only [splitLines, if_neg feed]
      cases split : splitLines text with
      | nil => simp [Ne.symm feed]
      | cons line lines =>
        rw [split] at ih
        intro other member
        rcases List.mem_cons.1 member with rfl | later
        · simp [Ne.symm feed, ih line (by simp)]
        · exact ih other (by simp [later])

theorem splitLines_begins (start rest : Str) (plain : '\n' ∉ start) (nonempty : start ≠ []) :
    ∃ line lines, splitLines (start ++ rest) = (start ++ line) :: lines := by
  induction start with
  | nil => exact (nonempty rfl).elim
  | cons c start ih =>
    simp only [List.mem_cons, not_or] at plain
    cases start with
    | nil =>
      rw [List.singleton_append, splitLines, if_neg (Ne.symm plain.1)]
      cases splitLines rest with
      | nil => exact ⟨[], [], rfl⟩
      | cons line lines => exact ⟨line, lines, rfl⟩
    | cons d start =>
      obtain ⟨line, lines, split⟩ := ih plain.2 (List.cons_ne_nil d start)
      refine ⟨line, lines, ?_⟩
      rw [List.cons_append, splitLines, if_neg (Ne.symm plain.1), split]
      rfl

/-- A text is its lines, each followed by a line feed, but for one the last may lack. -/
theorem unlines_splitLines (text : Str) :
    unlines (splitLines text) = if unterminated text then text ++ ['\n'] else text := by
  induction text with
  | nil => rfl
  | cons c text ih =>
    by_cases feed : c = '\n'
    · subst feed
      cases text with
      | nil => simp [splitLines, unlines, unterminated]
      | cons d text =>
        have unended : unterminated ('\n' :: d :: text) = unterminated (d :: text) := by
          simp [unterminated, List.getLast?_cons_cons]
        rw [unended, splitLines, if_pos rfl]
        simp only [unlines, List.flatMap_cons, List.nil_append, List.singleton_append] at ih ⊢
        rw [ih]
        split <;> rfl
    · cases text with
      | nil => simp [splitLines, feed, unlines, unterminated]
      | cons d text =>
        have unended : unterminated (c :: d :: text) = unterminated (d :: text) := by
          simp [unterminated, List.getLast?_cons_cons]
        rw [unended, splitLines, if_neg feed]
        cases split : splitLines (d :: text) with
        | nil =>
          rw [split] at ih
          simp only [unlines, List.flatMap_nil] at ih
          split at ih <;> simp at ih
        | cons line lines =>
          rw [split] at ih
          simp only [unlines, List.flatMap_cons, List.cons_append, List.append_assoc,
            List.nil_append] at ih ⊢
          rw [ih]
          split <;> rfl

theorem splitLines_append (first second : Str) (ends : unterminated first = false) :
    splitLines (first ++ second) = splitLines first ++ splitLines second := by
  have eq := unlines_splitLines first
  rw [ends] at eq
  simp only [Bool.false_eq_true, if_false] at eq
  calc
    splitLines (first ++ second) = splitLines (unlines (splitLines first) ++ second) := by rw [eq]
    _ = splitLines first ++ splitLines second :=
      splitLines_unlines _ _ (splitLines_plain first)

def isWhitespace (c : Char) : Bool :=
  let n := c.toNat
  (9 ≤ n && n ≤ 13) || n = 0x20 || n = 0x85 || n = 0xA0 || n = 0x1680 ||
    (0x2000 ≤ n && n ≤ 0x200A) || n = 0x2028 || n = 0x2029 || n = 0x202F || n = 0x205F || n = 0x3000

def trim (text : Str) : Str := (text.dropWhile isWhitespace).rdropWhile isWhitespace

def splitWhitespace (text : Str) : List Str := (text.splitOnP isWhitespace).filter (· ≠ [])

/-- A `u32` in decimal, with a plus sign or without. -/
def parseU32 (text : Str) : Option Nat :=
  let digits := (stripPrefix ['+'] text).getD text
  if digits ≠ [] ∧ digits.all Char.isDigit = true ∧ Nat.ofDigitChars 10 digits 0 < 2 ^ 32 then
    some (Nat.ofDigitChars 10 digits 0)
  else none

end DeepDiffForge.Text
