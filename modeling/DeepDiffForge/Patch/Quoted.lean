import DeepDiffForge.Lib.Parts
import DeepDiffForge.Lib.Slices
import DeepDiffForge.Core.Hazards
import DeepDiffForge.Patch.Moves

/-! What a quoted path shows as written, its decoded form shows too: only what an escape stands for
can be new. -/

namespace DeepDiffForge.Patch
open Text Parts DeepDiffForge.Core

def escapable (c : Char) : Bool := (simpleEscape c).isSome || octalDigit c

/-- How the text inside the quotes begins: with the closing quote, a character that stands for
itself, or an escape. -/
inductive Begins (body : Str) (out : List UInt8) (decoded rest : Str) : Prop
  | ends (whole : body = '"' :: rest) (bytes : Utf8.encode decoded = out)
  | plain (c : Char) (left : Str) (whole : body = c :: left) (unquoted : c ≠ '"')
      (read : decodeQuoted left (out ++ String.utf8EncodeChar c) = some (decoded, rest))
  | escape (escaped left : Str) (byte : UInt8) (whole : body = '\\' :: escaped ++ left)
      (letters : ∀ c ∈ escaped, escapable c = true)
      (read : decodeQuoted left (out ++ [byte]) = some (decoded, rest))

theorem octalEscape_digits (first second third : Char) (byte : UInt8)
    (known : octalEscape first second third = some byte) :
    octalDigit first = true ∧ octalDigit second = true ∧ octalDigit third = true := by
  rw [octalEscape] at known
  split_ifs at known with digits
  simp only [Bool.and_eq_true, decide_eq_true_eq] at digits
  obtain ⟨⟨⟨low, high⟩, second⟩, third⟩ := digits
  refine ⟨?_, second, third⟩
  rw [octalDigit, Bool.and_eq_true, decide_eq_true_eq, decide_eq_true_eq]
  exact ⟨low, Char.le_trans high (by decide : '3' ≤ '7')⟩

theorem decodeQuoted_begins (body : Str) (out : List UInt8) (decoded rest : Str)
    (read : decodeQuoted body out = some (decoded, rest)) : Begins body out decoded rest := by
  unfold decodeQuoted at read
  split at read
  · cases read
  · obtain ⟨text, chars, same⟩ := Option.map_eq_some_iff.1 read
    obtain ⟨rfl, rfl⟩ := Prod.mk.inj same
    exact .ends rfl (Utf8.encode_decode out text chars)
  · cases read
  · next _ escaped left =>
    split at read
    · next byte known =>
      refine .escape [escaped] left byte rfl ?_ read
      intro c listed
      rw [List.mem_singleton.1 listed, escapable, known]
      rfl
    · split at read
      · next second third left =>
        split at read
        · next byte known =>
          obtain ⟨first', second', third'⟩ := octalEscape_digits escaped second third byte known
          refine .escape [escaped, second, third] left byte rfl ?_ read
          simp [escapable, first', second', third']
        · cases read
      · cases read
  · next _ c left unquoted _ _ =>
    split_ifs at read
    refine .plain c left rfl ?_ read
    rintro rfl
    exact unquoted rfl

theorem decodeQuoted_extends (body : Str) (out : List UInt8) (decoded rest : Str)
    (read : decodeQuoted body out = some (decoded, rest)) :
    ∃ more, Utf8.encode decoded = out ++ more := by
  induction size : body.length using Nat.strong_induction_on generalizing body out with
  | _ size ih =>
    subst size
    cases decodeQuoted_begins body out decoded rest read with
    | ends whole bytes => exact ⟨[], by rw [bytes, List.append_nil]⟩
    | plain c left whole unquoted read =>
      obtain ⟨more, same⟩ := ih left.length (by rw [whole]; exact Nat.lt_succ_self _) left _ read rfl
      exact ⟨_, by rw [same, List.append_assoc]⟩
    | escape escaped left byte whole letters read =>
      have shorter : left.length < body.length := by
        rw [whole]
        simp only [List.length_cons, List.length_append]
        omega
      obtain ⟨more, same⟩ := ih left.length shorter left _ read rfl
      exact ⟨_, by rw [same, List.append_assoc]⟩

/-- A character that no escape has in it begins a step of its own. -/
theorem decodeQuoted_through (earlier later : Str) (c : Char) (out : List UInt8) (decoded : Str)
    (plain : escapable c = false)
    (read : decodeQuoted (earlier ++ c :: later) out = some (decoded, [])) :
    ∃ out', decodeQuoted (c :: later) out' = some (decoded, []) := by
  induction size : earlier.length using Nat.strong_induction_on generalizing earlier out with
  | _ size ih =>
    subst size
    cases earlier with
    | nil => exact ⟨out, read⟩
    | cons first earlier =>
      cases decodeQuoted_begins _ out decoded [] read with
      | ends whole bytes =>
        exact absurd (List.cons.inj whole).2 (List.append_ne_nil_of_right_ne_nil _ nofun)
      | plain d left whole unquoted read =>
        obtain ⟨rfl, rfl⟩ := List.cons.inj whole
        exact ih earlier.length (Nat.lt_succ_self _) earlier _ read rfl
      | escape escaped left byte whole letters read =>
        obtain ⟨rfl, split⟩ := List.cons.inj whole
        replace split : earlier ++ c :: later = escaped ++ left := split
        have apart : ∃ middle, earlier = escaped ++ middle ∧ left = middle ++ c :: later := by
          rcases List.append_eq_append_iff.1 split with ⟨middle, escape, tail⟩ | ⟨middle, own, tail⟩
          · cases middle with
            | nil => exact ⟨[], by rw [escape, List.append_nil, List.append_nil], tail.symm⟩
            | cons d middle =>
              obtain ⟨rfl, -⟩ := List.cons.inj tail
              rw [letters c (by rw [escape]; simp)] at plain
              cases plain
          · exact ⟨middle, own, tail⟩
        obtain ⟨middle, rfl, rfl⟩ := apart
        have shorter : middle.length < ('\\' :: (escaped ++ middle)).length := by
          simp only [List.length_cons, List.length_append]
          omega
        exact ih middle.length shorter middle _ read rfl

/-- Text without quotes and escapes stands for itself. -/
theorem decodeQuoted_text (inner later : Str) (out : List UInt8) (decoded rest : Str)
    (plain : ∀ c ∈ inner, c ≠ '"' ∧ c ≠ '\\')
    (read : decodeQuoted (inner ++ later) out = some (decoded, rest)) :
    decodeQuoted later (out ++ Utf8.encode inner) = some (decoded, rest) := by
  induction inner generalizing out with
  | nil => simpa [Utf8.encode] using read
  | cons c inner ih =>
    obtain ⟨⟨quote, slash⟩, others⟩ := List.forall_mem_cons.1 plain
    cases decodeQuoted_begins _ out decoded rest read with
    | ends whole bytes => exact absurd (List.cons.inj whole).1 quote
    | plain d left whole unquoted read =>
      obtain ⟨rfl, rfl⟩ := List.cons.inj whole
      rw [Utf8.encode_cons, ← List.append_assoc]
      exact ih _ others read
    | escape escaped left byte whole letters read => exact absurd (List.cons.inj whole).1 slash

/-- What stands in a path as written stands in the path it is read as, if it begins with nothing an
escape could have in it and has no quote or backslash. -/
theorem decodePath_infix (source path earlier inner later : Str) (c : Char)
    (read : decodePath source = some path) (held : source = earlier ++ c :: inner ++ later)
    (start : escapable c = false) (plain : ∀ d ∈ c :: inner, d ≠ '"' ∧ d ≠ '\\') :
    c :: inner <:+: path := by
  rw [decodePath] at read
  by_cases quoted : startsWith ['"'] source = true
  · rw [if_pos quoted] at read
    obtain ⟨body, rfl⟩ := (startsWith_iff _ _).1 quoted
    rw [List.singleton_append, decodeQuotedPrefix] at read
    cases found : decodeQuoted body [] with
    | none =>
      rw [found] at read
      cases read
    | some result =>
      obtain ⟨decoded, rest⟩ := result
      rw [found] at read
      dsimp only at read
      split_ifs at read with whole
      obtain rfl := Option.some.inj read
      simp only [Bool.and_eq_true, decide_eq_true_eq] at whole
      rw [whole.1] at found
      cases earlier with
      | nil =>
        obtain ⟨same, -⟩ := List.cons.inj held
        exact absurd same.symm (plain c List.mem_cons_self).1
      | cons first earlier =>
        obtain ⟨-, tail⟩ := List.cons.inj held
        replace tail : body = earlier ++ c :: (inner ++ later) :=
          Eq.trans tail (List.append_assoc earlier (c :: inner) later)
        rw [tail] at found
        obtain ⟨out, later'⟩ := decodeQuoted_through earlier (inner ++ later) c [] decoded
          start found
        obtain ⟨more, bytes⟩ := decodeQuoted_extends later _ decoded []
          (decodeQuoted_text (c :: inner) later out decoded [] plain later')
        exact Slices.infix_of_bytes decoded (c :: inner) out more (List.cons_ne_nil _ _) bytes
  · rw [if_neg quoted] at read
    split_ifs at read
    obtain rfl := Option.some.inj read
    exact ⟨earlier, later, held.symm⟩

theorem decodeQuoted_closed (body : Str) (out : List UInt8) (decoded : Str)
    (read : decodeQuoted body out = some (decoded, [])) : ∃ inner, body = inner ++ ['"'] := by
  induction size : body.length using Nat.strong_induction_on generalizing body out with
  | _ size ih =>
    subst size
    cases decodeQuoted_begins body out decoded [] read with
    | ends whole bytes => exact ⟨[], whole⟩
    | plain c left whole unquoted read =>
      obtain ⟨inner, same⟩ := ih left.length (by rw [whole]; exact Nat.lt_succ_self _) left _ read rfl
      exact ⟨c :: inner, by rw [whole, same]; rfl⟩
    | escape escaped left byte whole letters read =>
      have shorter : left.length < body.length := by
        rw [whole]
        simp only [List.length_cons, List.length_append]
        omega
      obtain ⟨inner, same⟩ := ih left.length shorter left _ read rfl
      exact ⟨'\\' :: escaped ++ inner, by rw [whole, same, List.append_assoc]⟩

section Hazards

def hazardous (c : Char) : Bool :=
  isBidi c || isInvisible c || isTerminalUnsafe c || isLineSeparator c

def hazardousPart (part : Str) : Bool := part = "..".toList || part.map asciiLower = ".git".toList

theorem any_or {α : Type} (items : List α) (p q : α → Bool) :
    (items.any fun x => p x || q x) = (items.any p || items.any q) := by
  induction items with
  | nil => rfl
  | cons x items ih =>
    rw [List.any_cons, List.any_cons, List.any_cons, ih]
    cases p x <;> cases q x <;> simp

theorem pathHazards_ne_nil (path : Str) :
    pathHazards path ≠ [] ↔ path.any hazardous = true ∨ startsWith ['/'] path = true ∨
      (path.splitOn '/').any hazardousPart = true := by
  have chars : path.any hazardous = (path.any isBidi || path.any isInvisible ||
      path.any fun c => isTerminalUnsafe c || isLineSeparator c) := by
    rw [← any_or, ← any_or]
    refine congrArg path.any (funext fun c => ?_)
    simp only [hazardous, Bool.or_assoc]
  have parts : (path.splitOn '/').any hazardousPart =
      ((path.splitOn '/').any (· = "..".toList) ||
        (path.splitOn '/').any fun c => c.map asciiLower = ".git".toList) := any_or _ _ _
  rw [chars, parts]
  simp only [pathHazards, charHazards, ne_eq, List.append_eq_nil_iff, not_and_or, Bool.or_eq_true,
    or_assoc, ite_eq_right_iff, reduceCtorEq, imp_false, not_not]

theorem printable_clean (c : Char) (low : 33 ≤ c.toNat) (high : c.toNat ≤ 126) :
    hazardous c = false := by
  simp only [hazardous, isBidi, isInvisible, isTerminalUnsafe, isControl, isLineSeparator, inRange,
    Bool.or_eq_false_iff, Bool.and_eq_false_iff, decide_eq_false_iff_not]
  omega

theorem escapable_printable (c : Char) (letter : escapable c = true) :
    33 ≤ c.toNat ∧ c.toNat ≤ 126 := by
  rw [escapable, Bool.or_eq_true] at letter
  rcases letter with simple | digit
  · unfold simpleEscape at simple
    split at simple
    all_goals first | decide | cases simple
  · rw [octalDigit, Bool.and_eq_true, decide_eq_true_eq, decide_eq_true_eq] at digit
    have low : 48 ≤ c.toNat := digit.1
    have high : c.toNat ≤ 55 := digit.2
    omega

theorem hazardousPart_plain (part : Str) (hazard : hazardousPart part = true) :
    ∀ c ∈ part, c ≠ '"' ∧ c ≠ '\\' ∧ c ≠ '/' := by
  intro c listed
  have lower : asciiLower c ∈ ".git".toList := by
    rw [hazardousPart, Bool.or_eq_true, decide_eq_true_eq, decide_eq_true_eq] at hazard
    rcases hazard with rfl | folded
    · have dot : c = '.' := by simpa using listed
      rw [dot]
      decide
    · rw [← folded]
      exact List.mem_map_of_mem listed
  refine ⟨?_, ?_, ?_⟩
  all_goals
    rintro rfl
    exact absurd lower (by decide)

theorem quoted_closed (body path : Str) (read : decodePath (['"'] ++ body) = some path) :
    ∃ inner, body = inner ++ ['"'] := by
  have quoted : startsWith ['"'] (['"'] ++ body) = true := startsWith_append _ _
  rw [decodePath, if_pos quoted, List.singleton_append, decodeQuotedPrefix] at read
  cases found : decodeQuoted body [] with
  | none =>
    rw [found] at read
    cases read
  | some result =>
    obtain ⟨decoded, rest⟩ := result
    rw [found] at read
    dsimp only at read
    split_ifs at read with whole
    simp only [Bool.and_eq_true, decide_eq_true_eq] at whole
    rw [whole.1] at found
    exact decodeQuoted_closed body [] decoded found

theorem hazards_decoded (source path : Str) (read : decodePath source = some path)
    (hazard : pathHazards source ≠ []) : pathHazards path ≠ [] := by
  by_cases quoted : startsWith ['"'] source = true
  · rw [pathHazards_ne_nil] at hazard ⊢
    rcases hazard with char | root | parts
    · obtain ⟨c, listed, hazard⟩ := List.any_eq_true.1 char
      have unprinted : ¬ (33 ≤ c.toNat ∧ c.toNat ≤ 126) := by
        rintro ⟨low, high⟩
        rw [printable_clean c low high] at hazard
        cases hazard
      obtain ⟨earlier, later, whole⟩ := List.append_of_mem listed
      have held := decodePath_infix source path earlier [] later c read
        (by rw [whole, List.append_assoc]; rfl)
        (by
          by_contra letter
          exact unprinted (escapable_printable c (eq_true_of_ne_false letter)))
        (by
          intro d same
          obtain rfl := List.mem_singleton.1 same
          refine ⟨?_, ?_⟩
          all_goals
            rintro rfl
            exact unprinted (by decide))
      exact .inl (List.any_eq_true.2 ⟨c, held.subset List.mem_cons_self, hazard⟩)
    · obtain ⟨body, rfl⟩ := (startsWith_iff _ _).1 quoted
      cases root
    · obtain ⟨part, listed, hazard⟩ := List.any_eq_true.1 parts
      obtain ⟨body, rfl⟩ := (startsWith_iff _ _).1 quoted
      obtain ⟨inner, rfl⟩ := quoted_closed body path read
      have letters := hazardousPart_plain part hazard
      have filled : part ≠ [] := by
        rintro rfl
        cases hazard
      have clean : '/' ∉ part := fun slash => (letters '/' slash).2.2 rfl
      obtain ⟨earlier, later, whole⟩ := bracketed_part '/' '"' inner part filled
        (fun quote => (letters '"' quote).1 rfl) listed
      obtain ⟨before, after, held⟩ := decodePath_infix _ path earlier (part ++ ['/']) later '/' read
        (by
          refine Eq.trans whole ?_
          simp only [List.append_assoc, List.cons_append, List.nil_append])
        (by decide)
        (by
          intro d among
          rcases List.mem_cons.1 among with rfl | among
          · decide
          · rcases List.mem_append.1 among with inside | last
            · exact ⟨(letters d inside).1, (letters d inside).2.1⟩
            · rw [List.mem_singleton.1 last]
              decide)
      refine .inr (.inr (List.any_eq_true.2 ⟨part, ?_, hazard⟩))
      have between := part_between '/' before part after clean
      rw [← held]
      simpa only [List.append_assoc, List.cons_append, List.nil_append] using between
  · rw [decodePath, if_neg quoted] at read
    split_ifs at read
    exact Option.some.inj read ▸ hazard

theorem any_squashAfter (p : Char → Bool) (slash : p '/' = false) (last : Bool) (path : Str) :
    (squashAfter last path).any p = path.any p := by
  induction path generalizing last with
  | nil => rfl
  | cons c path ih =>
    rw [squashAfter]
    split_ifs with run
    · rw [Bool.and_eq_true, decide_eq_true_eq] at run
      rw [ih, List.any_cons, run.1, slash, Bool.false_or]
    · rw [List.any_cons, List.any_cons, ih]

/-- Squashing loses no component but empty ones; the one a path begins with stays unless a slash came
before. -/
theorem parts_squashAfter (p : Str → Bool) (empty : p [] = false) (path : Str) :
    ((squashAfter true path).splitOn '/').any p = (path.splitOn '/').any p ∧
      ∃ first rest rest', path.splitOn '/' = first :: rest ∧
        (squashAfter false path).splitOn '/' = first :: rest' ∧ rest'.any p = rest.any p := by
  induction path with
  | nil => exact ⟨rfl, [], [], [], rfl, rfl, rfl⟩
  | cons c path ih =>
    obtain ⟨run, first, rest, rest', split, split', same⟩ := ih
    rw [List.splitOn_cons_eq_if_modifyHead]
    by_cases slash : c = '/'
    · subst slash
      have squashed : squashAfter true ('/' :: path) = squashAfter true path := rfl
      have squashed' : squashAfter false ('/' :: path) = '/' :: squashAfter true path := rfl
      rw [if_pos (beq_self_eq_true '/'), squashed, squashed', List.splitOn_cons_eq_if_modifyHead,
        if_pos (beq_self_eq_true '/'), List.any_cons, empty, Bool.false_or]
      exact ⟨run, [], _, _, rfl, rfl, run⟩
    · have squashed (last : Bool) : squashAfter last (c :: path) = c :: squashAfter false path := by
        simp [squashAfter, slash]
      have other : ¬ (c == '/') = true := by simpa using slash
      rw [if_neg other, squashed, squashed, List.splitOn_cons_eq_if_modifyHead, if_neg other, split,
        split', List.modifyHead_cons, List.modifyHead_cons, List.any_cons, List.any_cons, same]
      exact ⟨rfl, _, rest, rest', rfl, rfl, same⟩

/-- Repeated slashes hide no hazard and make none. -/
theorem hazards_squash (path : Str) :
    pathHazards (squashSlashes path) ≠ [] ↔ pathHazards path ≠ [] := by
  have chars := any_squashAfter hazardous (by decide) false path
  have root : startsWith ['/'] (squashAfter false path) = startsWith ['/'] path := by
    cases path with
    | nil => rfl
    | cons c path =>
      have squashed : squashAfter false (c :: path) = c :: squashAfter (c = '/') path := by
        simp [squashAfter]
      rw [squashed]
      by_cases slash : c = '/'
      · subst slash
        rfl
      · have other : ('/' = c) = False := by simpa using Ne.symm slash
        simp [startsWith, stripPrefix, other]
  obtain ⟨-, first, rest, rest', split, split', same⟩ :=
    parts_squashAfter hazardousPart (by decide) path
  rw [pathHazards_ne_nil, pathHazards_ne_nil, squashSlashes, chars, root, split, split',
    List.any_cons, List.any_cons, same]

end Hazards

end DeepDiffForge.Patch
