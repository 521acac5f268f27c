import DeepDiffForge.Lib.Json
import DeepDiffForge.Lib.JsonGrammar

/-! Escapes inside a JSON text: what they denote, and that escaping every character that could
break a line changes no datum. -/

namespace DeepDiffForge.Json
open Text JsonGrammar

/-- A character JSON texts are kept free of: a control from delete on, or a line separator. -/
def Breaking (c : Char) : Prop :=
  0x7F ≤ c.toNat ∧ c.toNat ≤ 0x9F ∨ c.toNat = 0x2028 ∨ c.toNat = 0x2029

theorem breaking_iff (c : Char) : needsLineSafeEscape c = true ↔ Breaking c := by
  simp only [needsLineSafeEscape, Breaking, Bool.or_eq_true, Bool.and_eq_true, decide_eq_true_eq]
  exact or_assoc

theorem safe_iff (c : Char) : needsLineSafeEscape c = false ↔ ¬Breaking c := by
  rw [← breaking_iff, Bool.not_eq_true]

theorem printable_safe (c : Char) (ascii : printable c = true) :
    0x20 ≤ c.toNat ∧ ¬Breaking c := by
  simp only [printable, Bool.and_eq_true, decide_eq_true_eq] at ascii
  refine ⟨ascii.1, ?_⟩
  rw [Breaking]
  omega

theorem lineSafe_ordinary (text : Str) (safe : ∀ c ∈ text, needsLineSafeEscape c = false) :
    lineSafe text = text := by
  induction text with
  | nil => rfl
  | cons c rest ih =>
    have kept : lineSafeChar c = [c] := by rw [lineSafeChar, safe c List.mem_cons_self]; rfl
    rw [lineSafe, List.flatMap_cons, kept, ← lineSafe,
      ih fun d listed => safe d (List.mem_cons_of_mem c listed)]
    rfl

theorem lineSafe_append (first second : Str) :
    lineSafe (first ++ second) = lineSafe first ++ lineSafe second :=
  List.flatMap_append

theorem hexValue_digit (n : Nat) (small : n < 16) : hexValue (Nat.digitChar n) = some n := by
  decide +revert

theorem units_unicodeEscape (c : Char) (plane : c.toNat < 0x10000) :
    Units (unicodeEscape c) (unitsOf c) := by
  have digits : hexDigits 4 c.toNat = [Nat.digitChar (c.toNat / 16 / 16 / 16 % 16),
      Nat.digitChar (c.toNat / 16 / 16 % 16), Nat.digitChar (c.toNat / 16 % 16),
      Nat.digitChar (c.toNat % 16)] := rfl
  have unit : hexUnit (Nat.digitChar (c.toNat / 16 / 16 / 16 % 16))
      (Nat.digitChar (c.toNat / 16 / 16 % 16)) (Nat.digitChar (c.toNat / 16 % 16))
      (Nat.digitChar (c.toNat % 16)) = some c.toNat := by
    simp only [hexUnit, hexValue_digit _ (Nat.mod_lt _ (by decide : 0 < 16)), Option.bind_eq_bind,
      Option.bind_some, Option.pure_def, Option.some.injEq]
    omega
  rw [unicodeEscape, digits, unitsOf, if_pos plane]
  exact .hex _ _ _ _ _ [] [] unit .nil

theorem units_raw (c : Char) (raw : unescaped c = true) : Units [c] (unitsOf c) := by
  have one := Units.plain c [] [] raw .nil
  rwa [List.append_nil] at one

theorem units_short (c d : Char) (plane : d.toNat < 0x10000)
    (named : shortEscape c = some d.toNat) : Units ['\\', c] (unitsOf d) := by
  rw [unitsOf, if_pos plane]
  exact .short c d.toNat [] [] named .nil

theorem ascii_safe (c : Char) (ascii : c.toNat < 0x7F) : needsLineSafeEscape c = false := by
  rw [safe_iff, Breaking]
  omega

/-- No character that a JSON text holds outside its strings needs an escape. -/
theorem numeric_safe (c : Char) (digit : numeric c = true) : needsLineSafeEscape c = false := by
  refine ascii_safe c ?_
  simp only [numeric, isDigit, Bool.or_eq_true, Bool.and_eq_true, decide_eq_true_eq,
    List.mem_cons, List.not_mem_nil, or_false] at digit
  rcases digit with ⟨-, high⟩ | rfl | rfl | rfl | rfl | rfl
  · exact Nat.lt_of_le_of_lt (Char.le_def.1 high) (by decide)
  all_goals decide

theorem space_safe (c : Char) (spaced : isSpace c = true) : needsLineSafeEscape c = false := by
  simp only [isSpace, Bool.or_eq_true, decide_eq_true_eq] at spaced
  rcases spaced with ((rfl | rfl) | rfl) | rfl <;> rfl

theorem shortEscape_safe (c : Char) (unit : Nat) (named : shortEscape c = some unit) :
    needsLineSafeEscape c = false := by
  rw [shortEscape] at named
  split_ifs at named with one two three four five six seven eight
  · rw [one]; rfl
  · rw [two]; rfl
  · rw [three]; rfl
  · rw [four]; rfl
  · rw [five]; rfl
  · rw [six]; rfl
  · rw [seven]; rfl
  · rw [eight]; rfl

theorem hexValue_safe (c : Char) (value : Nat) (named : hexValue c = some value) :
    needsLineSafeEscape c = false := by
  refine ascii_safe c ?_
  rw [hexValue] at named
  split_ifs at named with digit lower upper
  · exact Nat.lt_of_le_of_lt (Char.le_def.1 digit.2) (by decide)
  · exact Nat.lt_of_le_of_lt (Char.le_def.1 lower.2) (by decide)
  · exact Nat.lt_of_le_of_lt (Char.le_def.1 upper.2) (by decide)

theorem hexUnit_safe (first second third fourth : Char) (unit : Nat)
    (named : hexUnit first second third fourth = some unit) :
    ∀ c ∈ [first, second, third, fourth], needsLineSafeEscape c = false := by
  simp only [hexUnit, Option.bind_eq_bind, Option.bind_eq_some_iff] at named
  obtain ⟨a, one, b, two, c, three, d, four, -⟩ := named
  intro e listed
  simp only [List.mem_cons, List.not_mem_nil, or_false] at listed
  rcases listed with rfl | rfl | rfl | rfl
  · exact hexValue_safe _ a one
  · exact hexValue_safe _ b two
  · exact hexValue_safe _ c three
  · exact hexValue_safe _ d four

theorem lineSafe_cons (c : Char) (rest : Str) (safe : needsLineSafeEscape c = false) :
    lineSafe (c :: rest) = c :: lineSafe rest := by
  rw [← List.singleton_append, lineSafe_append,
    lineSafe_ordinary [c] fun d listed => List.mem_singleton.1 listed ▸ safe]
  rfl

theorem units_lineSafe (body : Str) (units : List Nat) (well : Units body units) :
    Units (lineSafe body) units := by
  induction well with
  | nil => exact .nil
  | plain c rest units raw after ih =>
    rw [← List.singleton_append, lineSafe_append]
    refine units_append _ _ _ _ ?_ ih
    rw [lineSafe, List.flatMap_singleton, lineSafeChar]
    split_ifs with needs
    · rw [breaking_iff, Breaking] at needs
      exact units_unicodeEscape c (by omega)
    · exact units_raw c raw
  | short c unit rest units named after ih =>
    rw [lineSafe_cons _ _ rfl, lineSafe_cons c _ (shortEscape_safe c unit named)]
    exact .short c unit _ units named ih
  | hex a b c d unit rest units named after ih =>
    have safe := hexUnit_safe a b c d unit named
    rw [lineSafe_cons _ _ rfl, lineSafe_cons _ _ rfl, lineSafe_cons a _ (safe a (by simp)),
      lineSafe_cons b _ (safe b (by simp)), lineSafe_cons c _ (safe c (by simp)),
      lineSafe_cons d _ (safe d (by simp))]
    exact .hex a b c d unit _ units named ih

theorem lineSafe_space (text : Str) (blank : Space text) : lineSafe text = text :=
  lineSafe_ordinary text fun c listed => space_safe c (blank c listed)

theorem lineSafe_framed (first last : Char) (body : Str)
    (one : needsLineSafeEscape first = false) (two : needsLineSafeEscape last = false) :
    lineSafe (first :: (body ++ [last])) = first :: (lineSafe body ++ [last]) := by
  rw [lineSafe_cons first _ one, lineSafe_append, lineSafe_cons last [] two]
  rfl

mutual

theorem denotes_lineSafe (text : Str) (datum : Datum) :
    Denotes text datum → Denotes (lineSafe text) datum
  | .null => .null
  | .true' => .true'
  | .false' => .false'
  | .number text well => by
    rw [lineSafe_ordinary text fun c listed => numeric_safe c (number_numeric text well c listed)]
    exact .number text well
  | .string body units well => by
    rw [quoted, lineSafe_framed '"' '"' body rfl rfl]
    exact .string _ units (units_lineSafe body units well)
  | .noItems between blank => by
    rw [lineSafe_framed '[' ']' between rfl rfl, lineSafe_space between blank]
    exact .noItems between blank
  | .array body items well => by
    rw [lineSafe_framed '[' ']' body rfl rfl]
    exact .array _ items (items_lineSafe body items well)
  | .noMembers between blank => by
    rw [lineSafe_framed '\x7b' '\x7d' between rfl rfl, lineSafe_space between blank]
    exact .noMembers between blank
  | .object body members well => by
    rw [lineSafe_framed '\x7b' '\x7d' body rfl rfl]
    exact .object _ members (members_lineSafe body members well)
termination_by structural well => well

theorem element_lineSafe (text : Str) (datum : Datum) :
    Element text datum → Element (lineSafe text) datum
  | .mk before body after datum ahead well behind => by
    rw [lineSafe_append, lineSafe_append, lineSafe_space before ahead, lineSafe_space after behind]
    exact .mk before _ after datum ahead (denotes_lineSafe body datum well) behind
termination_by structural well => well

theorem items_lineSafe (text : Str) (items : List Datum) :
    Items text items → Items (lineSafe text) items
  | .one text datum well => .one _ datum (element_lineSafe text datum well)
  | .more text datum rest items well next => by
    rw [lineSafe_append, lineSafe_cons ',' rest rfl]
    exact .more _ datum _ items (element_lineSafe text datum well) (items_lineSafe rest items next)
termination_by structural well => well

theorem member_lineSafe (text : Str) (name : List Nat) (datum : Datum) :
    Member text name datum → Member (lineSafe text) name datum
  | .mk before body after text units datum ahead named behind well => by
    rw [lineSafe_append, lineSafe_append, lineSafe_append, lineSafe_cons ':' text rfl, quoted,
      lineSafe_framed '"' '"' body rfl rfl, lineSafe_space before ahead,
      lineSafe_space after behind]
    exact .mk before _ after _ units datum ahead (units_lineSafe body units named) behind
      (element_lineSafe text datum well)
termination_by structural well => well

theorem members_lineSafe (text : Str) (members : List (List Nat × Datum)) :
    Members text members → Members (lineSafe text) members
  | .one text name datum well => .one _ name datum (member_lineSafe text name datum well)
  | .more text name datum rest members well next => by
    rw [lineSafe_append, lineSafe_cons ',' rest rfl]
    exact .more _ name datum _ members (member_lineSafe text name datum well)
      (members_lineSafe rest members next)
termination_by structural well => well

end

theorem units_escapeChar (c : Char) : Units (escapeChar c) (unitsOf c) := by
  rw [escapeChar]
  split_ifs with quote backslash bell tab feed form carriage low
  · exact units_short _ _ (quote ▸ by decide) (by rw [quote]; rfl)
  · exact units_short _ _ (backslash ▸ by decide) (by rw [backslash]; rfl)
  · exact units_short _ _ (by omega) (bell ▸ rfl)
  · exact units_short _ _ (by omega) (tab ▸ rfl)
  · exact units_short _ _ (by omega) (feed ▸ rfl)
  · exact units_short _ _ (by omega) (form ▸ rfl)
  · exact units_short _ _ (by omega) (carriage ▸ rfl)
  · exact units_unicodeEscape c (by omega)
  · refine units_raw c ?_
    simp only [unescaped, Bool.and_eq_true, decide_eq_true_eq]
    exact ⟨⟨by omega, quote⟩, backslash⟩

theorem units_string (text : Str) : Units (text.flatMap escapeChar) (utf16 text) :=
  units_flatMap escapeChar units_escapeChar text

/-- What a string's literal is followed by does not matter to what it says. -/
theorem string_append_injective (first second rest rest' : Str)
    (same : string first ++ rest = string second ++ rest') : first = second ∧ rest = rest' := by
  simp only [string, List.cons_append, List.append_assoc, List.cons.injEq, true_and,
    List.nil_append] at same
  obtain ⟨equal, units⟩ := units_unique _ _ (units_string first) _ _ _ _ (units_string second) same
  rw [equal] at same
  exact ⟨utf16_injective _ _ units, (List.cons.inj (List.append_cancel_left same)).2⟩

theorem lineSafe_free (text : Str) : ∀ c ∈ lineSafe text, needsLineSafeEscape c = false := by
  intro c listed
  obtain ⟨source, -, written⟩ := List.mem_flatMap.1 listed
  rw [lineSafeChar] at written
  split_ifs at written with needs
  · exact (safe_iff c).2 (printable_safe c (printable_unicodeEscape source c written)).2
  · obtain rfl := List.mem_singleton.1 written
    exact eq_false_of_ne_true needs

end DeepDiffForge.Json
