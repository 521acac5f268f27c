import DeepDiffForge.Lib.Text

/-! RFC 8259: which texts are JSON, and the one datum each of them denotes. A string denotes its
UTF-16 code units, a number its text and an object its members in the order they stand. -/

namespace DeepDiffForge.JsonGrammar
open Text

inductive Datum
  | null
  | bool (value : Bool)
  | number (text : Str)
  | string (units : List Nat)
  | array (items : List Datum)
  | object (members : List (List Nat × Datum))

def isSpace (c : Char) : Bool := c = ' ' || c = '\t' || c = '\n' || c = '\r'

def Space (text : Str) : Prop := ∀ c ∈ text, isSpace c = true

def unitsOf (c : Char) : List Nat :=
  if c.toNat < 0x10000 then [c.toNat]
  else [0xD800 + (c.toNat - 0x10000) / 0x400, 0xDC00 + (c.toNat - 0x10000) % 0x400]

def utf16 (text : Str) : List Nat := text.flatMap unitsOf

def unescaped (c : Char) : Bool := 0x20 ≤ c.toNat && c ≠ '"' && c ≠ '\\'

def shortEscape (c : Char) : Option Nat :=
  if c = '"' then some 0x22
  else if c = '\\' then some 0x5C
  else if c = '/' then some 0x2F
  else if c = 'b' then some 0x08
  else if c = 'f' then some 0x0C
  else if c = 'n' then some 0x0A
  else if c = 'r' then some 0x0D
  else if c = 't' then some 0x09
  else none

def hexValue (c : Char) : Option Nat :=
  if '0' ≤ c ∧ c ≤ '9' then some (c.toNat - '0'.toNat)
  else if 'a' ≤ c ∧ c ≤ 'f' then some (c.toNat - 'a'.toNat + 10)
  else if 'A' ≤ c ∧ c ≤ 'F' then some (c.toNat - 'A'.toNat + 10)
  else none

def hexUnit (first second third fourth : Char) : Option Nat := do
  let a ← hexValue first
  let b ← hexValue second
  let c ← hexValue third
  let d ← hexValue fourth
  return ((a * 16 + b) * 16 + c) * 16 + d

/-- What stands between the quotes of a string, and the units it denotes. -/
inductive Units : Str → List Nat → Prop
  | nil : Units [] []
  | plain (c : Char) (rest : Str) (units : List Nat) (raw : unescaped c = true)
      (after : Units rest units) : Units (c :: rest) (unitsOf c ++ units)
  | short (c : Char) (unit : Nat) (rest : Str) (units : List Nat)
      (named : shortEscape c = some unit) (after : Units rest units) :
      Units ('\\' :: c :: rest) (unit :: units)
  | hex (first second third fourth : Char) (unit : Nat) (rest : Str) (units : List Nat)
      (named : hexUnit first second third fourth = some unit) (after : Units rest units) :
      Units ('\\' :: 'u' :: first :: second :: third :: fourth :: rest) (unit :: units)

def quoted (body : Str) : Str := '"' :: (body ++ ['"'])

def isDigit (c : Char) : Bool := '0' ≤ c && c ≤ '9'

def Digits (text : Str) : Prop := text ≠ [] ∧ ∀ c ∈ text, isDigit c = true

def IntPart (text : Str) : Prop := text = ['0'] ∨ Digits text ∧ text.head? ≠ some '0'

def FracPart (text : Str) : Prop := text = [] ∨ ∃ digits, text = '.' :: digits ∧ Digits digits

def ExpPart (text : Str) : Prop :=
  text = [] ∨ ∃ mark sign digits, text = mark :: (sign ++ digits) ∧ (mark = 'e' ∨ mark = 'E') ∧
    (sign = [] ∨ sign = ['+'] ∨ sign = ['-']) ∧ Digits digits

def Number (text : Str) : Prop :=
  ∃ minus int frac exp, text = minus ++ int ++ frac ++ exp ∧ (minus = [] ∨ minus = ['-']) ∧
    IntPart int ∧ FracPart frac ∧ ExpPart exp

mutual

/-- A value without the space around it. -/
inductive Denotes : Str → Datum → Prop
  | null : Denotes ['n', 'u', 'l', 'l'] .null
  | true' : Denotes ['t', 'r', 'u', 'e'] (.bool true)
  | false' : Denotes ['f', 'a', 'l', 's', 'e'] (.bool false)
  | number (text : Str) (well : Number text) : Denotes text (.number text)
  | string (body : Str) (units : List Nat) (well : Units body units) :
      Denotes (quoted body) (.string units)
  | noItems (between : Str) (blank : Space between) :
      Denotes ('[' :: (between ++ [']'])) (.array [])
  | array (body : Str) (items : List Datum) (well : Items body items) :
      Denotes ('[' :: (body ++ [']'])) (.array items)
  | noMembers (between : Str) (blank : Space between) :
      Denotes ('\x7b' :: (between ++ ['\x7d'])) (.object [])
  | object (body : Str) (members : List (List Nat × Datum)) (well : Members body members) :
      Denotes ('\x7b' :: (body ++ ['\x7d'])) (.object members)

/-- A value and the space around it. -/
inductive Element : Str → Datum → Prop
  | mk (before text after : Str) (datum : Datum) (ahead : Space before)
      (well : Denotes text datum) (behind : Space after) : Element (before ++ text ++ after) datum

inductive Items : Str → List Datum → Prop
  | one (text : Str) (datum : Datum) (well : Element text datum) : Items text [datum]
  | more (text : Str) (datum : Datum) (rest : Str) (items : List Datum)
      (well : Element text datum) (next : Items rest items) :
      Items (text ++ ',' :: rest) (datum :: items)

inductive Member : Str → List Nat → Datum → Prop
  | mk (before name after text : Str) (units : List Nat) (datum : Datum) (ahead : Space before)
      (named : Units name units) (behind : Space after) (well : Element text datum) :
      Member (before ++ quoted name ++ after ++ ':' :: text) units datum

inductive Members : Str → List (List Nat × Datum) → Prop
  | one (text : Str) (name : List Nat) (datum : Datum) (well : Member text name datum) :
      Members text [(name, datum)]
  | more (text : Str) (name : List Nat) (datum : Datum) (rest : Str)
      (members : List (List Nat × Datum)) (well : Member text name datum)
      (next : Members rest members) : Members (text ++ ',' :: rest) ((name, datum) :: members)

end

/-- The units of one character tell it from what comes behind it. -/
theorem unitsOf_injective (c d : Char) (rest rest' : List Nat)
    (same : unitsOf c ++ rest = unitsOf d ++ rest') : c = d ∧ rest = rest' := by
  have character (equal : c.toNat = d.toNat) : c = d := Char.toNat_inj.1 equal
  have one : c.toNat < 0xD800 ∨ 0xDFFF < c.toNat ∧ c.toNat < 0x110000 := c.valid
  have two : d.toNat < 0xD800 ∨ 0xDFFF < d.toNat ∧ d.toNat < 0x110000 := d.valid
  simp only [unitsOf] at same
  split_ifs at same
  all_goals simp only [List.cons_append, List.nil_append, List.cons.injEq] at same
  · exact ⟨character same.1, same.2⟩
  · omega
  · omega
  · exact ⟨character (by omega), same.2.2⟩

theorem unitsOf_ne_nil (c : Char) : unitsOf c ≠ [] := by
  rw [unitsOf]
  split_ifs
  · exact List.cons_ne_nil _ _
  · exact List.cons_ne_nil _ _

theorem utf16_injective (first second : Str) (same : utf16 first = utf16 second) :
    first = second := by
  induction first generalizing second with
  | nil =>
    cases second with
    | nil => rfl
    | cons d second => exact absurd (List.append_eq_nil_iff.1 same.symm).1 (unitsOf_ne_nil d)
  | cons c first ih =>
    cases second with
    | nil => exact absurd (List.append_eq_nil_iff.1 same).1 (unitsOf_ne_nil c)
    | cons d second =>
      obtain ⟨rfl, tail⟩ := unitsOf_injective c d _ _ same
      rw [ih second tail]

theorem units_append (first second : Str) (one two : List Nat) (head : Units first one)
    (tail : Units second two) : Units (first ++ second) (one ++ two) := by
  induction head with
  | nil => exact tail
  | plain c rest units raw after ih =>
    rw [List.append_assoc]
    exact .plain c _ _ raw ih
  | short c unit rest units named after ih => exact .short c unit _ _ named ih
  | hex a b c d unit rest units named after ih => exact .hex a b c d unit _ _ named ih

/-- A text written character by character denotes its units. -/
theorem units_flatMap (write : Char → Str) (each : ∀ c, Units (write c) (unitsOf c)) (text : Str) :
    Units (text.flatMap write) (utf16 text) := by
  induction text with
  | nil => exact .nil
  | cons c rest ih =>
    rw [utf16, List.flatMap_cons, List.flatMap_cons]
    exact units_append _ _ _ _ (each c) ih

def Opens (c : Char) : Datum → Prop
  | .null => c = 'n'
  | .bool true => c = 't'
  | .bool false => c = 'f'
  | .number _ => c = '-' ∨ isDigit c = true
  | .string _ => c = '"'
  | .array _ => c = '['
  | .object _ => c = '\x7b'

theorem number_head (text : Str) (well : Number text) :
    ∃ c rest, text = c :: rest ∧ (c = '-' ∨ isDigit c = true) := by
  obtain ⟨minus, int, frac, exp, rfl, signed, whole, -, -⟩ := well
  have first : ∃ c rest, int = c :: rest ∧ isDigit c = true := by
    rcases whole with rfl | ⟨⟨filled, digits⟩, -⟩
    · exact ⟨'0', [], rfl, rfl⟩
    · obtain ⟨c, rest, rfl⟩ := List.exists_cons_of_ne_nil filled
      exact ⟨c, rest, rfl, digits c List.mem_cons_self⟩
  obtain ⟨c, rest, rfl, digit⟩ := first
  rcases signed with rfl | rfl
  · exact ⟨c, _, rfl, .inr digit⟩
  · exact ⟨'-', _, rfl, .inl rfl⟩

theorem denotes_head (text : Str) (datum : Datum) (well : Denotes text datum) :
    ∃ c rest, text = c :: rest ∧ Opens c datum := by
  cases well with
  | null => exact ⟨_, _, rfl, rfl⟩
  | true' => exact ⟨_, _, rfl, rfl⟩
  | false' => exact ⟨_, _, rfl, rfl⟩
  | number text well => exact number_head text well
  | string body units well => exact ⟨_, _, rfl, rfl⟩
  | noItems between blank => exact ⟨_, _, rfl, rfl⟩
  | array body items well => exact ⟨_, _, rfl, rfl⟩
  | noMembers between blank => exact ⟨_, _, rfl, rfl⟩
  | object body members well => exact ⟨_, _, rfl, rfl⟩

/-- A character that opens a value is no space and closes nothing. -/
theorem opens_visible (c : Char) (datum : Datum) (opens : Opens c datum) :
    isSpace c = false ∧ c ≠ ',' ∧ c ≠ ']' ∧ c ≠ '\x7d' := by
  have digit (number : isDigit c = true) :
      isSpace c = false ∧ c ≠ ',' ∧ c ≠ ']' ∧ c ≠ '\x7d' := by
    refine ⟨?_, ?_, ?_, ?_⟩
    · by_contra spaced
      simp only [isSpace, Bool.not_eq_false, Bool.or_eq_true, decide_eq_true_eq] at spaced
      rcases spaced with ((rfl | rfl) | rfl) | rfl <;> exact absurd number (by decide)
    all_goals
      rintro rfl
      exact absurd number (by decide)
  cases datum with
  | null => exact opens ▸ by decide
  | bool value => cases value <;> exact opens ▸ by decide
  | number text =>
    rcases opens with rfl | number
    · decide
    · exact digit number
  | string units => exact opens ▸ by decide
  | array items => exact opens ▸ by decide
  | object members => exact opens ▸ by decide

/-- A text is cut in one way only where a class of characters ends. -/
theorem span_unique (inside : Char → Bool) (first second behind behind' : Str)
    (one : ∀ c ∈ first, inside c = true) (two : ∀ c ∈ second, inside c = true)
    (stop : ∀ c ∈ behind.head?, inside c = false) (stop' : ∀ c ∈ behind'.head?, inside c = false)
    (same : first ++ behind = second ++ behind') : first = second ∧ behind = behind' := by
  have taken (text rest : Str) (all : ∀ c ∈ text, inside c = true)
      (ends : ∀ c ∈ rest.head?, inside c = false) : (text ++ rest).takeWhile inside = text := by
    rw [List.takeWhile_append_of_pos all]
    cases rest with
    | nil => simp
    | cons c rest => rw [List.takeWhile_cons_of_neg (by simp [ends c rfl]), List.append_nil]
  have equal : first = second := by
    rw [← taken first behind one stop, same, taken second behind' two stop']
  subst equal
  exact ⟨rfl, List.append_cancel_left same⟩

theorem quote_raw : unescaped '"' = false := by decide

theorem backslash_raw : unescaped '\\' = false := by decide

/-- The body of a string ends at its first quote that is not escaped. -/
theorem units_unique (first : Str) (one : List Nat) (well : Units first one) :
    ∀ (second : Str) (two : List Nat) (rest rest' : Str), Units second two →
      first ++ '"' :: rest = second ++ '"' :: rest' → first = second ∧ one = two := by
  induction well with
  | nil =>
    intro second two rest rest' other same
    cases other with
    | nil => exact ⟨rfl, rfl⟩
    | plain c _ _ raw _ =>
      obtain rfl := (List.cons.inj same).1
      cases quote_raw.symm.trans raw
    | short c => cases (List.cons.inj same).1
    | hex => cases (List.cons.inj same).1
  | plain c text units raw after ih =>
    intro second two rest rest' other same
    cases other with
    | nil =>
      obtain rfl := (List.cons.inj same).1
      cases quote_raw.symm.trans raw
    | plain d text' units' raw' after' =>
      obtain ⟨rfl, tail⟩ := List.cons.inj same
      obtain ⟨rfl, rfl⟩ := ih _ _ _ _ after' tail
      exact ⟨rfl, rfl⟩
    | short d =>
      obtain rfl := (List.cons.inj same).1
      cases backslash_raw.symm.trans raw
    | hex =>
      obtain rfl := (List.cons.inj same).1
      cases backslash_raw.symm.trans raw
  | short c unit text units named after ih =>
    intro second two rest rest' other same
    cases other with
    | nil => cases (List.cons.inj same).1
    | plain d _ _ raw _ =>
      obtain rfl := (List.cons.inj same).1
      cases backslash_raw.symm.trans raw
    | short d unit' text' units' named' after' =>
      obtain ⟨rfl, tail⟩ := List.cons.inj (List.cons.inj same).2
      obtain ⟨rfl, rfl⟩ := ih _ _ _ _ after' tail
      rw [Option.some.inj (named.symm.trans named')]
      exact ⟨rfl, rfl⟩
    | hex =>
      obtain rfl := (List.cons.inj (List.cons.inj same).2).1
      cases named
  | hex a b c d unit text units named after ih =>
    intro second two rest rest' other same
    cases other with
    | nil => cases (List.cons.inj same).1
    | plain e _ _ raw _ =>
      obtain rfl := (List.cons.inj same).1
      cases backslash_raw.symm.trans raw
    | short e _ _ _ named' =>
      obtain rfl := (List.cons.inj (List.cons.inj same).2).1
      cases named'
    | hex a' b' c' d' unit' text' units' named' after' =>
      simp only [List.cons_append, List.cons.injEq, true_and] at same
      obtain ⟨rfl, rfl, rfl, rfl, tail⟩ := same
      obtain ⟨rfl, rfl⟩ := ih _ _ _ _ after' tail
      rw [Option.some.inj (named.symm.trans named')]
      exact ⟨rfl, rfl⟩

/-- What may stand behind a value: space, or what closes or separates. -/
def Stops (rest : Str) : Prop :=
  ∀ c ∈ rest.head?, isSpace c = true ∨ c = ',' ∨ c = ']' ∨ c = '\x7d'

def Ends (rest : Str) : Prop := ∀ c ∈ rest.head?, c = ',' ∨ c = ']' ∨ c = '\x7d'

theorem ends_visible (rest : Str) (ends : Ends rest) : ∀ c ∈ rest.head?, isSpace c = false := by
  intro c head
  rcases ends c head with rfl | rfl | rfl <;> rfl

theorem stops_after (behind rest : Str) (blank : Space behind) (ends : Ends rest) :
    Stops (behind ++ rest) := by
  intro c head
  cases behind with
  | nil => exact .inr (ends c head)
  | cons d behind =>
    obtain rfl := Option.some.inj head
    exact .inl (blank d List.mem_cons_self)

def numeric (c : Char) : Bool := isDigit c || c ∈ ['-', '+', '.', 'e', 'E']

theorem number_numeric (text : Str) (well : Number text) : ∀ c ∈ text, numeric c = true := by
  have digits (part : Str) (all : Digits part) (c : Char) (listed : c ∈ part) :
      numeric c = true := by
    rw [numeric, all.2 c listed, Bool.true_or]
  obtain ⟨minus, int, frac, exp, rfl, signed, whole, broken, scaled⟩ := well
  intro c listed
  simp only [List.mem_append] at listed
  rcases listed with ((listed | listed) | listed) | listed
  · rcases signed with rfl | rfl
    · cases listed
    · obtain rfl := List.mem_singleton.1 listed
      rfl
  · rcases whole with rfl | ⟨all, -⟩
    · obtain rfl := List.mem_singleton.1 listed
      rfl
    · exact digits int all c listed
  · rcases broken with rfl | ⟨part, rfl, all⟩
    · cases listed
    · rcases List.mem_cons.1 listed with rfl | listed
      · rfl
      · exact digits part all c listed
  · rcases scaled with rfl | ⟨mark, sign, part, rfl, marked, signed, all⟩
    · cases listed
    · rcases List.mem_cons.1 listed with rfl | listed
      · rcases marked with rfl | rfl <;> rfl
      · rcases List.mem_append.1 listed with listed | listed
        · rcases signed with rfl | rfl | rfl
          · cases listed
          · obtain rfl := List.mem_singleton.1 listed
            rfl
          · obtain rfl := List.mem_singleton.1 listed
            rfl
        · exact digits part all c listed

theorem stops_numeric (rest : Str) (stops : Stops rest) : ∀ c ∈ rest.head?, numeric c = false := by
  intro c head
  rcases stops c head with spaced | rfl | rfl | rfl
  · simp only [isSpace, Bool.or_eq_true, decide_eq_true_eq] at spaced
    rcases spaced with ((rfl | rfl) | rfl) | rfl <;> rfl
  all_goals rfl

/-- The head of a number opens nothing else. -/
theorem number_opens (c : Char) (rest : Str) (well : Number (c :: rest)) :
    c = '-' ∨ isDigit c = true := by
  obtain ⟨d, behind, same, head⟩ := number_head _ well
  obtain ⟨rfl, -⟩ := List.cons.inj same
  exact head

theorem word_shape (c : Char) (rest : Str) (datum : Datum) (word : c = 'n' ∨ c = 't' ∨ c = 'f')
    (well : Denotes (c :: rest) datum) :
    (c = 'n' ∧ rest = ['u', 'l', 'l'] ∧ datum = .null) ∨
      (c = 't' ∧ rest = ['r', 'u', 'e'] ∧ datum = .bool true) ∨
      (c = 'f' ∧ rest = ['a', 'l', 's', 'e'] ∧ datum = .bool false) := by
  cases well with
  | null => exact .inl ⟨rfl, rfl, rfl⟩
  | true' => exact .inr (.inl ⟨rfl, rfl, rfl⟩)
  | false' => exact .inr (.inr ⟨rfl, rfl, rfl⟩)
  | number text well =>
    rcases word with rfl | rfl | rfl <;> exact absurd (number_opens _ _ well) (by decide)
  | string => exact absurd word (by decide)
  | noItems => exact absurd word (by decide)
  | array => exact absurd word (by decide)
  | noMembers => exact absurd word (by decide)
  | object => exact absurd word (by decide)

theorem number_shape (c : Char) (rest : Str) (datum : Datum) (opens : c = '-' ∨ isDigit c = true)
    (well : Denotes (c :: rest) datum) : datum = .number (c :: rest) ∧ Number (c :: rest) := by
  cases well with
  | number text well => exact ⟨rfl, well⟩
  | null => exact absurd opens (by decide)
  | true' => exact absurd opens (by decide)
  | false' => exact absurd opens (by decide)
  | string => exact absurd opens (by decide)
  | noItems => exact absurd opens (by decide)
  | array => exact absurd opens (by decide)
  | noMembers => exact absurd opens (by decide)
  | object => exact absurd opens (by decide)

theorem string_shape (rest : Str) (datum : Datum) (well : Denotes ('"' :: rest) datum) :
    ∃ body units, rest = body ++ ['"'] ∧ datum = .string units ∧ Units body units := by
  cases well with
  | string body units well => exact ⟨body, units, rfl, rfl, well⟩
  | number text well => exact absurd (number_opens _ _ well) (by decide)

theorem array_shape (rest : Str) (datum : Datum) (well : Denotes ('[' :: rest) datum) :
    ∃ body, rest = body ++ [']'] ∧ (Space body ∧ datum = .array [] ∨
      ∃ items, Items body items ∧ datum = .array items) := by
  cases well with
  | noItems between blank => exact ⟨between, rfl, .inl ⟨blank, rfl⟩⟩
  | array body items well => exact ⟨body, rfl, .inr ⟨items, well, rfl⟩⟩
  | number text well => exact absurd (number_opens _ _ well) (by decide)

theorem object_shape (rest : Str) (datum : Datum) (well : Denotes ('\x7b' :: rest) datum) :
    ∃ body, rest = body ++ ['\x7d'] ∧ (Space body ∧ datum = .object [] ∨
      ∃ members, Members body members ∧ datum = .object members) := by
  cases well with
  | noMembers between blank => exact ⟨between, rfl, .inl ⟨blank, rfl⟩⟩
  | object body members well => exact ⟨body, rfl, .inr ⟨members, well, rfl⟩⟩
  | number text well => exact absurd (number_opens _ _ well) (by decide)

theorem element_head (text : Str) (datum : Datum) (well : Element text datum) :
    ∃ before c rest, text = before ++ c :: rest ∧ Space before ∧ Opens c datum := by
  obtain ⟨before, body, after, _, ahead, inner, behind⟩ := well
  obtain ⟨c, rest, rfl, opens⟩ := denotes_head body datum inner
  exact ⟨before, c, rest ++ after, by simp, ahead, opens⟩

theorem blank_items (between text rest rest' : Str) (items : List Datum) (blank : Space between)
    (well : Items text items) (same : between ++ ']' :: rest = text ++ ']' :: rest') : False := by
  have head : ∃ before c behind datum, text = before ++ c :: behind ∧ Space before ∧
      Opens c datum := by
    cases well with
    | one text datum well =>
      obtain ⟨before, c, behind, cut, ahead, opens⟩ := element_head text datum well
      exact ⟨before, c, behind, datum, cut, ahead, opens⟩
    | more text datum next items well =>
      obtain ⟨before, c, behind, rfl, ahead, opens⟩ := element_head text datum well
      exact ⟨before, c, _, datum, List.append_assoc .., ahead, opens⟩
  obtain ⟨before, c, behind, datum, rfl, ahead, opens⟩ := head
  have visible := opens_visible c datum opens
  rw [List.append_assoc, List.cons_append] at same
  have cut := span_unique isSpace _ _ _ _ blank ahead (by rintro d ⟨⟩; rfl)
    (by rintro d ⟨⟩; exact visible.1) same
  exact visible.2.2.1 (List.cons.inj cut.2).1.symm

theorem blank_members (between text rest rest' : Str) (members : List (List Nat × Datum))
    (blank : Space between) (well : Members text members)
    (same : between ++ '\x7d' :: rest = text ++ '\x7d' :: rest') : False := by
  have head : ∃ before behind, text = before ++ '"' :: behind ∧ Space before := by
    cases well with
    | one text name datum well =>
      obtain ⟨before, body, after, text, units, _, ahead⟩ := well
      exact ⟨before, body ++ '"' :: (after ++ ':' :: text), by simp [quoted], ahead⟩
    | more text name datum rest members well =>
      obtain ⟨before, body, after, text, units, _, ahead⟩ := well
      exact ⟨before, body ++ '"' :: (after ++ ':' :: text ++ ',' :: rest), by simp [quoted], ahead⟩
  obtain ⟨before, behind, rfl, ahead⟩ := head
  rw [List.append_assoc, List.cons_append] at same
  have cut := span_unique isSpace _ _ _ _ blank ahead (by rintro d ⟨⟩; rfl)
    (by rintro d ⟨⟩; rfl) same
  cases (List.cons.inj cut.2).1

theorem span_space (first second rest rest' : Str) (one : Space first) (two : Space second)
    (visible : ∀ c ∈ rest.head?, isSpace c = false)
    (visible' : ∀ c ∈ rest'.head?, isSpace c = false) (same : first ++ rest = second ++ rest') :
    first = second ∧ rest = rest' :=
  span_unique isSpace first second rest rest' one two visible visible' same

mutual

theorem denotes_unique (text : Str) (datum : Datum) : Denotes text datum →
    ∀ (other : Str) (datum' : Datum) (rest rest' : Str), Denotes other datum' → Stops rest →
      Stops rest' → text ++ rest = other ++ rest' → text = other ∧ datum = datum'
  | .null, other, datum', rest, rest', well, _, _, same => by
    obtain ⟨c, behind, rfl, -⟩ := denotes_head other datum' well
    obtain ⟨rfl, -⟩ := List.cons.inj same
    rcases word_shape _ _ _ (.inl rfl) well with ⟨-, rfl, rfl⟩ | ⟨cut, -⟩ | ⟨cut, -⟩
    · exact ⟨rfl, rfl⟩
    · cases cut
    · cases cut
  | .true', other, datum', rest, rest', well, _, _, same => by
    obtain ⟨c, behind, rfl, -⟩ := denotes_head other datum' well
    obtain ⟨rfl, -⟩ := List.cons.inj same
    rcases word_shape _ _ _ (.inr (.inl rfl)) well with ⟨cut, -⟩ | ⟨-, rfl, rfl⟩ | ⟨cut, -⟩
    · cases cut
    · exact ⟨rfl, rfl⟩
    · cases cut
  | .false', other, datum', rest, rest', well, _, _, same => by
    obtain ⟨c, behind, rfl, -⟩ := denotes_head other datum' well
    obtain ⟨rfl, -⟩ := List.cons.inj same
    rcases word_shape _ _ _ (.inr (.inr rfl)) well with ⟨cut, -⟩ | ⟨cut, -⟩ | ⟨-, rfl, rfl⟩
    · cases cut
    · cases cut
    · exact ⟨rfl, rfl⟩
  | .number text well', other, datum', rest, rest', well, stop, stop', same => by
    obtain ⟨c, behind, rfl, opens⟩ := number_head text well'
    obtain ⟨d, behind', rfl, -⟩ := denotes_head other datum' well
    obtain ⟨rfl, -⟩ := List.cons.inj same
    obtain ⟨rfl, number⟩ := number_shape _ _ _ opens well
    obtain ⟨equal, -⟩ := span_unique numeric _ _ _ _ (number_numeric _ well')
      (number_numeric _ number) (stops_numeric rest stop) (stops_numeric rest' stop') same
    exact ⟨equal, by rw [equal]⟩
  | .string body units inner, other, datum', rest, rest', well, _, _, same => by
    obtain ⟨c, behind, rfl, -⟩ := denotes_head other datum' well
    rw [quoted] at same ⊢
    obtain ⟨rfl, -⟩ := List.cons.inj same
    obtain ⟨body', units', rfl, rfl, inner'⟩ := string_shape _ _ well
    have tail := (List.cons.inj same).2
    rw [List.append_eq, List.append_eq, List.append_assoc, List.append_assoc] at tail
    obtain ⟨rfl, rfl⟩ := units_unique _ _ inner _ _ _ _ inner' tail
    exact ⟨rfl, rfl⟩
  | .noItems between blank, other, datum', rest, rest', well, _, _, same => by
    obtain ⟨c, behind, rfl, -⟩ := denotes_head other datum' well
    obtain ⟨rfl, -⟩ := List.cons.inj same
    obtain ⟨body', rfl, ⟨blank', rfl⟩ | ⟨items', inner', rfl⟩⟩ := array_shape _ _ well
    all_goals
      have tail := (List.cons.inj same).2
      rw [List.append_eq, List.append_eq, List.append_assoc, List.append_assoc] at tail
    · obtain ⟨rfl, -⟩ := span_space _ _ _ _ blank blank' (by rintro d ⟨⟩; rfl)
        (by rintro d ⟨⟩; rfl) tail
      exact ⟨rfl, rfl⟩
    · exact (blank_items _ _ _ _ _ blank inner' tail).elim
  | .array body items inner, other, datum', rest, rest', well, _, _, same => by
    obtain ⟨c, behind, rfl, -⟩ := denotes_head other datum' well
    obtain ⟨rfl, -⟩ := List.cons.inj same
    obtain ⟨body', rfl, ⟨blank', rfl⟩ | ⟨items', inner', rfl⟩⟩ := array_shape _ _ well
    all_goals
      have tail := (List.cons.inj same).2
      rw [List.append_eq, List.append_eq, List.append_assoc, List.append_assoc] at tail
    · exact (blank_items _ _ _ _ _ blank' inner tail.symm).elim
    · obtain ⟨rfl, rfl⟩ := items_unique body items inner body' items' _ _ inner' tail
      exact ⟨rfl, rfl⟩
  | .noMembers between blank, other, datum', rest, rest', well, _, _, same => by
    obtain ⟨c, behind, rfl, -⟩ := denotes_head other datum' well
    obtain ⟨rfl, -⟩ := List.cons.inj same
    obtain ⟨body', rfl, ⟨blank', rfl⟩ | ⟨members', inner', rfl⟩⟩ := object_shape _ _ well
    all_goals
      have tail := (List.cons.inj same).2
      rw [List.append_eq, List.append_eq, List.append_assoc, List.append_assoc] at tail
    · obtain ⟨rfl, -⟩ := span_space _ _ _ _ blank blank' (by rintro d ⟨⟩; rfl)
        (by rintro d ⟨⟩; rfl) tail
      exact ⟨rfl, rfl⟩
    · exact (blank_members _ _ _ _ _ blank inner' tail).elim
  | .object body members inner, other, datum', rest, rest', well, _, _, same => by
    obtain ⟨c, behind, rfl, -⟩ := denotes_head other datum' well
    obtain ⟨rfl, -⟩ := List.cons.inj same
    obtain ⟨body', rfl, ⟨blank', rfl⟩ | ⟨members', inner', rfl⟩⟩ := object_shape _ _ well
    all_goals
      have tail := (List.cons.inj same).2
      rw [List.append_eq, List.append_eq, List.append_assoc, List.append_assoc] at tail
    · exact (blank_members _ _ _ _ _ blank' inner tail.symm).elim
    · obtain ⟨rfl, rfl⟩ := members_unique body members inner body' members' _ _ inner' tail
      exact ⟨rfl, rfl⟩
termination_by structural well => well

theorem element_unique (text : Str) (datum : Datum) : Element text datum →
    ∀ (other : Str) (datum' : Datum) (rest rest' : Str), Element other datum' → Ends rest →
      Ends rest' → text ++ rest = other ++ rest' → text = other ∧ datum = datum' ∧ rest = rest'
  | .mk before body after datum ahead well behind, other, datum', rest, rest', well', ends, ends',
      same => by
    obtain ⟨before', body', after', _, ahead', inner', behind'⟩ := well'
    obtain ⟨c, tail, form, opens⟩ := denotes_head body datum well
    obtain ⟨c', tail', form', opens'⟩ := denotes_head body' datum' inner'
    simp only [List.append_assoc] at same
    obtain ⟨rfl, inner⟩ := span_space _ _ _ _ ahead ahead'
      (by rw [form]; rintro d ⟨⟩; exact (opens_visible c datum opens).1)
      (by rw [form']; rintro d ⟨⟩; exact (opens_visible c' datum' opens').1) same
    obtain ⟨rfl, rfl⟩ := denotes_unique body datum well body' datum' _ _ inner'
      (stops_after after rest behind ends) (stops_after after' rest' behind' ends') inner
    obtain ⟨rfl, rfl⟩ := span_space _ _ _ _ behind behind' (ends_visible rest ends)
      (ends_visible rest' ends') (List.append_cancel_left inner)
    exact ⟨rfl, rfl, rfl⟩
termination_by structural well => well

theorem items_unique (text : Str) (items : List Datum) : Items text items →
    ∀ (other : Str) (items' : List Datum) (rest rest' : Str), Items other items' →
      text ++ ']' :: rest = other ++ ']' :: rest' → text = other ∧ items = items'
  | .one text datum well, other, items', rest, rest', well', same => by
    cases well' with
    | one other datum' well' =>
      obtain ⟨rfl, rfl, -⟩ := element_unique text datum well other datum' _ _ well'
        (by rintro c ⟨⟩; exact .inr (.inl rfl)) (by rintro c ⟨⟩; exact .inr (.inl rfl)) same
      exact ⟨rfl, rfl⟩
    | more other datum' next items' well' =>
      rw [List.append_assoc, List.cons_append] at same
      obtain ⟨-, -, cut⟩ := element_unique text datum well other datum' _ _ well'
        (by rintro c ⟨⟩; exact .inr (.inl rfl)) (by rintro c ⟨⟩; exact .inl rfl) same
      cases (List.cons.inj cut).1
  | .more text datum next items well after, other, items', rest, rest', well', same => by
    rw [List.append_assoc, List.cons_append] at same
    cases well' with
    | one other datum' well' =>
      obtain ⟨-, -, cut⟩ := element_unique text datum well other datum' _ _ well'
        (by rintro c ⟨⟩; exact .inl rfl) (by rintro c ⟨⟩; exact .inr (.inl rfl)) same
      cases (List.cons.inj cut).1
    | more other datum' next' items' well' after' =>
      rw [List.append_assoc, List.cons_append] at same
      obtain ⟨rfl, rfl, cut⟩ := element_unique text datum well other datum' _ _ well'
        (by rintro c ⟨⟩; exact .inl rfl) (by rintro c ⟨⟩; exact .inl rfl) same
      obtain ⟨rfl, rfl⟩ := items_unique next items after next' items' _ _ after'
        (List.cons.inj cut).2
      exact ⟨rfl, rfl⟩
termination_by structural well => well

theorem member_unique (text : Str) (name : List Nat) (datum : Datum) : Member text name datum →
    ∀ (other : Str) (name' : List Nat) (datum' : Datum) (rest rest' : Str),
      Member other name' datum' → Ends rest → Ends rest' → text ++ rest = other ++ rest' →
        text = other ∧ name = name' ∧ datum = datum' ∧ rest = rest'
  | .mk before body after text units datum ahead named behind well, other, name', datum', rest,
      rest', well', ends, ends', same => by
    obtain ⟨before', body', after', text', units', _, ahead', named', behind', inner'⟩ := well'
    simp only [quoted, List.append_assoc, List.cons_append, List.nil_append] at same
    obtain ⟨rfl, opened⟩ := span_space _ _ _ _ ahead ahead' (by rintro d ⟨⟩; rfl)
      (by rintro d ⟨⟩; rfl) same
    have inside := (List.cons.inj opened).2
    obtain ⟨rfl, rfl⟩ := units_unique _ _ named _ _ _ _ named' inside
    have closed := (List.cons.inj (List.append_cancel_left inside)).2
    obtain ⟨rfl, tail⟩ := span_space _ _ _ _ behind behind' (by rintro d ⟨⟩; rfl)
      (by rintro d ⟨⟩; rfl) closed
    obtain ⟨rfl, rfl, rfl⟩ := element_unique text datum well text' datum' rest rest' inner' ends
      ends' (List.cons.inj tail).2
    exact ⟨rfl, rfl, rfl, rfl⟩
termination_by structural well => well

theorem members_unique (text : Str) (members : List (List Nat × Datum)) : Members text members →
    ∀ (other : Str) (members' : List (List Nat × Datum)) (rest rest' : Str),
      Members other members' → text ++ '\x7d' :: rest = other ++ '\x7d' :: rest' →
        text = other ∧ members = members'
  | .one text name datum well, other, members', rest, rest', well', same => by
    cases well' with
    | one other name' datum' well' =>
      obtain ⟨rfl, rfl, rfl, -⟩ := member_unique text name datum well other name' datum' _ _ well'
        (by rintro c ⟨⟩; exact .inr (.inr rfl)) (by rintro c ⟨⟩; exact .inr (.inr rfl)) same
      exact ⟨rfl, rfl⟩
    | more other name' datum' next members' well' =>
      rw [List.append_assoc, List.cons_append] at same
      obtain ⟨-, -, -, cut⟩ := member_unique text name datum well other name' datum' _ _ well'
        (by rintro c ⟨⟩; exact .inr (.inr rfl)) (by rintro c ⟨⟩; exact .inl rfl) same
      cases (List.cons.inj cut).1
  | .more text name datum next members well after, other, members', rest, rest', well', same => by
    rw [List.append_assoc, List.cons_append] at same
    cases well' with
    | one other name' datum' well' =>
      obtain ⟨-, -, -, cut⟩ := member_unique text name datum well other name' datum' _ _ well'
        (by rintro c ⟨⟩; exact .inl rfl) (by rintro c ⟨⟩; exact .inr (.inr rfl)) same
      cases (List.cons.inj cut).1
    | more other name' datum' next' members' well' after' =>
      rw [List.append_assoc, List.cons_append] at same
      obtain ⟨rfl, rfl, rfl, cut⟩ := member_unique text name datum well other name' datum' _ _
        well' (by rintro c ⟨⟩; exact .inl rfl) (by rintro c ⟨⟩; exact .inl rfl) same
      obtain ⟨rfl, rfl⟩ := members_unique next members after next' members' _ _ after'
        (List.cons.inj cut).2
      exact ⟨rfl, rfl⟩
termination_by structural well => well

end

theorem element_functional (text : Str) (datum datum' : Datum) (one : Element text datum)
    (two : Element text datum') : datum = datum' :=
  (element_unique text datum one text datum' [] [] two (fun _ none => nomatch none)
    (fun _ none => nomatch none) rfl).2.1

end DeepDiffForge.JsonGrammar
