import DeepDiffForge.Lib.Utf8
import DeepDiffForge.Lib.Decimal

/-! JSON as a compact serializer writes it, and the bytes it takes once every character that
could break a line or move a cursor is escaped. -/

namespace DeepDiffForge.Json
open Text

def hexDigits (width n : Nat) : Str :=
  match width with
  | 0 => []
  | width + 1 => hexDigits width (n / 16) ++ [Nat.digitChar (n % 16)]

def unicodeEscape (c : Char) : Str := '\\' :: 'u' :: hexDigits 4 c.toNat

/-- A character as the serializer writes it inside a string. -/
def escapeChar (c : Char) : Str :=
  if c = '"' then ['\\', '"']
  else if c = '\\' then ['\\', '\\']
  else if c.toNat = 0x08 then ['\\', 'b']
  else if c.toNat = 0x09 then ['\\', 't']
  else if c.toNat = 0x0A then ['\\', 'n']
  else if c.toNat = 0x0C then ['\\', 'f']
  else if c.toNat = 0x0D then ['\\', 'r']
  else if c.toNat < 0x20 then unicodeEscape c
  else [c]

def string (text : Str) : Str := '"' :: (text.flatMap escapeChar ++ ['"'])

def null : Str := "null".toList

def bool (value : Bool) : Str := if value then "true".toList else "false".toList

def number (n : Nat) : Str := decimal n

def array (items : List Str) : Str := '[' :: ([','].intercalate items ++ [']'])

def member (name value : Str) : Str := string name ++ ':' :: value

def object (members : List (Str × Str)) : Str :=
  '\x7b' :: ([','].intercalate (members.map fun entry => member entry.1 entry.2) ++ ['\x7d'])

def optional (write : α → Str) : Option α → Str
  | none => null
  | some value => write value

/-- The characters a serializer leaves raw that are escaped before the text is written out. -/
def needsLineSafeEscape (c : Char) : Bool :=
  (0x7F ≤ c.toNat && c.toNat ≤ 0x9F) || c.toNat = 0x2028 || c.toNat = 0x2029

def lineSafeChar (c : Char) : Str := if needsLineSafeEscape c then unicodeEscape c else [c]

def lineSafe (text : Str) : Str := text.flatMap lineSafeChar

def size (text : Str) : Nat := (Utf8.encode (lineSafe text)).length

@[simp] theorem size_nil : size [] = 0 := rfl

@[simp] theorem size_append (first second : Str) :
    size (first ++ second) = size first + size second := by
  simp only [size, lineSafe, Utf8.encode, List.flatMap_append, List.length_append]

theorem size_cons (c : Char) (text : Str) : size (c :: text) = size [c] + size text :=
  size_append [c] text

def cost (items : List Str) : Nat := items.foldr (fun item bytes => size item + 1 + bytes) 0

@[simp] theorem cost_nil : cost [] = 0 := rfl

@[simp] theorem cost_cons (item : Str) (items : List Str) :
    cost (item :: items) = size item + 1 + cost items := rfl

@[simp] theorem cost_append (first second : List Str) :
    cost (first ++ second) = cost first + cost second := by
  induction first with
  | nil => simp
  | cons item first ih =>
    rw [List.cons_append, cost_cons, cost_cons, ih]
    omega

theorem size_le_cost (items : List Str) (item : Str) (listed : item ∈ items) :
    size item + 1 ≤ cost items := by
  induction items with
  | nil => cases listed
  | cons other items ih =>
    rw [cost_cons]
    rcases List.mem_cons.1 listed with rfl | later
    · omega
    · have rest := ih later
      omega

def printable (c : Char) : Bool := 0x20 ≤ c.toNat && c.toNat < 0x7F

/-- Printable ASCII that no escape rule names. -/
def plain (c : Char) : Bool := printable c && c ≠ '"' && c ≠ '\\'

theorem lineSafe_printable (text : Str) (ascii : ∀ c ∈ text, printable c = true) :
    lineSafe text = text := by
  induction text with
  | nil => rfl
  | cons c text ih =>
    have first := ascii c (by simp)
    simp only [printable, Bool.and_eq_true, decide_eq_true_eq] at first
    have raw : needsLineSafeEscape c = false := by
      simp only [needsLineSafeEscape, Bool.or_eq_false_iff, Bool.and_eq_false_iff,
        decide_eq_false_iff_not]
      omega
    have rest := ih fun other later => ascii other (by simp [later])
    rw [lineSafe] at rest ⊢
    rw [List.flatMap_cons, rest, lineSafeChar, raw]
    rfl

theorem encode_printable (text : Str) (ascii : ∀ c ∈ text, printable c = true) :
    (Utf8.encode text).length = text.length := by
  induction text with
  | nil => rfl
  | cons c text ih =>
    have first := ascii c (by simp)
    simp only [printable, Bool.and_eq_true, decide_eq_true_eq] at first
    have short : c.utf8Size = 1 := by
      have high : c.val.toNat < 127 := first.2
      rw [Char.utf8Size_eq_one_iff, UInt32.le_iff_toNat_le]
      simp only [UInt32.reduceToNat]
      omega
    have rest := ih fun other later => ascii other (by simp [later])
    rw [Utf8.encode] at rest ⊢
    rw [List.flatMap_cons, List.length_append, String.length_utf8EncodeChar, short, rest,
      List.length_cons]
    omega

theorem size_printable (text : Str) (ascii : ∀ c ∈ text, printable c = true) :
    size text = text.length := by
  rw [size, lineSafe_printable text ascii, encode_printable text ascii]

theorem size_sign (c : Char) (ascii : printable c = true) : size [c] = 1 :=
  size_printable [c] fun other listed => by rwa [List.mem_singleton.1 listed]

theorem printable_of_plain (c : Char) (ordinary : plain c = true) : printable c = true := by
  simp only [plain, Bool.and_eq_true] at ordinary
  exact ordinary.1.1

theorem plain_decimal (n : Nat) : ∀ c ∈ decimal n, plain c = true := by
  intro c listed
  have digit := decimal_digit n c listed
  rw [Char.isDigit_iff_toNat] at digit
  have low : '0'.toNat = 48 := rfl
  have high : '9'.toNat = 57 := rfl
  have quote : c ≠ '"' := by
    rintro rfl
    exact absurd digit (by decide)
  have slash : c ≠ '\\' := by
    rintro rfl
    exact absurd digit (by decide)
  simp only [plain, printable, Bool.and_eq_true, decide_eq_true_eq]
  exact ⟨⟨by omega, quote⟩, slash⟩

theorem escapeChar_plain (c : Char) (ordinary : plain c = true) : escapeChar c = [c] := by
  simp only [plain, printable, Bool.and_eq_true, decide_eq_true_eq] at ordinary
  obtain ⟨⟨⟨low, high⟩, quote⟩, slash⟩ := ordinary
  rw [escapeChar, if_neg quote, if_neg slash, if_neg (by omega), if_neg (by omega),
    if_neg (by omega), if_neg (by omega), if_neg (by omega), if_neg (by omega)]

theorem string_plain (text : Str) (ordinary : ∀ c ∈ text, plain c = true) :
    string text = '"' :: (text ++ ['"']) := by
  have same : text.flatMap escapeChar = text := by
    induction text with
    | nil => rfl
    | cons c text ih =>
      rw [List.flatMap_cons, escapeChar_plain c (ordinary c (by simp)),
        ih fun other later => ordinary other (by simp [later])]
      rfl
  rw [string, same]

/-- A text of plain characters takes one byte each, and its quotes. -/
theorem size_string_plain (text : Str) (ordinary : ∀ c ∈ text, plain c = true) :
    size (string text) = text.length + 2 := by
  have ascii : size text = text.length :=
    size_printable text fun c listed => printable_of_plain c (ordinary c listed)
  have quote : size ['"'] = 1 := size_sign _ rfl
  rw [string_plain text ordinary, size_cons, size_append, ascii, quote]
  omega

theorem printable_digitChar (n : Nat) (digit : n < 16) : printable (Nat.digitChar n) = true := by
  have every : ∀ n < 16, printable (Nat.digitChar n) = true := by decide
  exact every n digit

theorem printable_hexDigits (width n : Nat) : ∀ c ∈ hexDigits width n, printable c = true := by
  induction width generalizing n with
  | zero => simp [hexDigits]
  | succ width ih =>
    intro c listed
    rcases List.mem_append.1 listed with earlier | last
    · exact ih (n / 16) c earlier
    · obtain rfl := List.mem_singleton.1 last
      exact printable_digitChar _ (by omega)

theorem length_hexDigits (width n : Nat) : (hexDigits width n).length = width := by
  induction width generalizing n with
  | zero => rfl
  | succ width ih => rw [hexDigits, List.length_append, ih, List.length_singleton]

theorem printable_unicodeEscape (c : Char) : ∀ other ∈ unicodeEscape c, printable other = true := by
  intro other listed
  rcases List.mem_cons.1 listed with rfl | listed
  · decide
  · rcases List.mem_cons.1 listed with rfl | listed
    · decide
    · exact printable_hexDigits _ _ other listed

theorem length_unicodeEscape (c : Char) : (unicodeEscape c).length = 6 := by
  rw [unicodeEscape, List.length_cons, List.length_cons, length_hexDigits]

theorem size_escapeChar (c : Char) : 1 ≤ size (escapeChar c) ∧ size (escapeChar c) ≤ 6 := by
  have raw : 1 ≤ size [c] ∧ size [c] ≤ 6 := by
    have single : lineSafe [c] = lineSafeChar c := List.append_nil _
    rw [size, single, lineSafeChar]
    split
    · rw [encode_printable _ (printable_unicodeEscape c), length_unicodeEscape]
      omega
    · have bytes : (Utf8.encode [c]).length = c.utf8Size := by
        simp [Utf8.encode]
      have least := c.utf8Size_pos
      have most := c.utf8Size_le_four
      omega
  unfold escapeChar
  split_ifs
  · decide
  · decide
  · decide
  · decide
  · decide
  · decide
  · decide
  · rw [size_printable _ (printable_unicodeEscape c), length_unicodeEscape]
    omega
  · exact raw

/-- A string takes at most six bytes for each of its own, and its quotes. -/
theorem size_string_le (text : Str) :
    size (string text) ≤ 6 * (Utf8.encode text).length + 2 := by
  have quote : size ['"'] = 1 := size_sign _ rfl
  have inner : size (text.flatMap escapeChar) ≤ 6 * (Utf8.encode text).length := by
    induction text with
    | nil => exact Nat.le_refl 0
    | cons c text ih =>
      have first := (size_escapeChar c).2
      have least := c.utf8Size_pos
      rw [Utf8.encode] at ih ⊢
      rw [List.flatMap_cons, size_append, List.flatMap_cons, List.length_append,
        String.length_utf8EncodeChar]
      omega
  rw [string, size_cons, size_append, quote]
  omega

theorem length_le_size_string (text : Str) : text.length ≤ size (string text) := by
  have inner : text.length ≤ size (text.flatMap escapeChar) := by
    induction text with
    | nil => exact Nat.le_refl 0
    | cons c text ih =>
      have first := (size_escapeChar c).1
      rw [List.flatMap_cons, size_append, List.length_cons]
      omega
  rw [string, size_cons, size_append]
  omega

theorem size_number (n : Nat) : size (number n) = (decimal n).length :=
  size_printable _ fun c listed => printable_of_plain c (plain_decimal n c listed)

theorem size_joined (items : List Str) (nonempty : items ≠ []) :
    size ([','].intercalate items) + 1 = cost items := by
  have comma : size [','] = 1 := size_sign _ rfl
  induction items with
  | nil => exact absurd rfl nonempty
  | cons item items ih =>
    cases items with
    | nil => rw [List.intercalate_singleton, cost_cons, cost_nil]
    | cons other items =>
      rw [List.intercalate_cons_cons, size_append, size_append, comma, cost_cons,
        ← ih (by simp)]
      omega

theorem size_array_nil : size (array []) = 2 := by decide

theorem size_array (items : List Str) (nonempty : items ≠ []) :
    size (array items) = cost items + 1 := by
  have left : size ['['] = 1 := size_sign _ rfl
  have right : size [']'] = 1 := size_sign _ rfl
  have joined := size_joined items nonempty
  rw [array, size_cons, size_append, left, right]
  omega

theorem size_array_le (items : List Str) : size (array items) ≤ cost items + 2 := by
  by_cases absent : items = []
  · rw [absent, size_array_nil]
    omega
  · rw [size_array items absent]
    omega

theorem size_member (name value : Str) :
    size (member name value) = size (string name) + 1 + size value := by
  have colon : size [':'] = 1 := size_sign _ rfl
  rw [member, size_append, size_cons, colon]
  omega

/-- The bytes of an object: each member with the comma or brace after it. -/
theorem size_object (members : List (Str × Str)) (nonempty : members ≠ []) :
    size (object members) = cost (members.map fun entry => member entry.1 entry.2) + 1 := by
  have left : size ['\x7b'] = 1 := size_sign _ rfl
  have right : size ['\x7d'] = 1 := size_sign _ rfl
  have joined := size_joined (members.map fun entry => member entry.1 entry.2) (by simpa using nonempty)
  rw [object, size_cons, size_append, left, right]
  omega

section Length

theorem length_string (text : Str) : text.length + 2 ≤ (string text).length := by
  have escaped (c : Char) : 1 ≤ (escapeChar c).length := by
    unfold escapeChar
    split_ifs <;> simp [unicodeEscape]
  have body : text.length ≤ (text.flatMap escapeChar).length := by
    induction text with
    | nil => exact Nat.zero_le _
    | cons c text ih =>
      have first := escaped c
      rw [List.flatMap_cons, List.length_append, List.length_cons]
      omega
  rw [string, List.length_cons, List.length_append, List.length_singleton]
  omega

theorem length_number (n : Nat) : 1 ≤ (number n).length :=
  List.length_pos_iff.2 (decimal_ne_nil n)

theorem length_bool (value : Bool) : 4 ≤ (bool value).length := by
  cases value <;> decide

theorem length_array (items : List Str) : 2 ≤ (array items).length := by
  rw [array, List.length_cons, List.length_append, List.length_singleton]
  omega

theorem length_optional {α : Type} (write : α → Str) (least : Nat) (short : least ≤ 4)
    (each : ∀ value, least ≤ (write value).length) (value : Option α) :
    least ≤ (optional write value).length := by
  cases value with
  | none => exact short
  | some value => exact each value

theorem length_joined (items : List Str) (nonempty : items ≠ []) :
    ([','].intercalate items).length + 1 =
      items.foldr (fun item sum => item.length + 1 + sum) 0 := by
  induction items with
  | nil => exact absurd rfl nonempty
  | cons item items ih =>
    cases items with
    | nil => rw [List.intercalate_singleton]; rfl
    | cons other items =>
      rw [List.intercalate_cons_cons, List.length_append, List.length_append, List.foldr_cons,
        ← ih (by simp), List.length_singleton]
      omega

theorem length_object (members : List (Str × Str)) (nonempty : members ≠ []) :
    (object members).length = 1 + members.foldr
      (fun entry sum => (string entry.1).length + 1 + entry.2.length + 1 + sum) 0 := by
  have joined := length_joined (members.map fun entry => member entry.1 entry.2) (by simpa using nonempty)
  rw [List.foldr_map] at joined
  have each (entry : Str × Str) : (member entry.1 entry.2).length =
      (string entry.1).length + 1 + entry.2.length := by
    rw [member, List.length_append, List.length_cons]
    omega
  simp only [each] at joined
  rw [← joined, object, List.length_cons, List.length_append, List.length_singleton]
  omega

theorem length_members (members : List (Str × Str)) (nonempty : members ≠ []) :
    1 + members.foldr (fun entry sum => entry.1.length + entry.2.length + 4 + sum) 0 ≤
      (object members).length := by
  rw [length_object members nonempty]
  apply Nat.add_le_add_left
  clear nonempty
  induction members with
  | nil => exact Nat.le_refl 0
  | cons entry members ih =>
    have name := length_string entry.1
    rw [List.foldr_cons, List.foldr_cons]
    omega

end Length

/-- No control character, so in particular no line end. -/
def Unbroken (text : Str) : Prop := ∀ c ∈ text, 0x20 ≤ c.toNat

section Unbroken

theorem unbroken_append (first second : Str) (one : Unbroken first) (two : Unbroken second) :
    Unbroken (first ++ second) :=
  List.forall_mem_append.2 ⟨one, two⟩

theorem unbroken_cons (c : Char) (text : Str) (one : 0x20 ≤ c.toNat) (rest : Unbroken text) :
    Unbroken (c :: text) :=
  List.forall_mem_cons.2 ⟨one, rest⟩

theorem unbroken_printable (text : Str) (ascii : ∀ c ∈ text, printable c = true) :
    Unbroken text := by
  intro c listed
  have shown := ascii c listed
  simp only [printable, Bool.and_eq_true, decide_eq_true_eq] at shown
  exact shown.1

theorem unbroken_escapeChar (c : Char) : Unbroken (escapeChar c) := by
  unfold escapeChar
  split_ifs with quote slash back tab feed form turn control
  · simp [Unbroken]
  · simp [Unbroken]
  · simp [Unbroken]
  · simp [Unbroken]
  · simp [Unbroken]
  · simp [Unbroken]
  · simp [Unbroken]
  · exact unbroken_printable _ (printable_unicodeEscape c)
  · exact unbroken_cons c [] (Nat.not_lt.1 control) (by simp [Unbroken])

theorem unbroken_string (text : Str) : Unbroken (string text) := by
  have inner : Unbroken (text.flatMap escapeChar) := by
    intro c listed
    obtain ⟨other, -, escaped⟩ := List.mem_flatMap.1 listed
    exact unbroken_escapeChar other c escaped
  exact unbroken_cons _ _ (by decide) (unbroken_append _ _ inner (by simp [Unbroken]))

theorem unbroken_number (n : Nat) : Unbroken (number n) :=
  unbroken_printable _ fun c listed => printable_of_plain c (plain_decimal n c listed)

theorem unbroken_bool (value : Bool) : Unbroken (bool value) := by
  cases value <;> exact unbroken_printable _ (List.all_eq_true.1 (by decide))

theorem unbroken_optional {α : Type} (write : α → Str) (each : ∀ value, Unbroken (write value))
    (value : Option α) : Unbroken (optional write value) := by
  cases value with
  | none =>
    change Unbroken null
    exact unbroken_printable _ (List.all_eq_true.1 (by decide))
  | some value => exact each value

theorem unbroken_joined (items : List Str) (each : ∀ item ∈ items, Unbroken item) :
    Unbroken ([','].intercalate items) := by
  induction items with
  | nil => simp [Unbroken]
  | cons item items ih =>
    rw [List.forall_mem_cons] at each
    cases items with
    | nil =>
      rw [List.intercalate_singleton]
      exact each.1
    | cons other items =>
      rw [List.intercalate_cons_cons]
      exact unbroken_append _ _ (unbroken_append _ _ each.1 (by simp [Unbroken])) (ih each.2)

theorem unbroken_array (items : List Str) (each : ∀ item ∈ items, Unbroken item) :
    Unbroken (array items) :=
  unbroken_cons _ _ (by decide)
    (unbroken_append _ _ (unbroken_joined items each) (by simp [Unbroken]))

theorem unbroken_object (members : List (Str × Str))
    (each : ∀ entry ∈ members, Unbroken entry.2) : Unbroken (object members) := by
  refine unbroken_cons _ _ (by decide) (unbroken_append _ _ (unbroken_joined _ ?_)
    (by simp [Unbroken]))
  intro item listed
  obtain ⟨entry, own, rfl⟩ := List.mem_map.1 listed
  exact unbroken_append _ _ (unbroken_string _) (unbroken_cons _ _ (by decide) (each entry own))

end Unbroken

end DeepDiffForge.Json
