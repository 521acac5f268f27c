import DeepDiffForge.Lib.JsonLines

/-! The two JSON escapers of the core: one writes a string literal, the other rewrites a document
that is already serialized. JSON decoding undoes both. -/

namespace DeepDiffForge.Core
open Text Json JsonGrammar

def jsonEscapeChar (c : Char) : Str :=
  if c = '"' then ['\\', '"']
  else if c = '\\' then ['\\', '\\']
  else if c = '\n' then ['\\', 'n']
  else if c = '\r' then ['\\', 'r']
  else if c = '\t' then ['\\', 't']
  else if c.toNat = 0x08 then ['\\', 'b']
  else if c.toNat = 0x0C then ['\\', 'f']
  else if c.toNat < 0x20 || (0x7F ≤ c.toNat && c.toNat ≤ 0x9F) || c.toNat = 0x2028 ||
      c.toNat = 0x2029 then unicodeEscape c
  else [c]

def jsonEscape (value : Str) : Str := '"' :: (value.flatMap jsonEscapeChar ++ ['"'])

def jsonLineSafe (json : Str) : Str :=
  match json.findIdx? needsLineSafeEscape with
  | none => json
  | some first => json.take first ++
      (json.drop first).flatMap fun c => if needsLineSafeEscape c then unicodeEscape c else [c]

theorem jsonLineSafe_eq (json : Str) : jsonLineSafe json = lineSafe json := by
  rw [jsonLineSafe]
  cases found : json.findIdx? needsLineSafeEscape with
  | none => exact (lineSafe_ordinary json (List.findIdx?_eq_none_iff.1 found)).symm
  | some first =>
    have safe : ∀ c ∈ json.take first, needsLineSafeEscape c = false := by
      intro c listed
      obtain ⟨i, below, rfl⟩ := List.getElem_of_mem listed
      rw [List.length_take] at below
      rw [List.getElem_take]
      exact eq_false_of_ne_true
        ((List.findIdx?_eq_some_iff_getElem.1 found).2.2 i (by omega))
    calc json.take first ++ lineSafe (json.drop first)
        = lineSafe (json.take first) ++ lineSafe (json.drop first) := by
          rw [lineSafe_ordinary _ safe]
      _ = lineSafe json := by rw [← lineSafe_append, List.take_append_drop]

theorem units_jsonEscapeChar (c : Char) : Units (jsonEscapeChar c) (unitsOf c) := by
  rw [jsonEscapeChar]
  split_ifs with quote backslash feed carriage tab bell form low
  · exact units_short _ _ (quote ▸ by decide) (by rw [quote]; rfl)
  · exact units_short _ _ (backslash ▸ by decide) (by rw [backslash]; rfl)
  · exact units_short _ _ (feed ▸ by decide) (feed ▸ rfl)
  · exact units_short _ _ (carriage ▸ by decide) (carriage ▸ rfl)
  · exact units_short _ _ (tab ▸ by decide) (tab ▸ rfl)
  · exact units_short _ _ (by omega) (bell ▸ rfl)
  · exact units_short _ _ (by omega) (form ▸ rfl)
  · simp only [Bool.or_eq_true, Bool.and_eq_true, decide_eq_true_eq] at low
    exact units_unicodeEscape c (by omega)
  · simp only [Bool.or_eq_true, Bool.and_eq_true, decide_eq_true_eq] at low
    refine units_raw c ?_
    simp only [unescaped, Bool.and_eq_true, decide_eq_true_eq]
    exact ⟨⟨by omega, quote⟩, backslash⟩

theorem jsonEscapeChar_safe (c : Char) :
    ∀ d ∈ jsonEscapeChar c, 0x20 ≤ d.toNat ∧ ¬Breaking d := by
  rw [jsonEscapeChar]
  split_ifs with quote backslash feed carriage tab bell form low
  on_goal 8 => exact fun d listed => printable_safe d (printable_unicodeEscape c d listed)
  on_goal 8 =>
    intro d listed
    obtain rfl := List.mem_singleton.1 listed
    simp only [Bool.or_eq_true, Bool.and_eq_true, decide_eq_true_eq] at low
    rw [Breaking]
    omega
  all_goals exact fun d listed => printable_safe d (List.all_eq_true.1 (by decide) d listed)

theorem jsonEscape_safe (value : Str) :
    ∀ c ∈ jsonEscape value, 0x20 ≤ c.toNat ∧ ¬Breaking c := by
  intro c listed
  rcases List.mem_cons.1 listed with rfl | listed
  · exact printable_safe _ (by decide)
  · rcases List.mem_append.1 listed with listed | listed
    · obtain ⟨source, -, escaped⟩ := List.mem_flatMap.1 listed
      exact jsonEscapeChar_safe source c escaped
    · obtain rfl := List.mem_singleton.1 listed
      exact printable_safe _ (by decide)

theorem denotes_jsonEscape (value : Str) : Denotes (jsonEscape value) (.string (utf16 value)) :=
  .string _ _ (units_flatMap jsonEscapeChar units_jsonEscapeChar value)

/-- A literal denotes its text alone, and a document rewritten denotes what it denoted; neither
holds a character that ends a line or moves a cursor. -/
theorem escapes_exact :
    (∀ value : Str,
      (∀ datum, Denotes (jsonEscape value) datum ↔ datum = .string (utf16 value)) ∧
      (∀ other, Denotes (jsonEscape value) (.string (utf16 other)) ↔ other = value) ∧
      ∀ c ∈ jsonEscape value, 0x20 ≤ c.toNat ∧ ¬Breaking c) ∧
    ∀ json datum, Element json datum →
      (∀ c ∈ jsonLineSafe json, ¬Breaking c) ∧
      (∀ datum', Element (jsonLineSafe json) datum' ↔ datum' = datum) ∧
      jsonLineSafe (jsonLineSafe json) = jsonLineSafe json := by
  constructor
  · intro value
    have literal := denotes_jsonEscape value
    have alone (datum : Datum) (well : Denotes (jsonEscape value) datum) :
        datum = .string (utf16 value) :=
      (denotes_unique _ _ well _ _ [] [] literal (fun _ none => nomatch none)
        (fun _ none => nomatch none) rfl).2
    refine ⟨fun datum => ⟨alone datum, fun same => same ▸ literal⟩, fun other => ⟨?_, ?_⟩,
      jsonEscape_safe value⟩
    · intro well
      exact utf16_injective other value (Datum.string.inj (alone _ well))
    · rintro rfl
      exact literal
  · intro json datum well
    have free := lineSafe_free json
    have kept := element_lineSafe json datum well
    rw [jsonLineSafe_eq, jsonLineSafe_eq]
    refine ⟨fun c listed => (safe_iff c).1 (free c listed), fun datum' => ⟨?_, ?_⟩,
      lineSafe_ordinary _ free⟩
    · exact fun other => element_functional _ _ _ other kept
    · rintro rfl
      exact kept

theorem escapes_exact_delete :
    (∀ c ∈ jsonLineSafe ['"', '\x7f', '"'], ¬Breaking c) ∧
      (∀ datum, Element (jsonLineSafe ['"', '\x7f', '"']) datum ↔ datum = .string [0x7F]) ∧
      jsonLineSafe (jsonLineSafe ['"', '\x7f', '"']) = jsonLineSafe ['"', '\x7f', '"'] :=
  escapes_exact.2 ['"', '\x7f', '"'] (.string [0x7F])
    (.mk [] _ [] _ (fun _ none => nomatch none)
      (.string ['\x7f'] [0x7F] (.plain '\x7f' [] [] rfl .nil)) (fun _ none => nomatch none))

end DeepDiffForge.Core
