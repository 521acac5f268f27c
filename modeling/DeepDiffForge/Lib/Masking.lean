import DeepDiffForge.Lib.Utf8

/-! Texts with some of their characters blanked whole: of each character all bytes are kept, or all
are spaces. -/

namespace DeepDiffForge.Masking
open Text Utf8

def blanks (count : Nat) : List UInt8 := List.replicate count 0x20

inductive Masked : Str → List UInt8 → Prop
  | nil : Masked [] []
  | keep (c : Char) (text : Str) (out : List UInt8) (rest : Masked text out) :
      Masked (c :: text) (String.utf8EncodeChar c ++ out)
  | blank (c : Char) (text : Str) (out : List UInt8) (rest : Masked text out) :
      Masked (c :: text) (blanks (String.utf8EncodeChar c).length ++ out)

theorem Masked.length_eq (text : Str) (out : List UInt8) (masked : Masked text out) :
    out.length = (encode text).length := by
  induction masked with
  | nil => rfl
  | keep c text out rest ih => rw [encode_cons, List.length_append, List.length_append, ih]
  | blank c text out rest ih =>
    rw [encode_cons, List.length_append, List.length_append, ih, blanks, List.length_replicate]

theorem masked_encode (text : Str) : Masked text (encode text) := by
  induction text with
  | nil => exact .nil
  | cons c text ih =>
    rw [encode_cons]
    exact .keep c text _ ih

theorem Masked.append (one two : Str) (first second : List UInt8) (masked : Masked one first)
    (masked' : Masked two second) : Masked (one ++ two) (first ++ second) := by
  induction masked with
  | nil => exact masked'
  | keep c text out rest ih =>
    rw [List.append_assoc]
    exact .keep c _ _ ih
  | blank c text out rest ih =>
    rw [List.append_assoc]
    exact .blank c _ _ ih

theorem Masked.cut (one two : Str) (out : List UInt8) (masked : Masked (one ++ two) out) :
    Masked one (out.take (encode one).length) ∧ Masked two (out.drop (encode one).length) := by
  induction one generalizing out with
  | nil => exact ⟨.nil, masked⟩
  | cons c one ih =>
    rw [encode_cons, List.length_append]
    cases masked with
    | keep _ _ out rest =>
      rw [List.take_length_add_append, List.drop_length_add_append]
      exact ⟨.keep c one _ (ih out rest).1, (ih out rest).2⟩
    | blank _ _ out rest =>
      obtain ⟨front, form⟩ : ∃ front, front = blanks (String.utf8EncodeChar c).length := ⟨_, rfl⟩
      have length : front.length = (String.utf8EncodeChar c).length := by
        rw [form, blanks, List.length_replicate]
      rw [← form, ← length, List.take_length_add_append, List.drop_length_add_append, form]
      exact ⟨.blank c one _ (ih out rest).1, (ih out rest).2⟩

theorem Masked.byte (text : Str) (out : List UInt8) (masked : Masked text out) (i : Nat)
    (b : UInt8) (held : out[i]? = some b) : b = 0x20 ∨ (encode text)[i]? = some b := by
  induction masked generalizing i with
  | nil => cases held
  | keep c text out rest ih =>
    rw [encode_cons]
    by_cases inside : i < (String.utf8EncodeChar c).length
    · rw [List.getElem?_append_left inside] at held ⊢
      exact .inr held
    · rw [List.getElem?_append_right (by omega)] at held ⊢
      exact ih _ held
  | blank c text out rest ih =>
    rw [encode_cons]
    have length : (blanks (String.utf8EncodeChar c).length).length =
        (String.utf8EncodeChar c).length := List.length_replicate
    by_cases inside : i < (String.utf8EncodeChar c).length
    · rw [List.getElem?_append_left (by omega)] at held
      exact .inl (List.eq_of_mem_replicate (List.mem_of_getElem? held))
    · rw [List.getElem?_append_right (by omega), length] at held
      rw [List.getElem?_append_right (by omega)]
      exact ih _ held

theorem encode_spaces (count : Nat) : encode (List.replicate count ' ') = blanks count := by
  induction count with
  | zero => rfl
  | succ count ih =>
    rw [List.replicate_succ, encode_cons, ih]
    rfl

theorem Masked.text (text : Str) (out : List UInt8) (masked : Masked text out) :
    ∃ shown, out = encode shown := by
  induction masked with
  | nil => exact ⟨[], rfl⟩
  | keep c text out rest ih =>
    obtain ⟨shown, rfl⟩ := ih
    exact ⟨c :: shown, (encode_cons c shown).symm⟩
  | blank c text out rest ih =>
    obtain ⟨shown, rfl⟩ := ih
    refine ⟨List.replicate (String.utf8EncodeChar c).length ' ' ++ shown, ?_⟩
    rw [encode_append, encode_spaces]

/-- The bytes of a text's start, some of its characters blanked. -/
def View (text : Str) (out : List UInt8) : Prop := ∃ start, start <+: text ∧ Masked start out

theorem View.text (text : Str) (out : List UInt8) (view : View text out) :
    ∃ shown, out = encode shown := by
  obtain ⟨start, -, masked⟩ := view
  exact masked.text start out

theorem View.length_le (text : Str) (out : List UInt8) (view : View text out) :
    out.length ≤ (encode text).length := by
  obtain ⟨start, ⟨rest, rfl⟩, masked⟩ := view
  rw [masked.length_eq start out, encode_append, List.length_append]
  omega

theorem View.byte (text : Str) (out : List UInt8) (view : View text out) (i : Nat) (b : UInt8)
    (held : out[i]? = some b) : b = 0x20 ∨ (encode text)[i]? = some b := by
  obtain ⟨start, ⟨rest, rfl⟩, masked⟩ := view
  refine (masked.byte start out i b held).imp id fun found => ?_
  rw [encode_append, List.getElem?_append_left (List.getElem?_eq_some_iff.1 found).1, found]

/-- A character of a masked text is kept whole or blanked whole. -/
theorem Masked.chars (one two : Str) (c : Char) (out : List UInt8)
    (masked : Masked (one ++ c :: two) out) :
    (∀ k < (String.utf8EncodeChar c).length,
        out[(encode one).length + k]? = (String.utf8EncodeChar c)[k]?) ∨
      ∀ k < (String.utf8EncodeChar c).length, out[(encode one).length + k]? = some 0x20 := by
  have later := (masked.cut one (c :: two) out).2
  simp only [← List.getElem?_drop]
  generalize out.drop (encode one).length = tail at later
  cases later with
  | keep _ _ rest held => exact .inl fun k inside => List.getElem?_append_left inside
  | blank _ _ rest held =>
    refine .inr fun k inside => ?_
    rw [List.getElem?_append_left (by rw [blanks, List.length_replicate]; exact inside), blanks,
      List.getElem?_replicate, if_pos inside]

/-- Bytes that keep or blank each character whole are a masked text. -/
theorem masked_of_chars (text : Str) (out : List UInt8) (length : out.length = (encode text).length)
    (chars : ∀ one c two, text = one ++ c :: two →
      (∀ k < (String.utf8EncodeChar c).length,
          out[(encode one).length + k]? = (String.utf8EncodeChar c)[k]?) ∨
        ∀ k < (String.utf8EncodeChar c).length, out[(encode one).length + k]? = some 0x20) :
    Masked text out := by
  induction text generalizing out with
  | nil =>
    obtain rfl := List.eq_nil_of_length_eq_zero length
    exact .nil
  | cons c text ih =>
    have size : (String.utf8EncodeChar c).length ≤ out.length := by
      rw [length, encode_cons, List.length_append]
      omega
    have tail : Masked text (out.drop (String.utf8EncodeChar c).length) := by
      refine ih _ ?_ ?_
      · rw [List.length_drop, length, encode_cons, List.length_append, Nat.add_sub_cancel_left]
      · intro one d two split
        have held := chars (c :: one) d two (by rw [split]; rfl)
        simp only [encode_cons, List.length_append, Nat.add_assoc] at held
        simpa only [List.getElem?_drop] using held
    have head := chars [] c text rfl
    have start : (encode []).length = 0 := rfl
    simp only [start, Nat.zero_add] at head
    have front (kept : List UInt8) (sized : kept.length = (String.utf8EncodeChar c).length)
        (same : ∀ k < (String.utf8EncodeChar c).length, out[k]? = kept[k]?) :
        out = kept ++ out.drop (String.utf8EncodeChar c).length := by
      refine (List.take_append_drop (String.utf8EncodeChar c).length out).symm.trans ?_
      congr 1
      apply List.ext_getElem?
      intro k
      by_cases inside : k < (String.utf8EncodeChar c).length
      · rw [List.getElem?_take_of_lt inside, same k inside]
      · rw [List.getElem?_take_eq_none (by omega), List.getElem?_eq_none (by omega)]
    rcases head with kept | blanked
    · rw [front _ rfl kept]
      exact .keep c text _ tail
    · rw [front (blanks (String.utf8EncodeChar c).length) List.length_replicate (by
        intro k inside
        rw [blanked k inside, blanks, List.getElem?_replicate, if_pos inside])]
      exact .blank c text _ tail

/-- A view keeps or blanks a character whole, or ends before it. -/
theorem View.chars (one two : Str) (c : Char) (out : List UInt8)
    (view : View (one ++ c :: two) out) :
    (∀ k < (String.utf8EncodeChar c).length,
        out[(encode one).length + k]? = (String.utf8EncodeChar c)[k]?) ∨
      (∀ k < (String.utf8EncodeChar c).length, out[(encode one).length + k]? = some 0x20) ∨
        out.length ≤ (encode one).length := by
  obtain ⟨start, before, masked⟩ := view
  have covered (two' : Str) (whole : start = one ++ c :: two') := by
    rw [whole] at masked
    exact masked.chars one two' c out
  have short (inside : start <+: one) : out.length ≤ (encode one).length := by
    obtain ⟨left, rfl⟩ := inside
    rw [masked.length_eq start out, encode_append, List.length_append]
    omega
  have next : one ++ [c] <+: one ++ c :: two := ⟨two, by rw [List.append_assoc]; rfl⟩
  rcases List.prefix_or_prefix_of_prefix before next with inside | ⟨left, whole⟩
  · rcases List.prefix_concat_iff.1 inside with whole | inside
    · exact (covered [] whole).imp_right .inl
    · exact .inr (.inr (short inside))
  · exact (covered left (by rw [← whole, List.append_assoc]; rfl)).imp_right .inl

/-- Whether a text's first bytes, this many, are whole characters. -/
def Reaches (text : Str) (count : Nat) : Prop :=
  ∃ start rest, text = start ++ rest ∧ (encode start).length = count

theorem reaches_zero (text : Str) : Reaches text 0 := ⟨[], text, rfl, rfl⟩

/-- An ASCII byte is a character of its own. -/
theorem low_splits (text : Str) (i : Nat) (b : UInt8) (held : (encode text)[i]? = some b)
    (low : b.toNat < 0x80) :
    ∃ start c rest, text = start ++ c :: rest ∧ (encode start).length = i ∧ c.toNat < 0x80 := by
  induction text generalizing i with
  | nil => cases held
  | cons c text ih =>
    rw [encode_cons] at held
    have later (j : Nat) (apart : i = (String.utf8EncodeChar c).length + j)
        (found : (encode text)[j]? = some b) :
        ∃ start d rest, c :: text = start ++ d :: rest ∧ (encode start).length = i ∧
          d.toNat < 0x80 := by
      obtain ⟨start, d, rest, rfl, length, plain⟩ := ih j found
      refine ⟨c :: start, d, rest, rfl, ?_, plain⟩
      rw [encode_cons, List.length_append, length, apart]
    by_cases inside : i < (String.utf8EncodeChar c).length
    · rw [List.getElem?_append_left inside] at held
      by_cases plain : c.toNat < 0x80
      · rw [encodeChar_low c plain, List.length_singleton, Nat.lt_one_iff] at inside
        exact ⟨[], c, text, rfl, inside.symm, plain⟩
      · have high := encodeChar_high c (by omega) b (List.mem_of_getElem? held)
        omega
    · rw [List.getElem?_append_right (by omega)] at held
      exact later _ (by omega) held

theorem reaches_at (text : Str) (i : Nat) (b : UInt8) (held : (encode text)[i]? = some b)
    (low : b.toNat < 0x80) : Reaches text i := by
  obtain ⟨start, c, rest, rfl, length, -⟩ := low_splits text i b held low
  exact ⟨start, c :: rest, rfl, length⟩

theorem reaches_after (text : Str) (i : Nat) (b : UInt8) (held : (encode text)[i]? = some b)
    (low : b.toNat < 0x80) : Reaches text (i + 1) := by
  obtain ⟨start, c, rest, rfl, length, plain⟩ := low_splits text i b held low
  refine ⟨start ++ [c], rest, by rw [List.append_assoc]; rfl, ?_⟩
  rw [encode_append, List.length_append, length, encode_cons, encodeChar_low c plain]
  rfl

theorem encodeChar_pos (c : Char) : 0 < (String.utf8EncodeChar c).length := by
  rw [String.length_utf8EncodeChar]
  exact c.utf8Size_pos

/-- What reaches past a first character covers it. -/
theorem reaches_cons (c : Char) (text : Str) (count : Nat) (positive : 0 < count)
    (reaches : Reaches (c :: text) count) :
    (String.utf8EncodeChar c).length ≤ count ∧
      Reaches text (count - (String.utf8EncodeChar c).length) := by
  obtain ⟨start, rest, whole, length⟩ := reaches
  cases start with
  | nil =>
    rw [encode, List.flatMap_nil, List.length_nil] at length
    omega
  | cons first start =>
    obtain ⟨rfl, rfl⟩ := List.cons.inj whole
    rw [encode_cons, List.length_append] at length
    exact ⟨by omega, start, rest, rfl, by omega⟩

end DeepDiffForge.Masking
