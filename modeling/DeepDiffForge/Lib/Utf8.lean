import DeepDiffForge.Lib.Text

/-! UTF-8: characters to bytes, bytes to characters, and the lossy reading that puts one
U+FFFD for each maximal ill-formed piece. -/

namespace DeepDiffForge.Utf8
open Text

def encode (text : Str) : List UInt8 := text.flatMap String.utf8EncodeChar

def continues (b : UInt8) : Bool := 0x80 ≤ b.toNat && b.toNat ≤ 0xBF

/-- The second byte of a three-byte form: no overlong form and no surrogate. -/
def secondOfThree (a b : UInt8) : Bool :=
  (a.toNat = 0xE0 && 0xA0 ≤ b.toNat && b.toNat ≤ 0xBF) ||
  (0xE1 ≤ a.toNat && a.toNat ≤ 0xEC && continues b) ||
  (a.toNat = 0xED && 0x80 ≤ b.toNat && b.toNat ≤ 0x9F) ||
  (0xEE ≤ a.toNat && a.toNat ≤ 0xEF && continues b)

/-- The second byte of a four-byte form: no overlong form and nothing past U+10FFFF. -/
def secondOfFour (a b : UInt8) : Bool :=
  (a.toNat = 0xF0 && 0x90 ≤ b.toNat && b.toNat ≤ 0xBF) ||
  (0xF1 ≤ a.toNat && a.toNat ≤ 0xF3 && continues b) ||
  (a.toNat = 0xF4 && 0x80 ≤ b.toNat && b.toNat ≤ 0x8F)

/-- Read one character from the byte `a` and those after it, or `none` for a maximal
ill-formed piece, with what follows. -/
def next (a : UInt8) (rest : List UInt8) : Option Char × List UInt8 :=
  if a.toNat < 0x80 then (some (Char.ofNat a.toNat), rest)
  else if 0xC2 ≤ a.toNat ∧ a.toNat ≤ 0xDF then
    match rest with
    | b :: rest₁ =>
        if continues b then
          (some (Char.ofNat ((a.toNat - 0xC0) * 64 + (b.toNat - 0x80))), rest₁)
        else (none, rest)
    | [] => (none, rest)
  else if 0xE0 ≤ a.toNat ∧ a.toNat ≤ 0xEF then
    match rest with
    | b :: rest₁ =>
        if secondOfThree a b then
          match rest₁ with
          | c :: rest₂ =>
              if continues c then
                (some (Char.ofNat (((a.toNat - 0xE0) * 64 + (b.toNat - 0x80)) * 64 +
                  (c.toNat - 0x80))), rest₂)
              else (none, rest₁)
          | [] => (none, rest₁)
        else (none, rest)
    | [] => (none, rest)
  else if 0xF0 ≤ a.toNat ∧ a.toNat ≤ 0xF4 then
    match rest with
    | b :: rest₁ =>
        if secondOfFour a b then
          match rest₁ with
          | c :: rest₂ =>
              if continues c then
                match rest₂ with
                | d :: rest₃ =>
                    if continues d then
                      (some (Char.ofNat ((((a.toNat - 0xF0) * 64 + (b.toNat - 0x80)) * 64 +
                        (c.toNat - 0x80)) * 64 + (d.toNat - 0x80))), rest₃)
                    else (none, rest₂)
                | [] => (none, rest₂)
              else (none, rest₁)
          | [] => (none, rest₁)
        else (none, rest)
    | [] => (none, rest)
  else (none, rest)

def chunksFuel : Nat → List UInt8 → List (Option Char)
  | 0, _ => []
  | _ + 1, [] => []
  | fuel + 1, a :: rest => (next a rest).1 :: chunksFuel fuel (next a rest).2

def chunks (bytes : List UInt8) : List (Option Char) := chunksFuel bytes.length bytes

def decode (bytes : List UInt8) : Option Str := (chunks bytes).mapM id

def lossy (bytes : List UInt8) : Str := (chunks bytes).map (·.getD '\uFFFD')

theorem next_length (a : UInt8) (rest : List UInt8) : (next a rest).2.length ≤ rest.length := by
  unfold next
  repeat' split
  all_goals simp only [List.length_cons]; omega

theorem chunksFuel_enough (fuel : Nat) (bytes : List UInt8) (enough : bytes.length ≤ fuel) :
    chunksFuel fuel bytes = chunks bytes := by
  unfold chunks
  induction fuel using Nat.strong_induction_on generalizing bytes with
  | _ fuel ih =>
    cases bytes with
    | nil => cases fuel <;> rfl
    | cons a rest =>
      cases fuel with
      | zero => simp at enough
      | succ fuel =>
        have short := next_length a rest
        simp only [List.length_cons, Nat.add_le_add_iff_right] at enough
        simp only [chunksFuel, List.length_cons, List.cons.injEq, true_and]
        rw [ih fuel (by omega) _ (by omega)]
        by_cases same : rest.length = fuel
        · rw [same, ih fuel (by omega) _ (by omega)]
        · rw [ih rest.length (by omega) _ short]

@[simp] theorem chunks_nil : chunks [] = [] := rfl

theorem chunks_cons (a : UInt8) (rest : List UInt8) :
    chunks (a :: rest) = (next a rest).1 :: chunks (next a rest).2 := by
  rw [← chunksFuel_enough _ _ (next_length a rest)]
  rfl

/-- An ASCII byte is never inside a longer form, so what precedes it is read without it. -/
theorem next_append_ascii (a y : UInt8) (xs ys : List UInt8) (ascii : y.toNat < 0x80) :
    next a (xs ++ y :: ys) = ((next a xs).1, (next a xs).2 ++ y :: ys) := by
  have notCont : continues y = false := by simp [continues]; omega
  have notThree : secondOfThree a y = false := by simp [secondOfThree, notCont]; omega
  have notFour : secondOfFour a y = false := by simp [secondOfFour, notCont]; omega
  unfold next
  split
  · rfl
  split
  · cases xs with
    | nil => simp [notCont]
    | cons b xs => simp only [List.cons_append]; split <;> rfl
  split
  · cases xs with
    | nil => simp [notThree]
    | cons b xs =>
      simp only [List.cons_append]
      split
      · cases xs with
        | nil => simp [notCont]
        | cons c xs => simp only [List.cons_append]; split <;> rfl
      · rfl
  split
  · cases xs with
    | nil => simp [notFour]
    | cons b xs =>
      simp only [List.cons_append]
      split
      · cases xs with
        | nil => simp [notCont]
        | cons c xs =>
          simp only [List.cons_append]
          split
          · cases xs with
            | nil => simp [notCont]
            | cons d xs => simp only [List.cons_append]; split <;> rfl
          · rfl
      · rfl
  · rfl

theorem next_ascii (a : UInt8) (rest : List UInt8) (ascii : a.toNat < 0x80) :
    next a rest = (some (Char.ofNat a.toNat), rest) := by simp [next, ascii]

/-- No character begins with a continuation byte. -/
theorem next_continues (a : UInt8) (rest : List UInt8) (inside : continues a = true) :
    (next a rest).1 = none := by
  simp only [continues, Bool.and_eq_true, decide_eq_true_eq] at inside
  unfold next
  rw [if_neg (by omega), if_neg (by omega), if_neg (by omega), if_neg (by omega)]

theorem chunks_append_ascii (xs ys : List UInt8) (y : UInt8) (ascii : y.toNat < 0x80) :
    chunks (xs ++ y :: ys) = chunks xs ++ some (Char.ofNat y.toNat) :: chunks ys := by
  induction size : xs.length using Nat.strong_induction_on generalizing xs with
  | _ size ih =>
    cases xs with
    | nil => simp [chunks_cons, next_ascii y ys ascii]
    | cons a xs =>
      have short := next_length a xs
      simp only [List.length_cons] at size
      simp only [List.cons_append, chunks_cons, next_append_ascii a y xs ys ascii,
        List.cons.injEq, true_and]
      exact ih _ (by omega) _ rfl

private theorem ofNat_val (c : Char) : Char.ofNat c.val.toNat = c := Char.ofNat_toNat c

theorem next_encodeChar (c : Char) (rest : List UInt8) :
    ∃ a bytes, String.utf8EncodeChar c = a :: bytes ∧ next a (bytes ++ rest) = (some c, rest) := by
  have valid : c.val.toNat < 0xD800 ∨ (0xDFFF < c.val.toNat ∧ c.val.toNat < 0x110000) := c.valid
  have back := ofNat_val c
  unfold String.utf8EncodeChar
  generalize c.val.toNat = v at valid back
  subst back
  by_cases one : v ≤ 127
  · refine ⟨UInt8.ofNat v, [], by simp [one], ?_⟩
    have byte : (UInt8.ofNat v).toNat = v := by simp; omega
    simp [next, byte, show v < 128 by omega]
  by_cases two : v ≤ 2047
  · have first : (UInt8.ofNat (v / 64 % 32 + 192)).toNat = v / 64 + 192 := by simp; omega
    have second : (UInt8.ofNat (v % 64 + 128)).toNat = v % 64 + 128 := by simp; omega
    refine ⟨_, _, by simp only [one, two, if_true, if_false]; rfl, ?_⟩
    simp only [next, List.cons_append, List.nil_append, first, second, continues]
    rw [if_neg (by omega), if_pos (by omega), if_pos (by simp; omega)]
    rw [show (v / 64 + 192 - 0xC0) * 64 + (v % 64 + 128 - 0x80) = v by omega]
  by_cases three : v ≤ 65535
  · have first : (UInt8.ofNat (v / 4096 % 16 + 224)).toNat = v / 4096 + 224 := by simp; omega
    have second : (UInt8.ofNat (v / 64 % 64 + 128)).toNat = v / 64 % 64 + 128 := by simp; omega
    have third : (UInt8.ofNat (v % 64 + 128)).toNat = v % 64 + 128 := by simp; omega
    refine ⟨_, _, by simp only [one, two, three, if_true, if_false]; rfl, ?_⟩
    simp only [next, List.cons_append, List.nil_append, first, second, third, continues,
      secondOfThree]
    rw [if_neg (by omega), if_neg (by omega), if_pos (by omega), if_pos (by simp; omega),
      if_pos (by simp; omega)]
    rw [show ((v / 4096 + 224 - 0xE0) * 64 + (v / 64 % 64 + 128 - 0x80)) * 64 +
      (v % 64 + 128 - 0x80) = v by omega]
  · have first : (UInt8.ofNat (v / 262144 % 8 + 240)).toNat = v / 262144 + 240 := by simp; omega
    have second : (UInt8.ofNat (v / 4096 % 64 + 128)).toNat = v / 4096 % 64 + 128 := by simp; omega
    have third : (UInt8.ofNat (v / 64 % 64 + 128)).toNat = v / 64 % 64 + 128 := by simp; omega
    have fourth : (UInt8.ofNat (v % 64 + 128)).toNat = v % 64 + 128 := by simp; omega
    refine ⟨_, _, by simp only [one, two, three, if_false]; rfl, ?_⟩
    simp only [next, List.cons_append, List.nil_append, first, second, third, fourth, continues,
      secondOfFour]
    rw [if_neg (by omega), if_neg (by omega), if_neg (by omega), if_pos (by omega),
      if_pos (by simp; omega), if_pos (by simp; omega), if_pos (by simp; omega)]
    rw [show (((v / 262144 + 240 - 0xF0) * 64 + (v / 4096 % 64 + 128 - 0x80)) * 64 +
      (v / 64 % 64 + 128 - 0x80)) * 64 + (v % 64 + 128 - 0x80) = v by omega]

theorem chunks_encode (text : Str) (rest : List UInt8) :
    chunks (encode text ++ rest) = text.map some ++ chunks rest := by
  induction text with
  | nil => rfl
  | cons c text ih =>
    obtain ⟨a, bytes, form, read⟩ := next_encodeChar c (encode text ++ rest)
    simp only [encode, List.flatMap_cons, form, List.cons_append, List.append_assoc] at ih ⊢
    simp only [encode] at read
    rw [chunks_cons, read]
    simp [ih]

theorem decode_encode (text : Str) : decode (encode text) = some text := by
  have read := chunks_encode text []
  simp only [List.append_nil, chunks_nil] at read
  rw [decode, read]
  induction text with
  | nil => rfl
  | cons c text ih =>
    have rest := chunks_encode text []
    simp only [List.append_nil, chunks_nil] at rest
    simp [ih rest]

theorem encode_injective (one two : Str) (same : encode one = encode two) : one = two := by
  have read := decode_encode one
  rw [same, decode_encode] at read
  exact (Option.some.inj read).symm

theorem encode_cons (c : Char) (text : Str) :
    encode (c :: text) = String.utf8EncodeChar c ++ encode text := List.flatMap_cons ..

theorem encode_append (one two : Str) :
    encode (one ++ two) = encode one ++ encode two := List.flatMap_append

theorem encodeChar_low (c : Char) (low : c.toNat < 0x80) :
    String.utf8EncodeChar c = [UInt8.ofNat c.toNat] := by
  have value : c.val.toNat = c.toNat := rfl
  rw [String.utf8EncodeChar, value, if_pos (by omega)]

/-- Every byte of a longer form is 0x80 or more. -/
theorem encodeChar_high (c : Char) (high : 0x80 ≤ c.toNat) :
    ∀ b ∈ String.utf8EncodeChar c, 0x80 ≤ b.toNat := by
  have value : c.val.toNat = c.toNat := rfl
  unfold String.utf8EncodeChar
  rw [value, if_neg (by omega)]
  intro b mem
  split at mem
  · simp only [List.mem_cons, List.not_mem_nil, or_false] at mem
    rcases mem with rfl | rfl <;> simp <;> omega
  split at mem
  · simp only [List.mem_cons, List.not_mem_nil, or_false] at mem
    rcases mem with rfl | rfl | rfl <;> simp <;> omega
  · simp only [List.mem_cons, List.not_mem_nil, or_false] at mem
    rcases mem with rfl | rfl | rfl | rfl <;> simp <;> omega

end DeepDiffForge.Utf8

namespace DeepDiffForge.Text

def byteLength (text : Str) : Nat := (Utf8.encode text).length

end DeepDiffForge.Text
