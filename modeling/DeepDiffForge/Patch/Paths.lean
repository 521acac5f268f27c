import DeepDiffForge.Lib.Utf8

/-! Git C-quoted UTF-8 paths: the decoder and the renderer's quoting. The source reads the
quoted form byte by byte; a byte it acts on is ASCII, so the same loop over characters pushes
the UTF-8 bytes of every other character. -/

namespace DeepDiffForge.Patch
open Text

def octalDigit (c : Char) : Bool := '0' ≤ c && c ≤ '7'

def simpleEscape (escaped : Char) : Option UInt8 :=
  match escaped with
  | 'a' => some 7
  | 'b' => some 8
  | 't' => some 9
  | 'n' => some 10
  | 'v' => some 11
  | 'f' => some 12
  | 'r' => some 13
  | '\\' => some 92
  | '"' => some 34
  | _ => none

def octalEscape (first second third : Char) : Option UInt8 :=
  if '0' ≤ first && first ≤ '3' && octalDigit second && octalDigit third then
    some (UInt8.ofNat ((first.toNat - 48) * 64 + (second.toNat - 48) * 8 + (third.toNat - 48)))
  else none

/-- The text inside the quotes, from after the opening one; `out` holds the bytes so far. -/
def decodeQuoted : Str → List UInt8 → Option (Str × Str)
  | [], _ => none
  | '"' :: rest, out => (Utf8.decode out).map (fun decoded => (decoded, rest))
  | ['\\'], _ => none
  | '\\' :: escaped :: rest, out =>
      match simpleEscape escaped with
      | some byte => decodeQuoted rest (out ++ [byte])
      | none =>
          match rest with
          | second :: third :: rest' =>
              match octalEscape escaped second third with
              | some byte => decodeQuoted rest' (out ++ [byte])
              | none => none
          | _ => none
  | c :: rest, out =>
      if c = '\x00' then none else decodeQuoted rest (out ++ String.utf8EncodeChar c)

def decodeQuotedPrefix (input : Str) : Option (Str × Str) :=
  match input with
  | '"' :: rest => decodeQuoted rest []
  | _ => none

def decodePath (input : Str) : Option Str :=
  if startsWith ['"'] input then
    match decodeQuotedPrefix input with
    | some (decoded, rest) => if rest = [] && '\x00' ∉ decoded then some decoded else none
    | none => none
  else if '\x00' ∈ input then none
  else some input

def octalChar (n : Nat) : Char := Char.ofNat (48 + n)

def quoteByte (byte : UInt8) : Str :=
  if byte = 34 then ['\\', '"']
  else if byte = 92 then ['\\', '\\']
  else if byte = 9 then ['\\', 't']
  else if byte = 10 then ['\\', 'n']
  else if byte = 13 then ['\\', 'r']
  else if 32 ≤ byte.toNat && byte.toNat ≤ 126 then [Char.ofNat byte.toNat]
  else
    ['\\', octalChar (byte.toNat / 64), octalChar (byte.toNat / 8 % 8), octalChar (byte.toNat % 8)]

def needsQuote (path : Str) : Bool :=
  (Utf8.encode path).any (fun b => b.toNat ≤ 32 || 127 ≤ b.toNat || b = 34 || b = 92)

def quote (path : Str) : Str :=
  if needsQuote path then '"' :: ((Utf8.encode path).flatMap quoteByte ++ ['"']) else path

theorem decodeQuoted_plain (c : Char) (rest : Str) (out : List UInt8) (notQuote : c ≠ '"')
    (notSlash : c ≠ '\\') (notNul : c ≠ '\x00') :
    decodeQuoted (c :: rest) out = decodeQuoted rest (out ++ String.utf8EncodeChar c) := by
  rw [decodeQuoted, if_neg notNul]
  · exact notQuote
  · intro same
    exact (notSlash same).elim
  · intro _ _ same
    exact (notSlash same).elim

theorem decodeQuoted_simple (escaped : Char) (rest : Str) (out : List UInt8) (byte : UInt8)
    (known : simpleEscape escaped = some byte) :
    decodeQuoted ('\\' :: escaped :: rest) out = decodeQuoted rest (out ++ [byte]) := by
  rcases rest with _ | ⟨second, _ | ⟨third, rest⟩⟩ <;> simp only [decodeQuoted, known]

theorem decodeQuoted_octal (first second third : Char) (rest : Str) (out : List UInt8)
    (byte : UInt8) (plain : simpleEscape first = none)
    (known : octalEscape first second third = some byte) :
    decodeQuoted ('\\' :: first :: second :: third :: rest) out =
      decodeQuoted rest (out ++ [byte]) := by
  rw [decodeQuoted]
  simp only [plain, known]

private theorem octalChar_plain : ∀ n < 8, simpleEscape (octalChar n) = none := by decide

private theorem octalChar_digit : ∀ n < 8, octalDigit (octalChar n) = true ∧
    (octalChar n).toNat = 48 + n := by decide

private theorem octalChar_first : ∀ n < 4, ('0' ≤ octalChar n && octalChar n ≤ '3') = true := by
  decide

theorem octalEscape_byte (byte : UInt8) :
    octalEscape (octalChar (byte.toNat / 64)) (octalChar (byte.toNat / 8 % 8))
      (octalChar (byte.toNat % 8)) = some byte := by
  have bound := byte.toNat_lt
  have first := octalChar_first (byte.toNat / 64) (by omega)
  have digit := octalChar_digit (byte.toNat / 64) (by omega)
  have second := octalChar_digit (byte.toNat / 8 % 8) (by omega)
  have third := octalChar_digit (byte.toNat % 8) (by omega)
  simp only [octalEscape, first, second.1, third.1, Bool.and_self, if_true, digit.2, second.2,
    third.2, Option.some.injEq]
  apply UInt8.toNat_inj.1
  rw [UInt8.toNat_ofNat']
  omega

private theorem toNat_ascii (n : Nat) (ascii : n ≤ 127) : (Char.ofNat n).toNat = n := by
  have valid : n.isValidChar := Or.inl (by omega)
  rw [Char.ofNat, dif_pos valid]
  rfl

private theorem encodeChar_ascii (n : Nat) (ascii : n ≤ 127) :
    String.utf8EncodeChar (Char.ofNat n) = [UInt8.ofNat n] := by
  have value : (Char.ofNat n).val.toNat = n := toNat_ascii n ascii
  simp [String.utf8EncodeChar, value, ascii]

private theorem ofNat_ne (n m : Nat) (small : n ≤ 127) (small' : m ≤ 127) (ne : n ≠ m) :
    Char.ofNat n ≠ Char.ofNat m := by
  intro same
  have bytes := congrArg String.utf8EncodeChar same
  rw [encodeChar_ascii n small, encodeChar_ascii m small'] at bytes
  have values := congrArg UInt8.toNat (List.cons.inj bytes).1
  simp only [UInt8.toNat_ofNat'] at values
  omega

theorem decodeQuoted_octalByte (byte : UInt8) (rest : Str) (out : List UInt8) :
    decodeQuoted ('\\' :: octalChar (byte.toNat / 64) :: octalChar (byte.toNat / 8 % 8) ::
      octalChar (byte.toNat % 8) :: rest) out = decodeQuoted rest (out ++ [byte]) :=
  decodeQuoted_octal _ _ _ _ _ _
    (octalChar_plain _ (by have := byte.toNat_lt; omega)) (octalEscape_byte byte)

/-- A byte that stands for itself. -/
theorem decodeQuoted_asciiByte (byte : UInt8) (rest : Str) (out : List UInt8)
    (ascii : byte.toNat ≤ 127) (positive : byte.toNat ≠ 0) (notQuote : byte ≠ 34)
    (notSlash : byte ≠ 92) :
    decodeQuoted (Char.ofNat byte.toNat :: rest) out = decodeQuoted rest (out ++ [byte]) := by
  have ne (other : UInt8) (h : byte ≠ other) : byte.toNat ≠ other.toNat :=
    fun same => h (UInt8.toNat_inj.1 same)
  have quoted := ne 34 notQuote
  have slash := ne 92 notSlash
  have bytes := encodeChar_ascii byte.toNat ascii
  have step := decodeQuoted_plain (Char.ofNat byte.toNat) rest out
    (ofNat_ne _ 34 ascii (by omega) quoted) (ofNat_ne _ 92 ascii (by omega) slash)
    (ofNat_ne _ 0 ascii (by omega) positive)
  rwa [bytes, UInt8.ofNat_toNat] at step

theorem decodeQuoted_quoteByte (byte : UInt8) (rest : Str) (out : List UInt8) :
    decodeQuoted (quoteByte byte ++ rest) out = decodeQuoted rest (out ++ [byte]) := by
  unfold quoteByte
  split
  next eq => subst eq; exact decodeQuoted_simple _ _ _ _ rfl
  next notQuote =>
  split
  next eq => subst eq; exact decodeQuoted_simple _ _ _ _ rfl
  next notSlash =>
  split
  next eq => subst eq; exact decodeQuoted_simple _ _ _ _ rfl
  split
  next eq => subst eq; exact decodeQuoted_simple _ _ _ _ rfl
  split
  next eq => subst eq; exact decodeQuoted_simple _ _ _ _ rfl
  split
  next printable =>
    simp only [Bool.and_eq_true, decide_eq_true_eq] at printable
    exact decodeQuoted_asciiByte byte rest out (by omega) (by omega) notQuote notSlash
  next => exact decodeQuoted_octalByte byte rest out

theorem decodeQuoted_bytes (bytes out : List UInt8) (rest : Str) :
    decodeQuoted (bytes.flatMap quoteByte ++ '"' :: rest) out =
      (Utf8.decode (out ++ bytes)).map (fun decoded => (decoded, rest)) := by
  induction bytes generalizing out with
  | nil => simp [decodeQuoted]
  | cons byte bytes ih =>
    rw [List.flatMap_cons, List.append_assoc, decodeQuoted_quoteByte, ih, List.append_assoc]
    rfl

/-- A quoted form is read back whole, whatever follows its closing quote. -/
theorem decodeQuotedPrefix_quote (path rest : Str) (quoted : needsQuote path = true) :
    decodeQuotedPrefix (quote path ++ rest) = some (path, rest) := by
  simp only [quote, quoted, if_true, List.cons_append, List.append_assoc, List.nil_append,
    decodeQuotedPrefix]
  rw [decodeQuoted_bytes, List.nil_append, Utf8.decode_encode]
  rfl

theorem not_mem_of_plain (path : Str) (plain : needsQuote path = false) (c : Char)
    (special : c.toNat ≤ 32 ∨ 127 ≤ c.toNat ∨ c = '"' ∨ c = '\\') : c ∉ path := by
  intro member
  obtain ⟨a, bytes, form, _⟩ := Utf8.next_encodeChar c []
  have present : a ∈ Utf8.encode path :=
    List.mem_flatMap.2 ⟨c, member, form ▸ List.mem_cons_self ..⟩
  have clean := List.any_eq_false.1 plain a present
  simp only [Bool.or_eq_true, decide_eq_true_eq, not_or] at clean
  obtain ⟨⟨⟨low, high⟩, notQuote⟩, notSlash⟩ := clean
  have value : c.val.toNat = c.toNat := rfl
  simp only [String.utf8EncodeChar, value] at form
  rcases special with small | large | rfl | rfl
  · rw [if_pos (by omega)] at form
    have byte := congrArg UInt8.toNat (List.cons.inj form).1
    simp only [UInt8.toNat_ofNat'] at byte
    omega
  · have bound := a.toNat_lt
    have byte := congrArg (fun l => (l.headD 0).toNat) form
    simp only [List.headD_cons] at byte
    revert byte
    split
    · simp; omega
    split
    · simp; omega
    split
    · simp; omega
    · simp; omega
  · exact notQuote (List.cons.inj form).1.symm
  · exact notSlash (List.cons.inj form).1.symm

theorem decodePath_plain (path : Str) (plain : needsQuote path = false) :
    decodePath path = some path := by
  have noQuote := not_mem_of_plain path plain '"' (by decide)
  have noNul := not_mem_of_plain path plain '\x00' (by decide)
  have head : startsWith ['"'] path = false := by
    by_contra other
    obtain ⟨rest, rfl⟩ := (startsWith_iff _ _).1 (Bool.not_eq_false _ ▸ other)
    exact noQuote (by simp)
  simp [decodePath, head, noNul]

theorem decodePath_quote (path : Str) (noNul : '\x00' ∉ path) :
    decodePath (quote path) = some path := by
  by_cases quoted : needsQuote path = true
  · have read := decodeQuotedPrefix_quote path [] quoted
    rw [List.append_nil] at read
    have head : startsWith ['"'] (quote path) = true := by
      simp [quote, quoted, startsWith, stripPrefix]
    simp [decodePath, head, read, noNul]
  · rw [Bool.not_eq_true] at quoted
    rw [quote, if_neg (by simp [quoted])]
    exact decodePath_plain path quoted

theorem decodePath_noNul (input path : Str) (read : decodePath input = some path) :
    '\x00' ∉ path := by
  unfold decodePath at read
  split at read
  · split at read
    · split at read
      next clean =>
        obtain rfl := Option.some.inj read
        simp only [Bool.and_eq_true, decide_eq_true_eq] at clean
        exact clean.2
      next => cases read
    · cases read
  · split at read
    · cases read
    · next clean => exact Option.some.inj read ▸ clean

private theorem octalChar_range (n : Nat) (digit : n < 8) :
    32 ≤ (octalChar n).toNat ∧ (octalChar n).toNat ≤ 126 := by
  have value := (octalChar_digit n digit).2
  omega

theorem quoteByte_printable (byte : UInt8) :
    ∀ c ∈ quoteByte byte, 32 ≤ c.toNat ∧ c.toNat ≤ 126 := by
  have bound := byte.toNat_lt
  unfold quoteByte
  repeat' split
  all_goals simp only [List.forall_mem_cons, List.not_mem_nil, false_imp_iff, implies_true,
    and_true]
  all_goals try decide
  next printable =>
    simp only [Bool.and_eq_true, decide_eq_true_eq] at printable
    rw [toNat_ascii _ (by omega)]
    exact printable
  next =>
    exact ⟨by decide, octalChar_range _ (by omega), octalChar_range _ (by omega),
      octalChar_range _ (by omega)⟩

/-- The renderer's form of a path holds no character a header line could end at. -/
theorem quote_printable (path : Str) : ∀ c ∈ quote path, 32 ≤ c.toNat ∧ c.toNat ≤ 126 := by
  intro c member
  by_cases quoted : needsQuote path = true
  · simp only [quote, quoted, if_true, List.mem_cons, List.mem_append, List.mem_flatMap,
      List.not_mem_nil, or_false] at member
    rcases member with rfl | ⟨byte, _, inside⟩ | rfl
    · decide
    · exact quoteByte_printable byte c inside
    · decide
  · rw [Bool.not_eq_true] at quoted
    rw [quote, if_neg (by simp [quoted])] at member
    have absent := not_mem_of_plain path quoted c
    by_contra outside
    exact absent (by omega) member

end DeepDiffForge.Patch
