import DeepDiffForge.Git.Raw

/-! Both writers of quoted paths are undone by the one reader. -/

namespace DeepDiffForge.Git
open Text Patch

def asText (bytes : List UInt8) : Str := bytes.map fun b => Char.ofNat b.toNat

/-- What stands for a byte below 0x80 is read back as that byte. -/
theorem decodeQuoted_low (b : UInt8) (low : b.toNat < 0x80) (rest : Str) (out : List UInt8) :
    decodeQuoted (asText (quoteByte b) ++ rest) out = decodeQuoted rest (out ++ [b]) := by
  unfold quoteByte
  split
  next eq => subst eq; exact decodeQuoted_simple 'a' rest out 7 rfl
  split
  next eq => subst eq; exact decodeQuoted_simple 'b' rest out 8 rfl
  split
  next eq => subst eq; exact decodeQuoted_simple 't' rest out 9 rfl
  split
  next eq => subst eq; exact decodeQuoted_simple 'n' rest out 10 rfl
  split
  next eq => subst eq; exact decodeQuoted_simple 'v' rest out 11 rfl
  split
  next eq => subst eq; exact decodeQuoted_simple 'f' rest out 12 rfl
  split
  next eq => subst eq; exact decodeQuoted_simple 'r' rest out 13 rfl
  split
  next eq => subst eq; exact decodeQuoted_simple '"' rest out 34 rfl
  split
  next eq => subst eq; exact decodeQuoted_simple '\\' rest out 92 rfl
  next notQuote notSlash =>
  split
  next =>
    have first : (0x30 + b / 64).toNat = 48 + b.toNat / 64 := by simp; omega
    have second : (0x30 + b / 8 % 8).toNat = 48 + b.toNat / 8 % 8 := by simp; omega
    have third : (0x30 + b % 8).toNat = 48 + b.toNat % 8 := by simp; omega
    have digits : asText (0x5C :: octal b) = ['\\', octalChar (b.toNat / 64),
        octalChar (b.toNat / 8 % 8), octalChar (b.toNat % 8)] := by
      rw [octal, asText, List.map_cons, List.map_cons, List.map_cons, List.map_cons, first, second,
        third]
      rfl
    rw [digits]
    exact decodeQuoted_octalByte b rest out
  next plain =>
    have positive : b.toNat ≠ 0 := by
      intro zero
      exact plain (by rw [← UInt8.ofNat_toNat (x := b), zero]; rfl)
    exact decodeQuoted_asciiByte b rest out (by omega) positive notQuote notSlash

theorem quoteByte_low (b : UInt8) (low : b.toNat < 0x80) : ∀ x ∈ quoteByte b, x.toNat < 0x80 := by
  have letter (second : UInt8) (below : second.toNat < 0x80) :
      ∀ x ∈ ([0x5C, second] : List UInt8), x.toNat < 0x80 := by
    intro x mem
    rcases List.mem_cons.1 mem with rfl | mem
    · decide
    · rw [List.mem_singleton.1 mem]
      exact below
  unfold quoteByte
  repeat' split
  all_goals first | exact letter _ (by decide) | skip
  · intro x mem
    simp only [octal, List.mem_cons, List.not_mem_nil, or_false] at mem
    rcases mem with rfl | rfl | rfl | rfl <;> simp <;> omega
  · intro x mem
    rw [List.mem_singleton.1 mem]
    exact low

theorem encode_asText (bytes : List UInt8) (low : ∀ b ∈ bytes, b.toNat < 0x80) :
    Utf8.encode (asText bytes) = bytes := by
  induction bytes with
  | nil => rfl
  | cons b bytes ih =>
    have own := low b List.mem_cons_self
    have value : (Char.ofNat b.toNat).toNat = b.toNat := by
      rw [Char.ofNat, dif_pos (Or.inl (by omega))]
      rfl
    have rest := ih fun x mem => low x (.tail _ mem)
    rw [asText, List.map_cons, Utf8.encode, List.flatMap_cons, Utf8.encodeChar_low _ (by omega), value,
      UInt8.ofNat_toNat]
    exact congrArg (b :: ·) rest

theorem quoteByte_high (b : UInt8) (high : 0x80 ≤ b.toNat) : quoteByte b = [b] := by
  have ne (other : UInt8) (small : other.toNat < 0x80) : b ≠ other := by
    rintro rfl
    omega
  have plain : needsEscape b = false := by
    have notLow : ¬b < 0x20 := by
      rw [UInt8.lt_iff_toNat_lt]
      change ¬b.toNat < 32
      omega
    simp [needsEscape, notLow, ne 0x7F (by decide), ne 0x22 (by decide), ne 0x5C (by decide)]
  rw [quoteByte, if_neg (ne 7 (by decide)), if_neg (ne 8 (by decide)), if_neg (ne 9 (by decide)),
    if_neg (ne 10 (by decide)), if_neg (ne 11 (by decide)), if_neg (ne 12 (by decide)),
    if_neg (ne 13 (by decide)), if_neg (ne 0x22 (by decide)), if_neg (ne 0x5C (by decide)), plain]
  rfl

/-- Git's form of a text is a text, which the reader turns back into the bytes. -/
theorem quoted_reads (path : Str) : ∃ text,
    Utf8.encode text = (Utf8.encode path).flatMap quoteByte ∧
      ∀ rest out, decodeQuoted (text ++ rest) out = decodeQuoted rest (out ++ Utf8.encode path) := by
  induction path with
  | nil =>
    refine ⟨[], rfl, fun rest out => ?_⟩
    rw [List.nil_append]
    exact congrArg _ (List.append_nil out).symm
  | cons c path ih =>
    obtain ⟨text, encoded, reads⟩ := ih
    have split : Utf8.encode (c :: path) = String.utf8EncodeChar c ++ Utf8.encode path := rfl
    by_cases low : c.toNat < 0x80
    · have byte : (UInt8.ofNat c.toNat).toNat = c.toNat := by simp; omega
      have ascii : (UInt8.ofNat c.toNat).toNat < 0x80 := by omega
      refine ⟨asText (quoteByte (UInt8.ofNat c.toNat)) ++ text, ?_, fun rest out => ?_⟩
      · rw [Utf8.encode_append, encode_asText _ (quoteByte_low _ ascii), encoded, split,
          Utf8.encodeChar_low c low, List.flatMap_append, List.flatMap_singleton]
      · rw [List.append_assoc, decodeQuoted_low _ ascii, reads, split, Utf8.encodeChar_low c low,
          List.append_assoc]
    · have high := Utf8.encodeChar_high c (by omega)
      have ne (d : Char) (small : d.toNat < 0x80) : c ≠ d := by
        rintro rfl
        exact low small
      have kept : (String.utf8EncodeChar c).flatMap quoteByte = String.utf8EncodeChar c := by
        rw [List.flatMap_congr fun b mem => quoteByte_high b (high b mem)]
        exact List.flatMap_singleton' _
      refine ⟨c :: text, ?_, fun rest out => ?_⟩
      · rw [split, List.flatMap_append, kept, ← encoded]
        rfl
      · rw [List.cons_append, decodeQuoted_plain c _ out (ne '"' (by decide))
          (ne '\\' (by decide)) (ne '\x00' (by decide)), reads, split, List.append_assoc]

theorem encodes_mem (text : Str) (c : Char) (b : UInt8) (form : String.utf8EncodeChar c = [b])
    (mem : c ∈ text) : b ∈ Utf8.encode text :=
  List.mem_flatMap.2 ⟨c, mem, by rw [form]; exact List.mem_singleton_self b⟩

/-- What Git writes for a prefix and a path is read as the two together. -/
theorem gitQuote_reads (before path : Str) (clean : '\x00' ∉ before ++ path) :
    (Utf8.decode (gitQuote (Utf8.encode before) (Utf8.encode path))).bind decodePath =
      some (before ++ path) := by
  rw [gitQuote, ← Utf8.encode_append]
  by_cases escaped : (Utf8.encode (before ++ path)).any needsEscape = true
  · obtain ⟨text, encoded, reads⟩ := quoted_reads (before ++ path)
    have whole : 0x22 :: (Utf8.encode (before ++ path)).flatMap quoteByte ++ [0x22] =
        Utf8.encode ('"' :: text ++ ['"']) := by
      rw [Utf8.encode_append ('"' :: text) ['"'], ← encoded]
      rfl
    have read : decodeQuotedPrefix ('"' :: text ++ ['"']) = some (before ++ path, []) := by
      rw [List.cons_append, decodeQuotedPrefix, reads, List.nil_append, decodeQuoted,
        Utf8.decode_encode]
      rfl
    rw [if_pos escaped, whole, Utf8.decode_encode, Option.bind_some, decodePath, read]
    simp [startsWith, stripPrefix, clean]
  · rw [if_neg escaped, Utf8.decode_encode, Option.bind_some]
    rw [Bool.not_eq_true, List.any_eq_false] at escaped
    have noQuote : '"' ∉ before ++ path := fun mem =>
      escaped 0x22 (encodes_mem _ '"' 0x22 rfl mem) rfl
    have head : startsWith ['"'] (before ++ path) = false := by
      by_contra other
      obtain ⟨rest, same⟩ := (startsWith_iff _ _).1 (Bool.not_eq_false _ ▸ other)
      exact noQuote (same ▸ List.mem_cons_self)
    simp [decodePath, head, clean]

theorem quote_bytes (path : Str) :
    ∀ b ∈ Utf8.encode (quote path), 0x20 ≤ b.toNat ∧ b.toNat ≤ 0x7E := by
  intro b mem
  obtain ⟨c, inside, held⟩ := List.mem_flatMap.1 mem
  have printable := quote_printable path c inside
  rw [Utf8.encodeChar_low c (by omega), List.mem_singleton] at held
  subst held
  simp
  omega

theorem needsQuote_of_quoted (path : Str) (quoted : startsWith ['"'] (quote path) = true) :
    needsQuote path = true := by
  by_contra plain
  rw [Bool.not_eq_true] at plain
  rw [quote, if_neg (by simp [plain])] at quoted
  obtain ⟨rest, same⟩ := (startsWith_iff _ _).1 quoted
  exact not_mem_of_plain path plain '"' (by decide) (same ▸ List.mem_cons_self)

/-- A quoted path reads back as the path, whoever wrote it and whatever follows. -/
theorem quoting_reads (path following before : Str) (clean : '\x00' ∉ path)
    (cleanBefore : '\x00' ∉ before) :
    decodePath (quote path) = some path ∧
      (∀ b ∈ Utf8.encode (quote path), 0x20 ≤ b.toNat ∧ b.toNat ≤ 0x7E) ∧
      (startsWith ['"'] (quote path) = true →
        decodeQuotedPrefix (quote path ++ following) = some (path, following)) ∧
      (Utf8.decode (gitQuote (Utf8.encode before) (Utf8.encode path))).bind decodePath =
        some (before ++ path) := by
  refine ⟨decodePath_quote path clean, quote_bytes path, fun quoted => ?_, ?_⟩
  · exact decodeQuotedPrefix_quote path following (needsQuote_of_quoted path quoted)
  · apply gitQuote_reads
    rw [List.mem_append]
    exact not_or.2 ⟨cleanBefore, clean⟩

theorem quoting_reads_space :
    decodePath (quote ['a', ' ', 'é']) = some ['a', ' ', 'é'] ∧
      (Utf8.decode (gitQuote (ascii "a/") (Utf8.encode ['a', ' ', 'é']))).bind decodePath =
        some ['a', '/', 'a', ' ', 'é'] :=
  have reads := quoting_reads ['a', ' ', 'é'] [] ['a', '/'] (by decide) (by decide)
  ⟨reads.1, reads.2.2.2⟩

/-- A prefix with a NUL is written escaped, and the reader refuses it. -/
theorem gitQuote_nul :
    '\x00' ∉ ['a'] ∧
      (Utf8.decode (gitQuote (Utf8.encode ['\x00']) (Utf8.encode ['a']))).bind decodePath ≠
        some (['\x00'] ++ ['a']) := by
  decide +kernel

end DeepDiffForge.Git
