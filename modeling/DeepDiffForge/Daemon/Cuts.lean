import DeepDiffForge.Daemon.Answers
import DeepDiffForge.Lib.JsonLines

/-! An error's message is cut where the error is built and again where it is written out. The
second cut leaves what the first one says alone in two cases only. -/

namespace DeepDiffForge.Daemon
open Text Slices Json DeepDiffForge.Core

/-- A message as an error should show it: itself, or its longest head within the bound that ends
between two characters, with the bytes left out. -/
def SaysCut (message shown : Str) : Prop :=
  if byteLength message ≤ maxErrorMessageBytes then shown = message
  else ∃ head rest, message = head ++ rest ∧ byteLength head ≤ maxErrorMessageBytes ∧
    (∀ longer, longer <+: message → byteLength longer ≤ maxErrorMessageBytes →
      byteLength longer ≤ byteLength head) ∧ shown = head ++ omitted (byteLength rest)

def errorValue (id : Value) (code : Int) (message : Str) : Value :=
  .object [("error".toList, .object [("code".toList, .integer code),
      ("message".toList, .string message)]),
    ("id".toList, id), ("jsonrpc".toList, .string "2.0".toList)]

theorem errorResponse_value (id : Value) (error : SessionTable.RpcError) :
    errorResponse id error = (errorValue id error.code (boundedMessage error.message)).write := rfl

theorem errorValue_write (id : Value) (code : Int) (message : Str) :
    (errorValue id code message).write = "\x7b\"error\":\x7b\"code\":".toList ++ integerText code ++
      ",\"message\":".toList ++ Json.string message ++
        "\x7d,\"id\":".toList ++ id.write ++ ",\"jsonrpc\":\"2.0\"\x7d".toList :=
  write_error ..

/-- A response's text tells its message. -/
theorem errorValue_injective (id : Value) (code : Int) (first second : Str)
    (same : (errorValue id code first).write = (errorValue id code second).write) :
    first = second := by
  simp only [errorValue_write, List.append_assoc] at same
  exact (string_append_injective _ _ _ _ (List.append_cancel_left (List.append_cancel_left
    (List.append_cancel_left same)))).1

/-- The last place up to `n` where a test holds that holds at the start. -/
theorem find_last (test : Nat → Bool) (n : Nat) (start : test 0 = true) :
    ∃ last, (List.range (n + 1)).reverse.find? test = some last ∧ last ≤ n ∧ test last = true ∧
      ∀ k ≤ n, test k = true → k ≤ last := by
  induction n with
  | zero => exact ⟨0, by simp [start], Nat.le_refl 0, start, fun k below _ => below⟩
  | succ n ih =>
    rw [List.range_succ, List.reverse_append, List.reverse_singleton, List.singleton_append]
    by_cases here : test (n + 1) = true
    · exact ⟨n + 1, List.find?_cons_of_pos here, Nat.le_refl _, here, fun k below _ => below⟩
    · obtain ⟨last, found, within, holds, latest⟩ := ih
      refine ⟨last, (List.find?_cons_of_neg here).trans found, by omega, holds, ?_⟩
      intro k below place
      by_cases whole : k = n + 1
      · exact absurd (whole ▸ place) here
      · exact latest k (by omega) place

theorem boundedMessage_cut (message : Str) : SaysCut message (boundedMessage message) := by
  rw [SaysCut]
  split
  · next short => exact boundedMessage_short message short
  · next long =>
    obtain ⟨last, found, within, boundary, latest⟩ := find_last
      (isCharBoundary (Utf8.encode message)) maxErrorMessageBytes rfl
    rw [byteLength] at long
    obtain ⟨head, rest, rfl, length⟩ := boundary_split message last (by omega) boundary
    subst length
    refine ⟨head, rest, rfl, within, ?_, ?_⟩
    · rintro longer ⟨tail, cut⟩ fits
      exact latest _ fits (cut ▸ boundary_append longer tail)
    · have left : (Utf8.encode (head ++ rest)).length - (Utf8.encode head).length =
          byteLength rest := by
        rw [Utf8.encode_append, List.length_append, byteLength]
        omega
      rw [boundedMessage, if_neg long, found, Option.getD_some]
      dsimp only
      rw [sliceTo_append, left]
      rfl

/-- Heads of one message are the same once they take as many bytes. -/
theorem head_unique (first second rest rest' : Str) (same : first ++ rest = second ++ rest')
    (length : byteLength first = byteLength second) : first = second ∧ rest = rest' := by
  refine List.append_inj same ?_
  rcases List.append_eq_append_iff.1 same with ⟨more, rfl, -⟩ | ⟨more, rfl, -⟩
  · have empty : more = [] := by
      by_contra filled
      have := byteLength_pos more filled
      rw [byteLength_append] at length
      omega
    rw [empty, List.append_nil]
  · have empty : more = [] := by
      by_contra filled
      have := byteLength_pos more filled
      rw [byteLength_append] at length
      omega
    rw [empty, List.append_nil]

theorem saysCut_unique (message first second : Str) (one : SaysCut message first)
    (two : SaysCut message second) : first = second := by
  rw [SaysCut] at one two
  split at one
  · next short =>
    rw [if_pos short] at two
    exact one.trans two.symm
  · next long =>
    rw [if_neg long] at two
    obtain ⟨head, rest, rfl, within, longest, rfl⟩ := one
    obtain ⟨head', rest', same, within', longest', rfl⟩ := two
    have equal := Nat.le_antisymm (longest' head ⟨rest, rfl⟩ within)
      (longest head' ⟨rest', same.symm⟩ within')
    obtain ⟨rfl, rfl⟩ := head_unique _ _ _ _ same equal
    rfl

theorem printable_omitted (bytes : Nat) : ∀ c ∈ omitted bytes, printable c = true := by
  intro c listed
  simp only [omitted, List.mem_append] at listed
  rcases listed with (opening | digit) | closing
  · exact List.all_eq_true.1 (by decide : "... [".toList.all printable = true) c opening
  · exact printable_of_plain c (plain_decimal bytes c digit)
  · exact List.all_eq_true.1 (by decide : " bytes omitted]".toList.all printable = true) c closing

theorem byteLength_omitted (bytes : Nat) :
    byteLength (omitted bytes) = 20 + (decimal bytes).length := by
  have opening : "... [".toList.length = 5 := rfl
  have closing : " bytes omitted]".toList.length = 15 := rfl
  rw [byteLength, encode_printable _ (printable_omitted bytes), omitted, List.length_append,
    List.length_append, opening, closing]
  omega

theorem omitted_dots (bytes : Nat) :
    omitted bytes = List.replicate 3 '.' ++ (" [".toList ++ (decimal bytes ++
      " bytes omitted]".toList)) := rfl

theorem byteLength_replicate (count : Nat) (c : Char) (ascii : printable c = true) :
    byteLength (List.replicate count c) = count := by
  rw [byteLength, encode_printable _ fun d listed => List.eq_of_mem_replicate listed ▸ ascii,
    List.length_replicate]

theorem omitted_injective (first second : Nat) (same : omitted first = omitted second) :
    first = second := by
  rw [omitted_dots, omitted_dots] at same
  have digits := List.append_cancel_right (List.append_cancel_left (List.append_cancel_left same))
  rw [← ofDigitChars_decimal first, digits, ofDigitChars_decimal]

/-- The only count whose own notice takes as many bytes as it counts. -/
theorem counts_itself (n : Nat) : n = 20 + (decimal n).length ↔ n = 22 := by
  constructor
  · intro same
    have small : n < 100 := by
      by_contra large
      have power : n - 22 < 10 ^ (n - 22) := Nat.lt_pow_self (by decide)
      have step : 10 ^ (n - 21) = 10 ^ (n - 22) * 10 := by
        rw [← pow_succ, show n - 22 + 1 = n - 21 by omega]
      have short : (decimal n).length ≤ n - 21 := by
        rw [decimal, Nat.length_toDigits_le_iff (by decide) (by omega), step]
        omega
      omega
    have two : (decimal n).length ≤ 2 := by
      rw [decimal, Nat.length_toDigits_le_iff (by decide) (by decide)]
      exact small
    by_cases one : n = 21
    · rw [one] at same
      exact absurd same (by decide)
    · have filled := List.length_pos_iff.2 (decimal_ne_nil n)
      omega
  · rintro rfl
    decide

/-- The head a long message is cut to reaches the bound, or misses it by less than a character. -/
theorem head_near (head rest : Str) (long : ¬byteLength (head ++ rest) ≤ maxErrorMessageBytes)
    (within : byteLength head ≤ maxErrorMessageBytes)
    (longest : ∀ longer, longer <+: head ++ rest → byteLength longer ≤ maxErrorMessageBytes →
      byteLength longer ≤ byteLength head) : maxErrorMessageBytes < byteLength head + 4 := by
  cases rest with
  | nil => exact absurd within (by rwa [List.append_nil] at long)
  | cons c rest =>
    have whole := byteLength_append head [c]
    rw [byteLength_singleton] at whole
    have size := c.utf8Size_le_four
    have filled := c.utf8Size_pos
    by_contra short
    have fits := longest (head ++ [c]) ⟨rest, by simp⟩ (by omega)
    omega

/-- What a cut message is cut to when it is cut again. -/
theorem boundedMessage_again (head : Str) (left : Nat)
    (within : byteLength head ≤ maxErrorMessageBytes)
    (near : maxErrorMessageBytes < byteLength head + 4) :
    boundedMessage (head ++ omitted left) =
      head ++ List.replicate (maxErrorMessageBytes - byteLength head) '.' ++
        omitted (byteLength (head ++ omitted left) - maxErrorMessageBytes) := by
  have filled := byteLength_omitted left
  have whole := byteLength_append head (omitted left)
  generalize count : maxErrorMessageBytes - byteLength head = dots
  have split : omitted left = List.replicate dots '.' ++ (omitted left).drop dots := by
    have taken : (omitted left).take dots = List.replicate dots '.' := by
      rw [omitted_dots, List.take_append_of_le_length (by rw [List.length_replicate]; omega),
        List.take_replicate, Nat.min_eq_left (by omega)]
    rw [← taken, List.take_append_drop]
  have reached : byteLength (head ++ List.replicate dots '.') = maxErrorMessageBytes := by
    rw [byteLength_append, byteLength_replicate _ _ rfl]
    omega
  have rest : byteLength (head ++ omitted left) - maxErrorMessageBytes =
      byteLength ((omitted left).drop dots) := by
    rw [split, ← List.append_assoc, byteLength_append _ ((omitted left).drop dots), reached,
      ← split]
    omega
  refine saysCut_unique (head ++ omitted left) _ _ (boundedMessage_cut _) ?_
  rw [SaysCut, if_neg (by omega)]
  refine ⟨head ++ List.replicate dots '.', (omitted left).drop dots, ?_, reached.le, ?_,
    by rw [rest]⟩
  · rw [List.append_assoc, ← split]
  · intro longer _ fits
    rw [reached]
    exact fits

/-- The dots that the second cut keeps tell the two notices apart, unless there are none. -/
theorem notice_kept (dots left more : Nat) (few : dots < 4)
    (same : omitted left = List.replicate dots '.' ++ omitted more) : dots = 0 ∧ left = more := by
  have third := congrArg (·[3]?) same
  rw [omitted_dots left, omitted_dots more] at third
  match dots, few with
  | 0, _ => exact ⟨rfl, omitted_injective left more same⟩
  | 1, _ => cases third
  | 2, _ => cases third
  | 3, _ => cases third

def Settled (message : Str) : Prop :=
  byteLength message ≤ maxErrorMessageBytes ∨
    byteLength message = maxErrorMessageBytes + 22 ∧
      isCharBoundary (Utf8.encode message) maxErrorMessageBytes = true

theorem settled_cut (head rest : Str) (long : ¬byteLength (head ++ rest) ≤ maxErrorMessageBytes)
    (within : byteLength head ≤ maxErrorMessageBytes)
    (longest : ∀ longer, longer <+: head ++ rest → byteLength longer ≤ maxErrorMessageBytes →
      byteLength longer ≤ byteLength head) :
    Settled (head ++ rest) ↔ byteLength head = maxErrorMessageBytes ∧ byteLength rest = 22 := by
  have whole := byteLength_append head rest
  constructor
  · rintro (short | ⟨length, boundary⟩)
    · exact absurd short long
    · obtain ⟨before, after, cut, reached⟩ := boundary_split (head ++ rest) maxErrorMessageBytes
        (by rw [← byteLength]; omega) boundary
      have least := longest before ⟨after, cut.symm⟩ reached.le
      have same : byteLength before = maxErrorMessageBytes := reached
      exact ⟨by omega, by omega⟩
  · rintro ⟨reached, left⟩
    have boundary := boundary_append head rest
    rw [← byteLength, reached] at boundary
    exact .inr ⟨by omega, boundary⟩

theorem boundedMessage_twice (message : Str) :
    boundedMessage (boundedMessage message) = boundedMessage message ↔ Settled message := by
  by_cases short : byteLength message ≤ maxErrorMessageBytes
  · rw [boundedMessage_short message short, boundedMessage_short message short]
    exact iff_of_true rfl (.inl short)
  · have once := boundedMessage_cut message
    rw [SaysCut, if_neg short] at once
    obtain ⟨head, rest, rfl, within, longest, shown⟩ := once
    have near := head_near head rest short within longest
    have filled := byteLength_omitted (byteLength rest)
    have whole := byteLength_append head (omitted (byteLength rest))
    rw [settled_cut head rest short within longest, shown,
      boundedMessage_again head (byteLength rest) within near, List.append_assoc]
    constructor
    · intro same
      obtain ⟨absent, count⟩ := notice_kept _ _ _ (by omega) (List.append_cancel_left same).symm
      have reached : byteLength head = maxErrorMessageBytes := by omega
      exact ⟨reached, (counts_itself _).1 (by omega)⟩
    · rintro ⟨reached, left⟩
      have digits : (decimal 22).length = 2 := rfl
      rw [left] at whole filled ⊢
      rw [reached, Nat.sub_self, show byteLength (head ++ omitted 22) - maxErrorMessageBytes = 22
        by omega]
      rfl

theorem errorResponse_twice (id : Value) (code : Int) (message : Str) :
    (∃ shown, errorResponse id (newRpcError code message) = (errorValue id code shown).write ∧
      SaysCut message shown) ↔ boundedMessage (boundedMessage message) = boundedMessage message := by
  have once := boundedMessage_cut message
  have built : (newRpcError code message).message = boundedMessage message := rfl
  rw [errorResponse_value, built]
  constructor
  · rintro ⟨shown, written, cut⟩
    rw [saysCut_unique message shown _ cut once] at written
    exact errorValue_injective id code _ _ written
  · intro same
    exact ⟨boundedMessage message, congrArg (fun text => (errorValue id code text).write) same, once⟩

/-- The message of an error on the wire says what was cut from the one the error was made with,
exactly when it is settled. -/
theorem errorResponse_cut (id : Value) (code : Int) (message : Str) :
    (∃ shown, errorResponse id (newRpcError code message) = (errorValue id code shown).write ∧
      SaysCut message shown) ↔ Settled message := by
  rw [errorResponse_twice, boundedMessage_twice]

/-- Five thousand letters are cut twice, and only the second count is left. -/
theorem errorResponse_letters :
    ¬∃ shown, errorResponse .null (newRpcError internalError (List.replicate 5000 'a')) =
        (errorValue .null internalError shown).write ∧
      SaysCut (List.replicate 5000 'a') shown := by
  rw [errorResponse_twice, boundedMessage_twice, Settled, byteLength_replicate _ _ rfl]
  rintro (short | ⟨longer, -⟩)
  · exact absurd short (by decide)
  · exact absurd longer (by decide)

end DeepDiffForge.Daemon
