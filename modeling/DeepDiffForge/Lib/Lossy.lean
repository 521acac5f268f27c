import DeepDiffForge.Lib.Utf8

/-! Bytes read line by line: what a line is read as does not depend on the lines around it. -/

namespace DeepDiffForge.Utf8
open Text

theorem mapM_id {α : Type} (items : List (Option α)) (values : List α)
    (read : items.mapM id = some values) : items = values.map some := by
  induction items generalizing values with
  | nil =>
    obtain rfl := Option.some.inj read
    rfl
  | cons item items ih =>
    rw [List.mapM_cons] at read
    obtain ⟨value, first, read⟩ := Option.bind_eq_some_iff.1 read
    obtain ⟨others, rest, read⟩ := Option.bind_eq_some_iff.1 read
    obtain rfl := Option.some.inj read
    rw [show item = some value from first, ih others rest, List.map_cons]

theorem mapM_id_isSome {α : Type} (items : List (Option α)) :
    (items.mapM id).isSome = items.all (·.isSome) := by
  induction items with
  | nil => rfl
  | cons item items ih =>
    rw [List.mapM_cons, List.all_cons, ← ih]
    cases item with
    | none => rfl
    | some value => cases items.mapM id <;> rfl

theorem decode_isSome (bytes : List UInt8) :
    (decode bytes).isSome = (chunks bytes).all (·.isSome) := mapM_id_isSome _

theorem lossy_decode (bytes : List UInt8) (text : Str) (read : decode bytes = some text) :
    lossy bytes = text := by
  rw [lossy, mapM_id _ _ read, List.map_map]
  exact List.map_id text

/-- Bytes that are not well formed show a replacement character. -/
theorem mem_lossy (bytes : List UInt8) (bad : decode bytes = none) : '\uFFFD' ∈ lossy bytes := by
  have clean := decode_isSome bytes
  rw [bad, Option.isSome_none, eq_comm, List.all_eq_false] at clean
  obtain ⟨chunk, listed, absent⟩ := clean
  obtain rfl := Option.not_isSome_iff_eq_none.1 absent
  exact List.mem_map.2 ⟨none, listed, rfl⟩

theorem lossy_append_lf (xs ys : List UInt8) :
    lossy (xs ++ 0x0A :: ys) = lossy xs ++ '\n' :: lossy ys := by
  rw [lossy, chunks_append_ascii xs ys 0x0A (by decide), List.map_append, List.map_cons]
  rfl

theorem decode_append_lf (xs ys : List UInt8) :
    (decode (xs ++ 0x0A :: ys)).isSome = ((decode xs).isSome && (decode ys).isSome) := by
  rw [decode_isSome, chunks_append_ascii xs ys 0x0A (by decide), List.all_append, List.all_cons,
    decode_isSome, decode_isSome]
  rfl

theorem ofNat_ascii (n : Nat) (c : Char) (same : Char.ofNat n = c) (visible : c ≠ '\x00') :
    n = c.toNat := by
  subst same
  by_cases valid : n.isValidChar
  · unfold Char.ofNat
    rw [dif_pos valid]
    exact (UInt32.toNat_ofNatLT ..).symm
  · rw [Char.ofNat, dif_neg valid] at visible
    exact absurd rfl visible

/-- An ASCII character is read from its own byte alone. -/
theorem next_eq_ascii (a : UInt8) (rest after : List UInt8) (c : Char) (ascii : c.toNat < 0x80)
    (visible : c ≠ '\x00') (read : next a rest = (some c, after)) :
    a.toNat = c.toNat ∧ after = rest := by
  unfold next at read
  split at read
  · obtain ⟨first, rfl⟩ := Prod.mk.inj read
    exact ⟨ofNat_ascii _ _ (Option.some.inj first) visible, rfl⟩
  -- a longer form gives a code of at least 0x80
  exfalso
  repeat' split at read
  all_goals simp only [Prod.mk.injEq, reduceCtorEq, false_and, Option.some.injEq] at read
  all_goals
    have code := ofNat_ascii _ _ read.1 visible
    simp only [secondOfThree, secondOfFour, continues, Bool.or_eq_true, Bool.and_eq_true,
      decide_eq_true_eq] at *
    omega

theorem next_suffix (a : UInt8) (rest : List UInt8) : (next a rest).2 <:+ rest := by
  unfold next
  repeat' split
  all_goals simp [List.suffix_cons_iff]

/-- A line feed is read only from its byte. -/
theorem plain_lossy (bytes : List UInt8) (plain : 0x0A ∉ bytes) : '\n' ∉ lossy bytes := by
  induction size : bytes.length using Nat.strong_induction_on generalizing bytes with
  | _ size ih =>
    cases bytes with
    | nil => simp [lossy]
    | cons a rest =>
      have after := next_suffix a rest
      rw [lossy, chunks_cons, List.map_cons, List.mem_cons, not_or]
      constructor
      · intro read
        cases first : (next a rest).1 with
        | none =>
          rw [first] at read
          revert read
          decide
        | some c =>
          rw [first, Option.getD_some] at read
          subst read
          have byte := (next_eq_ascii a rest _ '\n' (by decide) (by decide)
            (Prod.ext first rfl)).1
          have same : a = 0x0A := UInt8.toNat_inj.1 byte
          simp [same] at plain
      · refine ih _ ?_ _ (fun listed => plain (List.mem_cons_of_mem _ (after.subset listed))) rfl
        rw [← size, List.length_cons]
        exact Nat.lt_succ_of_le after.length_le

theorem startsWith_lossy (text : Str) (bytes : List UInt8)
    (ascii : ∀ c ∈ text, c.toNat < 0x80 ∧ c ≠ '\x00') :
    startsWith text (lossy bytes) =
      startsWith (text.map fun c => UInt8.ofNat c.toNat) bytes := by
  induction text generalizing bytes with
  | nil => rfl
  | cons c text ih =>
    rw [List.forall_mem_cons] at ascii
    cases bytes with
    | nil => rfl
    | cons a rest =>
      have low : (UInt8.ofNat c.toNat).toNat = c.toNat := by
        rw [UInt8.toNat_ofNat']
        exact Nat.mod_eq_of_lt (by omega)
      rw [List.map_cons, startsWith, startsWith, stripPrefix]
      rw [lossy, chunks_cons, List.map_cons, stripPrefix]
      by_cases same : UInt8.ofNat c.toNat = a
      · subst same
        rw [next_ascii _ _ (by rw [low]; exact ascii.1.1), low, Char.ofNat_toNat, if_pos rfl]
        dsimp only [Option.getD_some]
        rw [if_pos rfl]
        exact ih rest ascii.2
      · rw [if_neg same]
        have differ : c ≠ (next a rest).1.getD '\uFFFD' := by
          intro read
          cases first : (next a rest).1 with
          | none =>
            rw [first] at read
            subst read
            exact absurd ascii.1.1 (by decide)
          | some d =>
            rw [first, Option.getD_some] at read
            subst read
            have byte := (next_eq_ascii a rest _ c ascii.1.1 ascii.1.2 (Prod.ext first rfl)).1
            exact same (UInt8.toNat_inj.1 (low.trans byte.symm))
        rw [if_neg differ]
        rfl

theorem ofNat_byte (n : Nat) (b : UInt8) (same : n = b.toNat) : UInt8.ofNat n = b := by
  rw [same]
  exact UInt8.ofNat_toNat

/-- A character read from some bytes is written as those bytes. -/
theorem encodeChar_next (a : UInt8) (rest after : List UInt8) (c : Char)
    (read : next a rest = (some c, after)) : String.utf8EncodeChar c ++ after = a :: rest := by
  have code (n : Nat) (valid : n.isValidChar) : (Char.ofNat n).val.toNat = n := by
    unfold Char.ofNat
    rw [dif_pos valid]
    exact UInt32.toNat_ofNatLT ..
  have size := a.toNat_lt
  unfold next at read
  split at read
  · simp only [Prod.mk.injEq, Option.some.injEq] at read
    obtain ⟨rfl, rfl⟩ := read
    unfold String.utf8EncodeChar
    rw [code _ (by unfold Nat.isValidChar; omega)]
    dsimp only
    rw [if_pos (by omega), ofNat_byte a.toNat a rfl, List.singleton_append]
  repeat' split at read
  all_goals simp only [Prod.mk.injEq, reduceCtorEq, false_and, Option.some.injEq] at read
  all_goals
    obtain ⟨rfl, rfl⟩ := read
    simp only [secondOfThree, secondOfFour, continues, Bool.or_eq_true, Bool.and_eq_true,
      decide_eq_true_eq] at *
    unfold String.utf8EncodeChar
    rw [code _ (by unfold Nat.isValidChar; omega)]
    dsimp only
  · rw [if_neg (by omega), if_pos (by omega)]
    simp only [List.cons_append, List.nil_append, List.cons.injEq, and_true]
    exact ⟨ofNat_byte _ _ (by omega), ofNat_byte _ _ (by omega)⟩
  · rw [if_neg (by omega), if_neg (by omega), if_pos (by omega)]
    simp only [List.cons_append, List.nil_append, List.cons.injEq, and_true]
    exact ⟨ofNat_byte _ _ (by omega), ofNat_byte _ _ (by omega), ofNat_byte _ _ (by omega)⟩
  · rw [if_neg (by omega), if_neg (by omega), if_neg (by omega)]
    simp only [List.cons_append, List.nil_append, List.cons.injEq, and_true]
    exact ⟨ofNat_byte _ _ (by omega), ofNat_byte _ _ (by omega), ofNat_byte _ _ (by omega),
      ofNat_byte _ _ (by omega)⟩

theorem encode_decode (bytes : List UInt8) (text : Str) (read : decode bytes = some text) :
    encode text = bytes := by
  have each (bytes : List UInt8) (text : Str) (read : chunks bytes = text.map some) :
      encode text = bytes := by
    induction size : bytes.length using Nat.strong_induction_on generalizing bytes text with
    | _ size ih =>
      cases bytes with
      | nil =>
        rw [chunks_nil, eq_comm, List.map_eq_nil_iff] at read
        subst read
        rfl
      | cons a rest =>
        cases text with
        | nil => simp [chunks_cons] at read
        | cons c text =>
          rw [chunks_cons, List.map_cons, List.cons.injEq] at read
          have short := next_length a rest
          have own := encodeChar_next a rest _ c (Prod.ext read.1 rfl)
          rw [List.length_cons] at size
          have later := ih _ (by omega) _ text read.2 rfl
          have whole : encode (c :: text) = String.utf8EncodeChar c ++ encode text :=
            List.flatMap_cons ..
          rw [whole, later, own]
  exact each bytes text (mapM_id _ _ read)

theorem mem_decode (bytes : List UInt8) (text : Str) (read : decode bytes = some text) (b : UInt8)
    (ascii : b.toNat < 0x80) : b ∈ bytes ↔ Char.ofNat b.toNat ∈ text := by
  have chars := mapM_id _ _ read
  constructor
  · intro listed
    obtain ⟨before, after, rfl⟩ := List.append_of_mem listed
    rw [chunks_append_ascii before after b ascii] at chars
    have inside : some (Char.ofNat b.toNat) ∈ text.map some := by
      rw [← chars]
      simp
    simpa using inside
  · intro listed
    rw [← encode_decode bytes text read]
    refine List.mem_flatMap.2 ⟨_, listed, ?_⟩
    have code := encodeChar_next b [] [] (Char.ofNat b.toNat) (next_ascii b [] ascii)
    rw [List.append_nil] at code
    rw [code]
    exact List.mem_singleton_self b

end DeepDiffForge.Utf8
