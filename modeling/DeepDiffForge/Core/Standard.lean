import DeepDiffForge.Core.Sealing
import Mathlib.Analysis.SpecialFunctions.Pow.NthRootLemmas
import Mathlib.Tactic.IntervalCases

/-! The digest the code computes is the standard's. -/

namespace DeepDiffForge.Core.Sealing
open Fips (Byte Word Working)

def bits (bytes : List UInt8) : List Byte := bytes.map UInt8.toBitVec

/-! Words and bytes. -/

theorem pushByte_toNat (word : UInt32) (byte : UInt8) (small : word.toNat < 2 ^ 24) :
    ((word <<< 8) ||| byte.toUInt32).toNat = word.toNat * 256 + byte.toNat := by
  have least := byte.toNat_lt
  rw [UInt32.toNat_or, UInt32.toNat_shiftLeft, UInt8.toNat_toUInt32]
  change word.toNat <<< 8 % 2 ^ 32 ||| byte.toNat = _
  rw [Nat.mod_eq_of_lt (by rw [Nat.shiftLeft_eq]; omega), ← Nat.shiftLeft_add_eq_or_of_lt (by omega),
    Nat.shiftLeft_eq]

theorem append_toNat (n : Nat) (word : BitVec n) (byte : Byte) :
    (word ++ byte).toNat = word.toNat * 256 + byte.toNat := by
  rw [BitVec.toNat_append, ← Nat.shiftLeft_add_eq_or_of_lt byte.isLt, Nat.shiftLeft_eq]

theorem beWord_bits (p q r s : UInt8) :
    (beWord [p, q, r, s]).toBitVec =
      (p.toBitVec ++ q.toBitVec ++ r.toBitVec ++ s.toBitVec : Word) := by
  have one := p.toNat_lt
  have two := q.toNat_lt
  have three := r.toNat_lt
  have first : (((0 : UInt32) <<< 8) ||| p.toUInt32).toNat = p.toNat := by
    rw [pushByte_toNat 0 p (by decide)]
    exact Nat.zero_add _
  have second := pushByte_toNat _ q (by rw [first]; omega)
  have third := pushByte_toNat _ r (by rw [second, first]; omega)
  have fourth := pushByte_toNat _ s (by rw [third, second, first]; omega)
  apply BitVec.eq_of_toNat_eq
  rw [append_toNat, append_toNat, append_toNat]
  change (beWord [p, q, r, s]).toNat = _
  simp only [beWord, List.foldl_cons, List.foldl_nil]
  rw [fourth, third, second, first]
  rfl

theorem beWord_at (bytes : List UInt8) (k : Nat) (within : k + 4 ≤ bytes.length) :
    (beWord ((bytes.drop k).take 4)).toBitVec = Fips.wordAt (bits bytes) k := by
  have held (i : Nat) (less : i < 4) : (bits bytes).getD (k + i) 0 =
      ((bytes.drop k).take 4)[i]!.toBitVec := by
    have inside : k + i < bytes.length := by omega
    simp [bits, inside, less]
  have four : ((bytes.drop k).take 4).length = 4 := by
    rw [List.length_take, List.length_drop]
    omega
  rw [Fips.wordAt, ← Nat.add_zero k, held 0 (by decide), held 1 (by decide), held 2 (by decide),
    held 3 (by decide), Nat.add_zero]
  match (bytes.drop k).take 4, four with
  | [p, q, r, s], _ => exact beWord_bits p q r s

theorem toBeBytes_bits (number : UInt64) :
    bits (toBeBytes number) = Fips.bigEndian number.toBitVec := by
  rfl

theorem bitLen_bits (length : Nat) (short : length < 2 ^ 61) :
    (bitLen length).toBitVec = BitVec.ofNat 64 (8 * length) := by
  apply BitVec.eq_of_toNat_eq
  rw [bitLen, if_pos (by omega), UInt64.toNat_toBitVec, UInt64.toNat_shiftLeft,
    UInt64.toNat_ofNat', BitVec.toNat_ofNat, Nat.mod_eq_of_lt (a := length) (by omega)]
  change length <<< 3 % 2 ^ 64 = _
  rw [Nat.shiftLeft_eq]
  omega

/-! The constants. -/

/-- Below the square of nineteen, trial division by the numbers up to seventeen finds the primes. -/
theorem prime_trial (n : Nat) (small : n < 312) :
    decide n.Prime = (decide (2 ≤ n) &&
      (List.range' 2 16).all fun m => decide (n < m * m) || n % m != 0) := by
  rw [Bool.eq_iff_iff, decide_eq_true_iff, Bool.and_eq_true, decide_eq_true_iff, List.all_eq_true,
    Nat.prime_def_le_sqrt]
  refine and_congr_right fun _ => ?_
  constructor
  · intro prime m listed
    rw [Bool.or_eq_true, decide_eq_true_iff, bne_iff_ne]
    by_cases past : n < m * m
    · exact .inl past
    · have least := (List.mem_range'_1.1 listed).1
      exact .inr fun whole => prime m least (Nat.le_sqrt.2 (Nat.le_of_not_lt past))
        (Nat.dvd_of_mod_eq_zero whole)
  · intro trial m least most divides
    have square := Nat.le_sqrt.1 most
    have low : m < 18 := by
      by_contra high
      have big := Nat.mul_le_mul (Nat.le_of_not_lt high) (Nat.le_of_not_lt high)
      omega
    have tried := trial m (List.mem_range'_1.2 ⟨least, by omega⟩)
    rw [Bool.or_eq_true, decide_eq_true_iff, bne_iff_ne] at tried
    rcases tried with past | rest
    · omega
    · exact rest (Nat.mod_eq_zero_of_dvd divides)

theorem primes_listed : Fips.primes = [2, 3, 5, 7, 11, 13, 17, 19, 23, 29, 31, 37, 41, 43, 47, 53,
    59, 61, 67, 71, 73, 79, 83, 89, 97, 101, 103, 107, 109, 113, 127, 131, 137, 139, 149, 151, 157,
    163, 167, 173, 179, 181, 191, 193, 197, 199, 211, 223, 227, 229, 233, 239, 241, 251, 257, 263,
    269, 271, 277, 281, 283, 293, 307, 311] := by
  have trial := List.filter_congr fun n listed => prime_trial n (List.mem_range.1 listed)
  rw [Fips.primes, trial]
  decide +kernel

def rooted (degree p c : Nat) : Bool :=
  decide (c < 2 ^ 32) && (List.range 20).any fun k =>
    decide ((k * 2 ^ 32 + c) ^ degree ≤ p * 2 ^ (32 * degree)) &&
      decide (p * 2 ^ (32 * degree) < (k * 2 ^ 32 + c + 1) ^ degree)

theorem root_rooted (degree p c : Nat) (test : rooted degree p c = true) :
    Nat.nthRoot degree (p * 2 ^ (32 * degree)) % 2 ^ 32 = c := by
  obtain ⟨small, found⟩ := Bool.and_eq_true_iff.1 test
  obtain ⟨k, -, bounds⟩ := List.any_eq_true.1 found
  obtain ⟨low, high⟩ := Bool.and_eq_true_iff.1 bounds
  rw [Nat.nthRoot_eq_of_le_of_lt (of_decide_eq_true low) (of_decide_eq_true high),
    Nat.mul_add_mod_self_right, Nat.mod_eq_of_lt (of_decide_eq_true small)]

theorem roots_listed (degree : Nat) (primes roots : List Nat)
    (length : primes.length = roots.length)
    (test : (primes.zip roots).all (fun pair => rooted degree pair.1 pair.2) = true) :
    primes.map (fun p => Nat.nthRoot degree (p * 2 ^ (32 * degree)) % 2 ^ 32) = roots := by
  induction primes generalizing roots with
  | nil => exact (List.eq_nil_of_length_eq_zero length.symm).symm
  | cons p primes ih =>
    cases roots with
    | nil => exact absurd length (Nat.succ_ne_zero _)
    | cons c roots =>
      rw [List.zip_cons_cons, List.all_cons, Bool.and_eq_true] at test
      rw [List.map_cons, root_rooted degree p c test.1,
        ih roots (Nat.succ.inj length) test.2]

theorem map_getD {β : Type} (f : Nat → β) (items : List Nat) :
    (List.range items.length).map (fun t => f (items.getD t 0)) = items.map f := by
  apply List.ext_getElem
  · rw [List.length_map, List.length_map, List.length_range]
  · intro t one two
    rw [List.length_map] at two
    rw [List.getElem_map, List.getElem_map, List.getElem_range, List.getD_eq_getElem?_getD,
      List.getElem?_eq_getElem two, Option.getD_some]

theorem rootBits_listed (degree : Nat) (roots : List Nat)
    (length : Fips.primes.length = roots.length)
    (test : (Fips.primes.zip roots).all (fun pair => rooted degree pair.1 pair.2) = true) :
    (List.range roots.length).map (Fips.rootBits degree) = roots := by
  have listed := roots_listed degree Fips.primes roots length test
  rw [← map_getD, length] at listed
  exact listed

/-- The constants of the code are the root fractions of the standard. -/
theorem constants_standard :
    roundConstants.map UInt32.toBitVec = (List.range 64).map Fips.roundConstant ∧
      working h0 = Fips.initial := by
  have cubes : roundConstants.map UInt32.toNat = (List.range 64).map (Fips.rootBits 3) := by
    refine (rootBits_listed 3 (roundConstants.map UInt32.toNat) ?_ ?_).symm
    · rw [primes_listed]
      rfl
    · rw [primes_listed]
      decide +kernel
  refine ⟨?_, ?_⟩
  · have back (t : Nat) : Fips.roundConstant t = BitVec.ofNat 32 (Fips.rootBits 3 t) := rfl
    rw [List.map_congr_left fun t _ => back t, ← Function.comp_def, ← List.map_map, ← cubes,
      List.map_map]
    exact List.map_congr_left fun x _ => (BitVec.ofNat_toNat 32 x.toBitVec).symm
  · unfold Fips.initial Fips.rootBits
    rw [primes_listed]
    decide +kernel

/-! The schedule. -/

/-- What setting consecutive places leaves at a place. -/
theorem setAll_get (f : List UInt8 → UInt32) (xs : List (List UInt8)) (k : Nat)
    (w : Vector UInt32 64) (j : Nat) (below : j < 64) :
    ((xs.zipIdx k).foldl (fun w x => w.setIfInBounds x.2 (f x.1)) w)[j] =
      if j < k then w[j] else (xs[j - k]?.map f).getD w[j] := by
  induction xs generalizing k w with
  | nil => simp
  | cons x xs ih =>
    rw [List.zipIdx_cons, List.foldl_cons, ih]
    rcases Nat.lt_trichotomy j k with before | rfl | after
    · rw [if_pos (by omega), if_pos before, Vector.getElem_setIfInBounds_ne _ (by omega)]
    · rw [if_pos (by omega), if_neg (by omega), Nat.sub_self]
      simp
    · rw [if_neg (by omega), if_neg (by omega), Vector.getElem_setIfInBounds_ne _ (by omega),
        show j - k = j - (k + 1) + 1 by omega, List.getElem?_cons_succ]

theorem firstWords_bits (block : List UInt8) (whole : block.length = 64) (j : Nat) (below : j < 64)
    (first : j < 16) : (firstWords block)[j].toBitVec = Fips.wordAt (bits block) (4 * j) := by
  have piece : (asChunks 4 block).1[j]? = some ((block.drop (j * 4)).take 4) := by
    rw [asChunks, chunks_range, List.getElem?_map, List.getElem?_range (by omega), Option.map_some]
  unfold firstWords
  rw [setAll_get, if_neg (Nat.not_lt_zero j), Nat.sub_zero, piece, Option.map_some,
    Option.getD_some, beWord_at block (j * 4) (by omega), Nat.mul_comm]

/-- A step of the second loop makes one more word of the schedule. -/
theorem extendWord_bits (block : Nat → Word) (w : Vector UInt32 64) (i : Nat) (later : 16 ≤ i)
    (below : i < 64)
    (made : ∀ j (inside : j < 64), j < i → w[j].toBitVec = Fips.schedule block j) (j : Nat)
    (inside : j < 64) (next : j < i + 1) :
    (extendWord w i later below)[j].toBitVec = Fips.schedule block j := by
  obtain ⟨t, rfl⟩ := Nat.exists_eq_add_of_le' later
  unfold extendWord
  rw [Vector.getElem_set]
  by_cases same : j = t + 16
  · subst same
    rw [if_pos rfl, Fips.schedule_later, ← made (t + 14) (by omega) (by omega),
      ← made (t + 9) (by omega) (by omega), ← made (t + 1) (by omega) (by omega),
      ← made t (by omega) (by omega)]
    calc _ = w[t].toBitVec + Fips.smallSigma0 w[t + 1].toBitVec + w[t + 9].toBitVec +
          Fips.smallSigma1 w[t + 14].toBitVec := rfl
      _ = _ := by ac_rfl
  · rw [if_neg (Ne.symm same)]
    exact made j inside (by omega)

theorem schedule_bits (block : List UInt8) (whole : block.length = 64) (j : Nat) (below : j < 64) :
    (schedule block)[j].toBitVec =
      Fips.schedule (fun t => Fips.wordAt (bits block) (4 * t)) j := by
  have grown (count : Nat) (within : count ≤ 48) (j : Nat) (below : j < 64)
      (made : j < 16 + count) :
      (Fin.foldl count (fun w i => extendWord w (16 + i) (by omega) (by omega))
        (firstWords block))[j].toBitVec =
        Fips.schedule (fun t => Fips.wordAt (bits block) (4 * t)) j := by
    induction count generalizing j with
    | zero =>
      rw [Fips.schedule_first _ j made]
      exact firstWords_bits block whole j below made
    | succ count ih =>
      rw [Fin.foldl_succ_last]
      exact extendWord_bits _ _ (16 + count) _ _ (ih (by omega)) j below made
  exact grown 48 (Nat.le_refl _) j below (by omega)

/-! The rounds. -/

theorem rotateSlice_get (v : Vector UInt32 8) (i : Nat) (below : i < 8) :
    (rotateSlice v 1)[i] = v[(i + 7) % 8] := by
  rw [rotateSlice, Vector.getElem_ofFn]

/-- Rotating the array in place shifts the variables as the standard names them. -/
theorem roundStep_bits (v : Vector UInt32 8) (step : UInt32 × UInt32) :
    working (roundStep v step) = Fips.round step.1.toBitVec step.2.toBitVec (working v) := by
  simp only [roundStep, working, Vector.getElem_set, rotateSlice_get]
  rfl

theorem compress_bits (state : Vector UInt32 8) (block : List UInt8) (whole : block.length = 64) :
    working (compress state block) =
      Fips.hashBlock (working state) fun t => Fips.wordAt (bits block) (4 * t) := by
  have steps : (roundConstants.zip (schedule block).toList).map
      (fun step => (step.1.toBitVec, step.2.toBitVec)) = (List.range 64).map fun t =>
        (Fips.roundConstant t, Fips.schedule (fun t => Fips.wordAt (bits block) (4 * t)) t) := by
    have words : (schedule block).toList.map UInt32.toBitVec =
        (List.range 64).map (Fips.schedule fun t => Fips.wordAt (bits block) (4 * t)) := by
      apply List.ext_getElem
      · simp
      · intro j held below
        have within : j < 64 := by simpa using below
        rw [List.getElem_map, List.getElem_map, List.getElem_range, Vector.getElem_toList,
          schedule_bits block whole j within]
    calc _ = (roundConstants.map UInt32.toBitVec).zip
          ((schedule block).toList.map UInt32.toBitVec) := List.zip_map.symm
      _ = _ := by rw [constants_standard.1, words, List.zip_map']
  have folded (steps : List (UInt32 × UInt32)) (v : Vector UInt32 8) :
      working (steps.foldl roundStep v) =
        (steps.map fun step => (step.1.toBitVec, step.2.toBitVec)).foldl
          (fun v step => Fips.round step.1 step.2 v) (working v) := by
    induction steps generalizing v with
    | nil => rfl
    | cons step steps ih => rw [List.foldl_cons, ih, roundStep_bits, List.map_cons, List.foldl_cons]
  have after : working ((roundConstants.zip (schedule block).toList).foldl roundStep state) =
      Fips.rounds (fun t => Fips.wordAt (bits block) (4 * t)) (working state) 64 := by
    rw [folded, steps, List.foldl_map, Fips.rounds_range]
  have sums (one two : Vector UInt32 8) :
      working (Vector.zipWith (· + ·) one two) =
        { a := (working two).a + (working one).a, b := (working two).b + (working one).b,
          c := (working two).c + (working one).c, d := (working two).d + (working one).d,
          e := (working two).e + (working one).e, f := (working two).f + (working one).f,
          g := (working two).g + (working one).g, h := (working two).h + (working one).h } := by
    simp only [working, Vector.getElem_zipWith, UInt32.toBitVec_add]
    simp only [BitVec.add_comm]
  rw [compress, sums, after, Fips.hashBlock]

/-! The padding. -/

def padded (bytes : List UInt8) : List UInt8 :=
  bytes ++ 0x80 :: List.replicate (Fips.zeros bytes.length) 0 ++ toBeBytes (bitLen bytes.length)

theorem padded_bits (bytes : List UInt8) (short : bytes.length < 2 ^ 61) :
    bits (padded bytes) = Fips.pad (bits bytes) := by
  have length : (bits bytes).length = bytes.length := List.length_map _
  have tail := toBeBytes_bits (bitLen bytes.length)
  rw [bitLen_bits _ short] at tail
  rw [Fips.pad, length, ← tail, padded, bits, bits, bits, List.map_append, List.map_append,
    List.map_cons, List.map_replicate]
  rfl

theorem length_toBeBytes (number : UInt64) : (toBeBytes number).length = 8 := rfl

/-- The buffer holds the end of the padded message: one block, or two where the length does not fit
after the rest of the message. -/
theorem paddedTail_eq (rem : List UInt8) (length : Nat) (remains : rem.length = length % 64) :
    paddedTail rem length =
      rem ++ 0x80 :: List.replicate (Fips.zeros length) 0 ++ toBeBytes (bitLen length) := by
  have small : rem.length < 64 := by omega
  obtain ⟨free, width⟩ : ∃ free, 128 = rem.length + (free + 1) := ⟨127 - rem.length, by omega⟩
  have copied : copyAt (List.replicate 128 0) 0 rem = rem ++ 0 :: List.replicate free 0 := by
    rw [copyAt, List.take_zero, List.nil_append, Nat.zero_add, List.drop_replicate, width,
      Nat.add_sub_cancel_left, List.replicate_succ]
  have marked : (rem ++ 0 :: List.replicate free 0).set rem.length (0x80 : UInt8) =
      rem ++ 0x80 :: List.replicate free 0 := by
    rw [List.set_append_right _ _ (Nat.le_refl _), Nat.sub_self, List.set_cons_zero]
  have ends (tailLen : Nat) (fits : rem.length + 9 ≤ tailLen) (within : tailLen ≤ 128) :
      (copyAt (rem ++ 0x80 :: List.replicate free 0) (tailLen - 8)
        (toBeBytes (bitLen length))).take tailLen =
        rem ++ 0x80 :: List.replicate (tailLen - 9 - rem.length) 0 ++
          toBeBytes (bitLen length) := by
    have front : (rem ++ 0x80 :: List.replicate free 0).take (tailLen - 8) =
        rem ++ 0x80 :: List.replicate (tailLen - 9 - rem.length) (0 : UInt8) := by
      obtain ⟨zeros, rfl⟩ := Nat.exists_eq_add_of_le fits
      rw [List.take_append, List.take_of_length_le (by omega),
        show rem.length + 9 + zeros - 8 - rem.length = zeros + 1 by omega, List.take_succ_cons,
        List.take_replicate, Nat.min_eq_left (by omega)]
      congr 3
      omega
    rw [copyAt, front, List.take_left']
    rw [List.length_append, List.length_append, List.length_cons, List.length_replicate,
      length_toBeBytes]
    omega
  unfold paddedTail
  dsimp only
  rw [copied, marked]
  split
  · rw [ends 64 (by omega) (by omega)]
    congr 3
    unfold Fips.zeros
    congr 1
    omega
  · rw [ends 128 (by omega) (by omega)]
    congr 3
    unfold Fips.zeros
    congr 1
    omega

theorem chunks_append (count more : Nat) (front rest : List UInt8)
    (whole : front.length = count * 64) :
    chunks 64 (count + more) (front ++ rest) = chunks 64 count front ++ chunks 64 more rest := by
  induction count generalizing front with
  | zero =>
    have empty : front = [] := List.eq_nil_of_length_eq_zero (by omega)
    rw [empty, Nat.zero_add]
    rfl
  | succ count ih =>
    rw [Nat.add_right_comm, chunks, chunks, List.take_append_of_le_length (by omega),
      List.drop_append_of_le_length (by omega), ih (front.drop 64) (by
        rw [List.length_drop]; omega), List.cons_append]

/-- The blocks compressed, in order, are those of the padded message. -/
theorem blocks_padded (bytes : List UInt8) :
    (asChunks 64 bytes).1 ++ (asChunks 64 (paddedTail (asChunks 64 bytes).2 bytes.length)).1 =
      chunks 64 ((padded bytes).length / 64) (padded bytes) := by
  obtain ⟨front, rem, full, rfl, whole, small⟩ : ∃ front rem full, bytes = front ++ rem ∧
      front.length = full * 64 ∧ rem.length < 64 := by
    refine ⟨bytes.take (bytes.length / 64 * 64), bytes.drop (bytes.length / 64 * 64),
      bytes.length / 64, (List.take_append_drop _ _).symm, ?_, ?_⟩
    · rw [List.length_take]
      omega
    · rw [List.length_drop]
      omega
  have count : (front ++ rem).length / 64 = full := by
    rw [List.length_append]
    omega
  have first : (asChunks 64 (front ++ rem)).1 = chunks 64 full front := by
    rw [asChunks, count]
    exact (chunks_append full 0 front rem whole).trans (List.append_nil _)
  have rest : (asChunks 64 (front ++ rem)).2 = rem := by
    rw [asChunks, count]
    exact List.drop_left' whole
  have tail := paddedTail_eq rem (front ++ rem).length (by rw [List.length_append]; omega)
  have split : padded (front ++ rem) = front ++ paddedTail rem (front ++ rem).length := by
    rw [padded, tail, List.append_assoc, List.append_assoc, List.append_assoc]
  have total : (padded (front ++ rem)).length / 64 =
      full + (paddedTail rem (front ++ rem).length).length / 64 := by
    rw [split, List.length_append]
    omega
  rw [first, rest, total, split, chunks_append full _ front _ whole]
  rfl

/-- Words of a block, by their place in the padded message. -/
theorem wordAt_block (bytes : List UInt8) (i t : Nat) (first : t < 16) :
    Fips.wordAt (bits ((bytes.drop (i * 64)).take 64)) (4 * t) =
      Fips.wordAt (bits bytes) (64 * i + 4 * t) := by
  have held (k : Nat) (less : k < 64) :
      (bits ((bytes.drop (i * 64)).take 64)).getD k 0 = (bits bytes).getD (64 * i + k) 0 := by
    rw [bits, bits, List.getD_eq_getElem?_getD, List.getD_eq_getElem?_getD, List.getElem?_map,
      List.getElem?_map, List.getElem?_take_of_lt less, List.getElem?_drop, Nat.mul_comm]
  rw [Fips.wordAt, Fips.wordAt, held _ (by omega), held _ (by omega), held _ (by omega),
    held _ (by omega)]
  rfl

theorem hashed (bytes : List UInt8) (count : Nat) (within : 64 * count ≤ bytes.length) :
    working ((chunks 64 count bytes).foldl compress h0) = Fips.hashAfter (bits bytes) count := by
  induction count with
  | zero => exact constants_standard.2
  | succ count ih =>
    have before := ih (by omega)
    rw [chunks_range] at before ⊢
    rw [List.range_succ, List.map_append, List.foldl_append, List.map_singleton, List.foldl_cons,
      List.foldl_nil, compress_bits _ _ (by rw [List.length_take, List.length_drop]; omega), before,
      Fips.hashAfter]
    exact Fips.hashBlock_congr _ _ _ fun t first => wordAt_block bytes count t first

theorem flatMap_bits (state : Vector UInt32 8) :
    bits (state.toList.flatMap beBytes) =
      let v := working state
      [v.a, v.b, v.c, v.d, v.e, v.f, v.g, v.h].flatMap Fips.wordBytes := by
  have listed : state.toList =
      [state[0], state[1], state[2], state[3], state[4], state[5], state[6], state[7]] := by
    apply List.ext_getElem
    · simp
    · intro i held below
      have less : i < 8 := below
      interval_cases i <;> rfl
  rw [listed]
  rfl

/-- The code's digest is the standard's. -/
theorem sha256_standard (bytes : List UInt8) (short : bytes.length < 2 ^ 61) :
    (sha256 bytes).map UInt8.toBitVec = Fips.sha256 (bytes.map UInt8.toBitVec) := by
  have sized : (bits (padded bytes)).length = (padded bytes).length := List.length_map _
  have digest : sha256 bytes = ((chunks 64 ((padded bytes).length / 64) (padded bytes)).foldl
      compress h0).toList.flatMap beBytes := by
    rw [← blocks_padded, List.foldl_append]
    rfl
  rw [digest]
  change bits _ = Fips.sha256 (bits bytes)
  rw [flatMap_bits, hashed _ _ (by omega), Fips.sha256, ← padded_bits bytes short, sized]

theorem sha256_standard_abc :
    [97, 98, 99].length < 2 ^ 61 ∧
      (sha256 [97, 98, 99]).map UInt8.toBitVec = Fips.sha256 [0x61#8, 0x62#8, 0x63#8] :=
  ⟨by decide, sha256_standard [97, 98, 99] (by decide)⟩

/-! The digest by named variables and lists. -/

def words (state : HashState) : Vector UInt32 8 :=
  #v[state.a, state.b, state.c, state.d, state.e, state.f, state.g, state.h]

theorem round_words (v : HashState) (step : UInt32 × UInt32) :
    words (v.round step.1 step.2) = roundStep (words v) step := rfl

theorem schedule_list (block : List UInt8) (whole : block.length = 64) :
    Core.schedule 48 ((chunks 4 16 block).map beWord) = (schedule block).toList := by
  let made (t : Nat) : UInt32 :=
    UInt32.ofBitVec (Fips.schedule (fun t => Fips.wordAt (bits block) (4 * t)) t)
  have grown (count start : Nat) (from16 : 16 ≤ start) :
      Core.schedule count ((List.range start).map made) = (List.range (start + count)).map made := by
    induction count generalizing start with
    | zero => rfl
    | succ count ih =>
      obtain ⟨t, rfl⟩ := Nat.exists_eq_add_of_le' from16
      have back (n : Nat) (early : n < t + 16) :
          ((List.range (t + 16)).map made).getD n 0 = made n := by
        rw [List.getD_eq_getElem?_getD, List.getElem?_map, List.getElem?_range early]
        rfl
      have next : made (t + 16) = made t +
          (rotateRight (made (t + 1)) 7 ^^^ rotateRight (made (t + 1)) 18 ^^^ made (t + 1) >>> 3) +
          made (t + 9) +
          (rotateRight (made (t + 14)) 17 ^^^ rotateRight (made (t + 14)) 19 ^^^
            made (t + 14) >>> 10) := by
        apply UInt32.toBitVec_inj.1
        have order (one two three four : Word) :
            one + two + three + four = four + three + two + one := by ac_rfl
        exact (Fips.schedule_later _ t).trans (order _ _ _ _)
      rw [Core.schedule]
      simp only [List.length_map, List.length_range]
      rw [show t + 16 - 15 = t + 1 by omega, show t + 16 - 2 = t + 14 by omega,
        show t + 16 - 16 = t by omega, show t + 16 - 7 = t + 9 by omega, back _ (by omega),
        back _ (by omega), back _ (by omega), back _ (by omega), ← next]
      have longer := ih (t + 16 + 1) (by omega)
      rw [List.range_succ, List.map_append, List.map_singleton] at longer
      rw [longer]
      congr 2
      omega
  have first : (chunks 4 16 block).map beWord = (List.range 16).map made := by
    rw [chunks_range, List.map_map]
    apply List.map_congr_left
    intro t mem
    have early := List.mem_range.1 mem
    apply UInt32.toBitVec_inj.1
    rw [Function.comp_apply, beWord_at block _ (by omega), Nat.mul_comm]
    exact (Fips.schedule_first (fun t => Fips.wordAt (bits block) (4 * t)) t early).symm
  rw [first, grown 48 16 (Nat.le_refl _)]
  apply List.ext_getElem
  · simp
  · intro j held below
    have within : j < 64 := by simpa using held
    rw [List.getElem_map, List.getElem_range, Vector.getElem_toList]
    exact UInt32.toBitVec_inj.1 (schedule_bits block whole j within).symm

theorem compress_words (state : HashState) (block : List UInt8) (whole : block.length = 64) :
    words (Core.compress state block) = compress (words state) block := by
  have folded (steps : List (UInt32 × UInt32)) (v : HashState) :
      words (steps.foldl (fun v step => v.round step.1 step.2) v) =
        steps.foldl roundStep (words v) := by
    induction steps generalizing v with
    | nil => rfl
    | cons step steps ih => rw [List.foldl_cons, List.foldl_cons, ih, round_words]
  have sums (one two : HashState) : Vector.zipWith (· + ·) (words one) (words two) =
      words ⟨one.a + two.a, one.b + two.b, one.c + two.c, one.d + two.d, one.e + two.e,
        one.f + two.f, one.g + two.g, one.h + two.h⟩ := by
    simp [words]
  rw [compress, ← schedule_list block whole, ← folded, sums]
  rfl

theorem toBeBytes_halves (number : UInt64) :
    toBeBytes number = beBytes (number >>> 32).toUInt32 ++ beBytes number.toUInt32 := by
  have listed : toBeBytes number =
      [(number >>> 56).toUInt8, (number >>> 48).toUInt8, (number >>> 40).toUInt8,
        (number >>> 32).toUInt8, (number >>> 24).toUInt8, (number >>> 16).toUInt8,
        (number >>> 8).toUInt8, (number >>> 0).toUInt8] := rfl
  rw [listed]
  simp only [beBytes, List.cons_append, List.nil_append, List.cons.injEq, and_true,
    ← UInt8.toNat_inj, UInt64.toNat_toUInt8, UInt32.toNat_toUInt8, UInt64.toNat_shiftRight,
    UInt32.toNat_shiftRight, UInt64.toNat_toUInt32, UInt64.reduceToNat, UInt32.reduceToNat,
    Nat.shiftRight_eq_div_pow, Nat.reduceMod, Nat.reducePow]
  omega

/-- The length in two words. -/
theorem lengthBytes (length : Nat) (short : length < 2 ^ 61) :
    beBytes (UInt32.ofNat (length * 8 % 2 ^ 64 / 2 ^ 32)) ++
      beBytes (UInt32.ofNat (length * 8 % 2 ^ 64)) = toBeBytes (bitLen length) := by
  have high : UInt32.ofNat (length * 8 % 2 ^ 64 / 2 ^ 32) = (bitLen length >>> 32).toUInt32 := by
    apply UInt32.toNat_inj.1
    rw [bitLen, if_pos (by omega)]
    simp [Nat.shiftRight_eq_div_pow, Nat.shiftLeft_eq]
  have low : UInt32.ofNat (length * 8 % 2 ^ 64) = (bitLen length).toUInt32 := by
    apply UInt32.toNat_inj.1
    rw [bitLen, if_pos (by omega)]
    simp [Nat.shiftLeft_eq]
  rw [toBeBytes_halves, high, low]

def HashState.bytes (state : HashState) : List UInt8 := (words state).toList.flatMap beBytes

theorem folded_words (blocks : List (List UInt8)) (state : HashState)
    (whole : ∀ block ∈ blocks, block.length = 64) :
    words (blocks.foldl Core.compress state) = blocks.foldl compress (words state) := by
  induction blocks generalizing state with
  | nil => rfl
  | cons block blocks ih =>
    rw [List.foldl_cons, List.foldl_cons, ih _ fun block mem => whole block (.tail _ mem),
      compress_words state block (whole block List.mem_cons_self)]

theorem listTail_eq (rem : List UInt8) (length : Nat) (remains : rem.length = length % 64)
    (short : length < 2 ^ 61) :
    rem ++ 0x80 :: List.replicate ((if rem.length < 56 then 64 else 128) - 9 - rem.length) 0 ++
        beBytes (UInt32.ofNat (length * 8 % 2 ^ 64 / 2 ^ 32)) ++
        beBytes (UInt32.ofNat (length * 8 % 2 ^ 64)) = paddedTail rem length ∧
      (if rem.length < 56 then 64 else 128) = (paddedTail rem length).length := by
  rw [paddedTail_eq rem length remains]
  constructor
  · rw [← lengthBytes length short, ← List.append_assoc, remains, Fips.zeros]
    congr 5
    split <;> omega
  · rw [List.length_append, List.length_append, List.length_cons, List.length_replicate,
      length_toBeBytes, remains, Fips.zeros]
    split <;> omega

/-- The digest by lists is the digest on the arrays. -/
theorem sha256_sealing (bytes : List UInt8) (short : bytes.length < 2 ^ 61) :
    Core.sha256 bytes = sha256 bytes := by
  have rest : (asChunks 64 bytes).2.length = bytes.length % 64 := by
    rw [asChunks, List.length_drop]
    omega
  obtain ⟨tail, tailLen⟩ := listTail_eq (asChunks 64 bytes).2 bytes.length rest short
  have lists : Core.sha256 bytes = HashState.bytes
      (((asChunks 64 bytes).1 ++ chunks 64 ((if (asChunks 64 bytes).2.length < 56 then 64
        else 128) / 64) ((asChunks 64 bytes).2 ++ 0x80 :: List.replicate
        ((if (asChunks 64 bytes).2.length < 56 then 64 else 128) - 9 -
          (asChunks 64 bytes).2.length) 0 ++
        beBytes (UInt32.ofNat (bytes.length * 8 % 2 ^ 64 / 2 ^ 32)) ++
        beBytes (UInt32.ofNat (bytes.length * 8 % 2 ^ 64)))).foldl
        Core.compress initialHash) := rfl
  rw [tail, tailLen] at lists
  have blocks := blocks_padded bytes
  have whole : ∀ block ∈ chunks 64 ((padded bytes).length / 64) (padded bytes),
      block.length = 64 := by
    rw [chunks_range]
    intro block mem
    obtain ⟨i, inside, rfl⟩ := List.mem_map.1 mem
    have less := List.mem_range.1 inside
    rw [List.length_take, List.length_drop]
    omega
  calc Core.sha256 bytes
      = HashState.bytes (((asChunks 64 bytes).1 ++
          (asChunks 64 (paddedTail (asChunks 64 bytes).2 bytes.length)).1).foldl
            Core.compress initialHash) := lists
    _ = (((asChunks 64 bytes).1 ++
          (asChunks 64 (paddedTail (asChunks 64 bytes).2 bytes.length)).1).foldl
            compress h0).toList.flatMap beBytes := by
        rw [HashState.bytes, blocks, folded_words _ _ whole]
        rfl
    _ = sha256 bytes := by
        rw [List.foldl_append]
        rfl

end DeepDiffForge.Core.Sealing
