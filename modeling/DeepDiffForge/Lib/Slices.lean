import DeepDiffForge.Lib.Lossy

/-! Reading a text by byte positions, which fails past its end and inside a character. -/

namespace DeepDiffForge.Slices
open Text

/-- How a read past an end or inside a character would stop the program. -/
inductive Fault where
  | index | slice | underflow
  deriving DecidableEq, Repr

def isCharBoundary (bytes : List UInt8) (place : Nat) : Bool :=
  place = 0 || place = bytes.length || bytes[place]?.any (fun b => !Utf8.continues b)

/-- `text[at..]`. -/
def sliceFrom (text : Str) (place : Nat) : Except Fault Str :=
  if isCharBoundary (Utf8.encode text) place then
    .ok ((Utf8.decode ((Utf8.encode text).drop place)).getD [])
  else .error .slice

/-- `text[..at]`. -/
def sliceTo (text : Str) (place : Nat) : Except Fault Str :=
  if isCharBoundary (Utf8.encode text) place then
    .ok ((Utf8.decode ((Utf8.encode text).take place)).getD [])
  else .error .slice

def byteAt (bytes : List UInt8) (place : Nat) : Except Fault UInt8 :=
  match bytes[place]? with
  | some b => .ok b
  | none => .error .index

def bytesFrom (bytes : List UInt8) (place : Nat) : Except Fault (List UInt8) :=
  if place ≤ bytes.length then .ok (bytes.drop place) else .error .slice

/-- `bytes[from..to]`. -/
def bytesBetween (bytes : List UInt8) (low stop : Nat) : Except Fault (List UInt8) :=
  if low ≤ stop ∧ stop ≤ bytes.length then .ok ((bytes.take stop).drop low) else .error .slice

def lessBy (whole part : Nat) : Except Fault Nat :=
  if part ≤ whole then .ok (whole - part) else .error .underflow

section
variable (before after : List UInt8) (k : Nat)

theorem byteAt_append : byteAt (before ++ after) (before.length + k) = byteAt after k := by
  rw [byteAt, byteAt, List.getElem?_append_right (Nat.le_add_right ..), Nat.add_sub_cancel_left]

theorem bytesFrom_append : bytesFrom (before ++ after) (before.length + k) = bytesFrom after k := by
  unfold bytesFrom
  rw [List.length_append, List.drop_append, List.drop_eq_nil_of_le (Nat.le_add_right ..),
    List.nil_append, Nat.add_sub_cancel_left]
  simp only [Nat.add_le_add_iff_left]

theorem bytesBetween_append (k' : Nat) :
    bytesBetween (before ++ after) (before.length + k) (before.length + k') =
      bytesBetween after k k' := by
  unfold bytesBetween
  rw [List.length_append, List.take_append, List.take_of_length_le (Nat.le_add_right ..),
    List.drop_append, List.drop_eq_nil_of_le (Nat.le_add_right ..), List.nil_append,
    Nat.add_sub_cancel_left, Nat.add_sub_cancel_left]
  simp only [Nat.add_le_add_iff_left]

theorem bytesBetween_to (stop : Nat) (within : stop ≤ after.length) :
    bytesBetween after 0 stop = .ok (after.take stop) := by
  rw [bytesBetween, if_pos ⟨Nat.zero_le _, within⟩, List.drop_zero]

end

theorem encode_pos (text : Str) (filled : text ≠ []) : 0 < (Utf8.encode text).length := by
  cases text with
  | nil => exact absurd rfl filled
  | cons c rest =>
    obtain ⟨a, bytes, form, -⟩ := Utf8.next_encodeChar c []
    rw [Utf8.encode_cons, form]
    simp

theorem boundary_append (before after : Str) :
    isCharBoundary (Utf8.encode (before ++ after)) (Utf8.encode before).length = true := by
  rw [isCharBoundary, Utf8.encode_append]
  cases after with
  | nil => simp [Utf8.encode]
  | cons c rest =>
    obtain ⟨a, bytes, form, read⟩ := Utf8.next_encodeChar c (Utf8.encode rest)
    have outside : Utf8.continues a = false := by
      by_contra inside
      have absent := Utf8.next_continues a (bytes ++ Utf8.encode rest) (eq_true_of_ne_false inside)
      rw [read] at absent
      cases absent
    rw [Utf8.encode_cons, form, List.getElem?_append_right (Nat.le_refl _), Nat.sub_self,
      List.cons_append, List.getElem?_cons_zero, Option.any_some, outside]
    simp

theorem sliceFrom_append (before after : Str) :
    sliceFrom (before ++ after) (Utf8.encode before).length = .ok after := by
  rw [sliceFrom, if_pos (boundary_append before after), Utf8.encode_append, List.drop_left,
    Utf8.decode_encode, Option.getD_some]

theorem sliceTo_append (before after : Str) :
    sliceTo (before ++ after) (Utf8.encode before).length = .ok before := by
  rw [sliceTo, if_pos (boundary_append before after), Utf8.encode_append, List.take_left,
    Utf8.decode_encode, Option.getD_some]

/-- Every byte of a character but its first is inside it. -/
theorem tail_continues (c : Char) :
    ∀ b ∈ (String.utf8EncodeChar c).tail, Utf8.continues b = true := by
  unfold String.utf8EncodeChar
  generalize c.val.toNat = v
  dsimp only
  intro b listed
  split at listed
  · cases listed
  split at listed
  · obtain rfl := List.mem_singleton.1 listed
    simp [Utf8.continues]
    omega
  split at listed
  · simp only [List.tail_cons, List.mem_cons, List.not_mem_nil, or_false] at listed
    rcases listed with rfl | rfl <;> simp [Utf8.continues] <;> omega
  · simp only [List.tail_cons, List.mem_cons, List.not_mem_nil, or_false] at listed
    rcases listed with rfl | rfl | rfl <;> simp [Utf8.continues] <;> omega

/-- A boundary cuts the text between two characters. -/
theorem boundary_split (text : Str) (place : Nat) (within : place ≤ (Utf8.encode text).length)
    (boundary : isCharBoundary (Utf8.encode text) place = true) :
    ∃ before after, text = before ++ after ∧ (Utf8.encode before).length = place := by
  induction text generalizing place with
  | nil => exact ⟨[], [], rfl, (Nat.le_zero.1 within).symm⟩
  | cons c rest ih =>
    by_cases zero : place = 0
    · exact ⟨[], c :: rest, rfl, zero.symm⟩
    rw [Utf8.encode_cons, List.length_append] at within
    rw [Utf8.encode_cons] at boundary
    by_cases inside : place < (String.utf8EncodeChar c).length
    · have listed : (String.utf8EncodeChar c)[place] ∈ (String.utf8EncodeChar c).tail := by
        obtain ⟨i, rfl⟩ := Nat.exists_eq_succ_of_ne_zero zero
        rw [← List.getElem_tail (by rw [List.length_tail]; omega)]
        exact List.getElem_mem _
      have continued := tail_continues c _ listed
      simp only [isCharBoundary, Bool.or_eq_true, decide_eq_true_eq, List.length_append,
        List.getElem?_append_left inside, List.getElem?_eq_getElem inside, Option.any_some,
        continued] at boundary
      rcases boundary with (start | whole) | no
      · exact absurd start zero
      · have empty : (Utf8.encode rest).length = 0 := by omega
        omega
      · cases no
    · obtain ⟨before, after, rfl, length⟩ := ih (place - (String.utf8EncodeChar c).length)
        (by omega) (by
          simp only [isCharBoundary, Bool.or_eq_true, decide_eq_true_eq, List.length_append,
            List.getElem?_append_right (Nat.not_lt.1 inside)] at boundary ⊢
          rcases boundary with (start | whole) | read
          · exact absurd start zero
          · exact .inl (.inr (by omega))
          · exact .inr read)
      refine ⟨c :: before, after, rfl, ?_⟩
      rw [Utf8.encode_cons, List.length_append]
      omega

/-- A text whose bytes stand among another's stands among its characters. -/
theorem infix_of_bytes (text inner : Str) (before after : List UInt8) (filled : inner ≠ [])
    (bytes : Utf8.encode text = before ++ Utf8.encode inner ++ after) : inner <:+: text := by
  have outside : isCharBoundary (Utf8.encode text) before.length = true := by
    cases inner with
    | nil => exact absurd rfl filled
    | cons c inner =>
      obtain ⟨a, tail, form, read⟩ := Utf8.next_encodeChar c []
      have lead : Utf8.continues a = false := by
        by_contra inside
        have absent := Utf8.next_continues a (tail ++ []) (eq_true_of_ne_false inside)
        rw [read] at absent
        cases absent
      rw [isCharBoundary, bytes, Utf8.encode_cons, form, List.append_assoc,
        List.getElem?_append_right (Nat.le_refl _), Nat.sub_self, List.cons_append,
        List.cons_append, List.getElem?_cons_zero, Option.any_some, lead]
      simp
  obtain ⟨front, rest, rfl, length⟩ := boundary_split text before.length
    (by rw [bytes, List.append_assoc, List.length_append]; omega) outside
  rw [Utf8.encode_append, List.append_assoc] at bytes
  have tail := (List.append_inj bytes length).2
  have chars := Utf8.chunks_encode rest []
  rw [List.append_nil, tail, Utf8.chunks_encode, Utf8.chunks_nil, List.append_nil] at chars
  have start : inner.map some <+: rest.map some := ⟨_, chars⟩
  obtain ⟨more, same, whole⟩ := List.prefix_map_iff.1 start
  have inner' : inner = more := (List.map_inj_right fun _ _ => Option.some.inj).1 whole
  obtain ⟨later, rfl⟩ := inner' ▸ same
  exact ⟨front, later, List.append_assoc ..⟩

end DeepDiffForge.Slices
