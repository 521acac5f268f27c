import DeepDiffForge.Lib.Shapes
import DeepDiffForge.Lib.Slices
import DeepDiffForge.Patch.Headers

/-! The `diff -u` timestamp ends a header exactly when the cut finds it, and every index of the
backward scan is in range. -/

namespace DeepDiffForge.Patch
open Text Shapes Slices

/-! ### The timestamp -/

def isByte (wanted : UInt8) (b : UInt8) : Bool := b = wanted
def signByte (b : UInt8) : Bool := b = 43 || b = 45

/-- ` +HHMM`. -/
def saneShape : List (UInt8 → Bool) :=
  [isByte 32, signByte, digitByte, digitByte, digitByte, digitByte]

/-- ` +HH:MM`. -/
def colonShape : List (UInt8 → Bool) :=
  [isByte 32, signByte, digitByte, digitByte, isByte 58, digitByte, digitByte]

/-- ` HH:MM:SS`. -/
def clockShape : List (UInt8 → Bool) :=
  [isByte 32, digitByte, digitByte, isByte 58, digitByte, digitByte, isByte 58, digitByte,
    digitByte]

/-- `YY-MM-DD`. -/
def dateShape : List (UInt8 → Bool) :=
  [digitByte, digitByte, isByte 45, digitByte, digitByte, isByte 45, digitByte, digitByte]

/-- `YYYY-MM-DD`. -/
def centuryShape : List (UInt8 → Bool) := [digitByte, digitByte] ++ dateShape

def ZoneText (zone : List UInt8) : Prop :=
  zone = [] ∨ fits saneShape zone = true ∨ fits colonShape zone = true

inductive TimeText : List UInt8 → Prop
  | none : TimeText []
  | clock (clock : List UInt8) (good : fits clockShape clock = true) : TimeText clock
  | fraction (clock digits : List UInt8) (good : fits clockShape clock = true)
      (nonempty : digits ≠ []) (all : ∀ b ∈ digits, digitByte b = true) :
      TimeText (clock ++ 46 :: digits)

def DateText (date : List UInt8) : Prop :=
  fits dateShape date = true ∨ fits centuryShape date = true

/-- One tab, or all the spaces behind `before`. -/
def GapText (before gap : List UInt8) : Prop :=
  gap = [9] ∨ gap ≠ [] ∧ (∀ b ∈ gap, b = 32) ∧ before.getLast? ≠ some 32

/-- The last bytes of a line, behind `before`, are a timestamp with the gap before it. -/
inductive StampText (before : List UInt8) : List UInt8 → Prop
  | stamp (gap date time zone : List UInt8) (gapped : GapText before gap) (dated : DateText date)
      (timed : TimeText time) (zoned : ZoneText zone) :
      StampText before (gap ++ date ++ time ++ zone)

/-! ### The readers by shape -/

theorem lastBytes_fits (shape : List (UInt8 → Bool)) (s : List UInt8) (filled : shape ≠ []) :
    fits shape (lastBytes shape.length s) = endsIn shape s := by
  unfold lastBytes endsIn
  split_ifs with short
  · have low : fits shape [] = false := by
      cases shape with
      | nil => exact absurd rfl filled
      | cons => rfl
    rw [low, Nat.sub_eq_zero_of_le (Nat.le_of_lt short), List.drop_zero]
    symm
    rw [Bool.eq_false_iff]
    intro good
    have size := fits_length shape s good
    omega
  · rfl

theorem saneTz_eq (s : List UInt8) : saneTz s = if endsIn saneShape s then 6 else 0 := by
  rw [← lastBytes_fits saneShape s (List.cons_ne_nil _ _)]
  unfold saneTz
  change _ = if fits saneShape (lastBytes 6 s) then 6 else 0
  rcases lastBytes 6 s with
      _ | ⟨a, _ | ⟨b, _ | ⟨c, _ | ⟨d, _ | ⟨e, _ | ⟨f, _ | ⟨g, rest⟩⟩⟩⟩⟩⟩⟩ <;>
    simp [fits, saneShape, isByte, signByte, digitBytes, and_assoc]

theorem colonTz_eq (s : List UInt8) : colonTz s = if endsIn colonShape s then 7 else 0 := by
  rw [← lastBytes_fits colonShape s (List.cons_ne_nil _ _)]
  unfold colonTz
  change _ = if fits colonShape (lastBytes 7 s) then 7 else 0
  rcases lastBytes 7 s with
      _ | ⟨a, _ | ⟨b, _ | ⟨c, _ | ⟨d, _ | ⟨e, _ | ⟨f, _ | ⟨g, _ | ⟨h, rest⟩⟩⟩⟩⟩⟩⟩⟩ <;>
    simp [fits, colonShape, isByte, signByte, digitBytes, and_assoc]

theorem shortTime_eq (s : List UInt8) : shortTime s = if endsIn clockShape s then 9 else 0 := by
  rw [← lastBytes_fits clockShape s (List.cons_ne_nil _ _)]
  unfold shortTime
  change _ = if fits clockShape (lastBytes 9 s) then 9 else 0
  rcases lastBytes 9 s with
      _ | ⟨a, _ | ⟨b, _ | ⟨c, _ | ⟨d, _ | ⟨e, _ | ⟨f, _ | ⟨g, _ | ⟨h, _ | ⟨i, _ | ⟨j, rest⟩⟩⟩⟩⟩⟩⟩⟩⟩⟩ <;>
    simp [fits, clockShape, isByte, digitBytes, and_assoc]

theorem dateLen_eq (s : List UInt8) :
    dateLen s = if endsIn dateShape s then
      if 10 ≤ s.length ∧ digitBytes ((s.drop (s.length - 10)).take 2) then 10 else 8 else 0 := by
  rw [← lastBytes_fits dateShape s (List.cons_ne_nil _ _)]
  unfold dateLen
  change _ = if fits dateShape (lastBytes 8 s) then _ else 0
  rcases lastBytes 8 s with
      _ | ⟨a, _ | ⟨b, _ | ⟨c, _ | ⟨d, _ | ⟨e, _ | ⟨f, _ | ⟨g, _ | ⟨h, _ | ⟨i, rest⟩⟩⟩⟩⟩⟩⟩⟩⟩ <;>
    simp [fits, dateShape, isByte, digitBytes, and_assoc]

theorem endsIn_century (s : List UInt8) :
    endsIn centuryShape s = (endsIn dateShape s &&
      decide (10 ≤ s.length ∧ digitBytes ((s.drop (s.length - 10)).take 2))) := by
  rw [Bool.eq_iff_iff, Bool.and_eq_true, decide_eq_true_iff]
  constructor
  · intro ends
    obtain ⟨before, tail, rfl, good⟩ := (endsIn_iff _ _).1 ends
    rw [centuryShape, fits_append_iff] at good
    obtain ⟨century, date, rfl, first, second⟩ := good
    have two : century.length = 2 := fits_length _ _ first
    have eight : date.length = 8 := fits_length _ _ second
    rw [← List.append_assoc]
    refine ⟨endsIn_append _ _ _ second, ?_, ?_⟩
    · simp only [List.length_append]
      omega
    · have place : (before ++ century ++ date).length - 10 = before.length := by
        simp only [List.length_append]
        omega
      rw [place, List.append_assoc, List.drop_left, List.take_left' two]
      obtain ⟨a, b, rfl⟩ := List.length_eq_two.1 two
      simpa [fits, digitBytes] using first
  · intro good
    obtain ⟨dated, room, digits⟩ := good
    obtain ⟨before, date, rfl, second⟩ := (endsIn_iff _ _).1 dated
    have eight : date.length = 8 := fits_length _ _ second
    rw [List.length_append] at room digits
    have cut := List.take_append_drop (before.length - 2) before
    have two : (before.drop (before.length - 2)).length = 2 := by
      rw [List.length_drop]
      omega
    have place : before.length + date.length - 10 = before.length - 2 := by omega
    rw [place, List.drop_append_of_le_length (Nat.sub_le _ _), List.take_left' two] at digits
    rw [← cut, List.append_assoc]
    apply endsIn_append
    rw [centuryShape, fits_append _ _ _ _ two, second, Bool.and_true]
    obtain ⟨a, b, same⟩ := List.length_eq_two.1 two
    rw [same] at digits ⊢
    simpa [fits, digitBytes] using digits

theorem dateLen_shapes (s : List UInt8) :
    dateLen s = if endsIn centuryShape s then 10 else if endsIn dateShape s then 8 else 0 := by
  rw [dateLen_eq, endsIn_century]
  cases endsIn dateShape s <;> simp

/-! ### The parts the scan takes -/

def zoneLen (s : List UInt8) : Nat :=
  match saneTz s with
  | 0 => colonTz s
  | n => n

def timeLen (s : List UInt8) : Nat :=
  match shortTime s with
  | 0 => fractionalTime s
  | n => n

theorem zoneLen_eq (s : List UInt8) :
    zoneLen s = if endsIn saneShape s then 6 else if endsIn colonShape s then 7 else 0 := by
  unfold zoneLen
  rw [saneTz_eq, colonTz_eq]
  cases endsIn saneShape s <;> rfl

theorem timeLen_eq (s : List UInt8) :
    timeLen s = if endsIn clockShape s then 9 else fractionalTime s := by
  unfold timeLen
  rw [shortTime_eq]
  cases endsIn clockShape s <;> rfl

theorem zone_sound (s : List UInt8) :
    ∃ before zone, s = before ++ zone ∧ zone.length = zoneLen s ∧ ZoneText zone := by
  rw [zoneLen_eq]
  split_ifs with sane colon
  · obtain ⟨before, zone, same, good⟩ := (endsIn_iff _ _).1 sane
    exact ⟨before, zone, same, fits_length _ _ good, .inr (.inl good)⟩
  · obtain ⟨before, zone, same, good⟩ := (endsIn_iff _ _).1 colon
    exact ⟨before, zone, same, fits_length _ _ good, .inr (.inr good)⟩
  · exact ⟨s, [], (List.append_nil s).symm, rfl, .inl rfl⟩

theorem date_sound (s : List UInt8) :
    ∃ before date, s = before ++ date ∧ date.length = dateLen s ∧ (date ≠ [] → DateText date) := by
  rw [dateLen_shapes]
  split_ifs with century short
  · obtain ⟨before, date, same, good⟩ := (endsIn_iff _ _).1 century
    exact ⟨before, date, same, fits_length _ _ good, fun _ => .inr good⟩
  · obtain ⟨before, date, same, good⟩ := (endsIn_iff _ _).1 short
    exact ⟨before, date, same, fits_length _ _ good, fun _ => .inl good⟩
  · exact ⟨s, [], (List.append_nil s).symm, rfl, fun filled => absurd rfl filled⟩

theorem fraction_sound (s : List UInt8) (found : fractionalTime s ≠ 0) :
    ∃ before clock digits, s = before ++ (clock ++ 46 :: digits) ∧
      (clock ++ 46 :: digits).length = fractionalTime s ∧ fits clockShape clock = true ∧
      digits ≠ [] ∧ ∀ b ∈ digits, digitByte b = true := by
  obtain ⟨front, digits, same, size, all, -⟩ := lastRun_split digitByte s
  have whole : s.length - trailing digitByte s = front.length := by
    change s.length - lastRun digitByte s = front.length
    rw [← size, same, List.length_append, Nat.add_sub_cancel]
  simp only [fractionalTime, whole] at found ⊢
  split_ifs at found with skipped
  · exact absurd rfl found
  rw [if_neg skipped]
  simp only [not_or, not_not] at skipped
  obtain ⟨present, nonempty, dot⟩ := skipped
  obtain empty | ⟨init, b, last⟩ := List.eq_nil_or_concat front
  · rw [empty] at nonempty
    exact absurd rfl nonempty
  rw [List.concat_eq_append] at last
  have place : front.length - 1 = init.length := by
    rw [last, List.length_append]
    rfl
  have byte : b = 46 := by
    rw [place, same, last, List.append_assoc, List.getElem?_append_right (Nat.le_refl _),
      Nat.sub_self] at dot
    exact Option.some.inj dot
  have cut : s.take (front.length - 1) = init := by
    rw [place, same, last, List.append_assoc, List.take_left]
  rw [cut, shortTime_eq] at found ⊢
  split_ifs at found ⊢ with ends
  · obtain ⟨before, clock, split, good⟩ := (endsIn_iff _ _).1 ends
    have whole' : s = before ++ (clock ++ 46 :: digits) := by
      rw [same, last, split, byte]
      simp only [List.append_assoc, List.singleton_append]
    refine ⟨before, clock, digits, whole', ?_, good, ?_, all⟩
    · have nine : clock.length = 9 := fits_length _ _ good
      have sizes := congrArg List.length whole'
      have inits := congrArg List.length split
      simp only [List.length_append, List.length_cons] at sizes inits ⊢
      omega
    · intro empty
      rw [empty, List.append_nil] at same
      rw [same] at present
      exact present rfl
  · exact absurd rfl found

theorem time_sound (s : List UInt8) :
    ∃ before time, s = before ++ time ∧ time.length = timeLen s ∧ TimeText time := by
  rw [timeLen_eq]
  split_ifs with clock
  · obtain ⟨before, time, same, good⟩ := (endsIn_iff _ _).1 clock
    exact ⟨before, time, same, fits_length _ _ good, .clock time good⟩
  · by_cases found : fractionalTime s = 0
    · exact ⟨s, [], (List.append_nil s).symm, found.symm, .none⟩
    · obtain ⟨before, clock, digits, same, size, good, nonempty, all⟩ := fraction_sound s found
      exact ⟨before, _, same, size, .fraction clock digits good nonempty all⟩

/-! ### No other cut -/

def RunBehind (b : UInt8) (s : List UInt8) : Prop :=
  ∃ before run, s = before ++ b :: run ∧ run ≠ [] ∧ ∀ x ∈ run, digitByte x = true

theorem run_behind_append (b : UInt8) (before s : List UInt8) (behind : RunBehind b s) :
    RunBehind b (before ++ s) := by
  obtain ⟨front, run, rfl, rest⟩ := behind
  exact ⟨before ++ front, run, (List.append_assoc ..).symm, rest⟩

theorem run_behind_unique (b b' : UInt8) (s : List UInt8) (one : RunBehind b s)
    (two : RunBehind b' s) (stop : digitByte b = false) (stop' : digitByte b' = false) :
    b = b' := by
  obtain ⟨before, run, same, -, all⟩ := one
  obtain ⟨before', run', same', -, all'⟩ := two
  exact lastRun_unique digitByte before before' run run' b b' all all' stop stop'
    (same.symm.trans same')

theorem run_behind_last (b : UInt8) (s : List UInt8) (behind : RunBehind b s) :
    s.getLast?.any digitByte = true := by
  obtain ⟨before, run, rfl, nonempty, all⟩ := behind
  rw [List.getLast?_append_of_ne_nil _ (List.cons_ne_nil _ _), List.getLast?_cons,
    List.getLast?_eq_some_getLast nonempty]
  exact all _ (List.getLast_mem nonempty)

theorem run_behind_shape (shape : List (UInt8 → Bool)) (test : UInt8 → Bool) (count : Nat)
    (s : List UInt8)
    (good : fits (shape ++ test :: List.replicate (count + 1) digitByte) s = true) :
    ∃ b, test b = true ∧ RunBehind b s := by
  obtain ⟨before, tail, rfl, -, good⟩ := (fits_append_iff _ _ _).1 good
  cases tail with
  | nil => cases good
  | cons b run =>
    rw [fits, Bool.and_eq_true] at good
    refine ⟨b, good.1, before, run, rfl, ?_, ?_⟩
    · intro empty
      rw [empty] at good
      cases good.2
    · intro x listed
      obtain ⟨test, listed, passes⟩ := fits_mem _ _ good.2 x listed
      rw [List.eq_of_mem_replicate listed] at passes
      exact passes

theorem run_behind_byte (shape : List (UInt8 → Bool)) (b : UInt8) (count : Nat) (s : List UInt8)
    (good : fits (shape ++ isByte b :: List.replicate (count + 1) digitByte) s = true) :
    RunBehind b s := by
  obtain ⟨b', same, behind⟩ := run_behind_shape shape (isByte b) count s good
  rw [isByte, decide_eq_true_iff] at same
  exact same ▸ behind

theorem run_behind_clock (clock : List UInt8) (good : fits clockShape clock = true) :
    RunBehind 58 clock :=
  run_behind_byte (clockShape.take 6) 58 1 clock good

theorem run_behind_date (date : List UInt8) (dated : DateText date) : RunBehind 45 date := by
  rcases dated with good | good
  · exact run_behind_byte (dateShape.take 5) 45 1 date good
  · exact run_behind_byte (centuryShape.take 7) 45 1 date good

theorem run_behind_sane (zone : List UInt8) (good : fits saneShape zone = true) :
    ∃ b, signByte b = true ∧ RunBehind b zone :=
  run_behind_shape (saneShape.take 1) signByte 3 zone good

theorem run_behind_colon (zone : List UInt8) (good : fits colonShape zone = true) :
    RunBehind 58 zone :=
  run_behind_byte (colonShape.take 4) 58 1 zone good

/-- Neither a space nor a sign is in both a date and a clock. -/
theorem date_no_space (date : List UInt8) (dated : DateText date) : ∀ b ∈ date, b ≠ 32 := by
  have classes (shape : List (UInt8 → Bool)) (good : fits shape date = true)
      (known : ∀ test ∈ shape, test = digitByte ∨ test = isByte 45) : ∀ b ∈ date, b ≠ 32 := by
    intro b listed space
    obtain ⟨test, member, passes⟩ := fits_mem shape date good b listed
    rw [space] at passes
    rcases known test member with rfl | rfl <;> exact absurd passes (by decide)
  rcases dated with good | good
  · exact classes dateShape good (by simp [dateShape])
  · exact classes centuryShape good (by simp [centuryShape, dateShape])

theorem clock_no_sign (clock : List UInt8) (good : fits clockShape clock = true) :
    ∀ b ∈ clock, signByte b = false := by
  intro b listed
  obtain ⟨test, member, passes⟩ := fits_mem clockShape clock good b listed
  have known : test = digitByte ∨ test = isByte 32 ∨ test = isByte 58 := by
    simp only [clockShape, List.mem_cons, List.not_mem_nil, or_false] at member
    tauto
  rw [Bool.eq_false_iff]
  intro sign
  simp only [signByte, Bool.or_eq_true, decide_eq_true_iff] at sign
  rcases sign with rfl | rfl <;> rcases known with rfl | rfl | rfl <;>
    exact absurd passes (by decide)

theorem time_no_sign (time : List UInt8) (timed : TimeText time) :
    ∀ b ∈ time, signByte b = false := by
  cases timed with
  | none => exact fun _ listed => absurd listed List.not_mem_nil
  | clock clock good => exact clock_no_sign time good
  | fraction clock digits good nonempty all =>
    intro b listed
    rw [List.mem_append, List.mem_cons] at listed
    rcases listed with early | rfl | late
    · exact clock_no_sign clock good b early
    · decide
    · have digit := all b late
      rw [Bool.eq_false_iff]
      intro sign
      simp only [signByte, Bool.or_eq_true, decide_eq_true_iff] at sign
      rcases sign with rfl | rfl <;> exact absurd digit (by decide)

theorem date_length (date : List UInt8) (dated : DateText date) : 8 ≤ date.length := by
  rcases dated with good | good
  · exact (fits_length _ _ good).ge
  · exact Nat.le_trans (by decide) (fits_length _ _ good).ge

theorem time_length (time : List UInt8) (timed : TimeText time) :
    time = [] ∨ 9 ≤ time.length := by
  cases timed with
  | none => exact .inl rfl
  | clock clock good => exact .inr (fits_length _ _ good).ge
  | fraction clock digits good nonempty all =>
    right
    have nine : clock.length = 9 := fits_length _ _ good
    rw [List.length_append]
    omega

theorem undated_zone (before date time : List UInt8) (dated : DateText date)
    (timed : TimeText time) (shape : List (UInt8 → Bool)) (room : shape.length ≤ 8)
    (space : isByte 32 ∈ shape) (sign : signByte ∈ shape) :
    endsIn shape (before ++ date ++ time) = false := by
  rw [Bool.eq_false_iff]
  intro ends
  have long := date_length date dated
  rcases time_length time timed with rfl | room'
  · rw [List.append_nil] at ends
    obtain ⟨skipped, last, same, good⟩ := endsIn_inside shape before date (by omega) ends
    obtain ⟨b, listed, found⟩ := fits_test shape last good _ space
    apply date_no_space date dated b (same ▸ List.mem_append_right _ listed)
    exact of_decide_eq_true found
  · obtain ⟨skipped, last, same, good⟩ := endsIn_inside shape (before ++ date) time (by omega) ends
    obtain ⟨b, listed, found⟩ := fits_test shape last good _ sign
    have absent := time_no_sign time timed b (same ▸ List.mem_append_right _ listed)
    rw [found] at absent
    cases absent

theorem zone_complete (before date time zone : List UInt8) (dated : DateText date)
    (timed : TimeText time) (zoned : ZoneText zone) :
    zoneLen (before ++ date ++ time ++ zone) = zone.length := by
  rw [zoneLen_eq]
  rcases zoned with rfl | good | good
  · rw [List.append_nil]
    have sane := undated_zone before date time dated timed saneShape (by decide)
      (List.mem_cons_self ..) (List.mem_cons_of_mem _ (List.mem_cons_self ..))
    have colon := undated_zone before date time dated timed colonShape (by decide)
      (List.mem_cons_self ..) (List.mem_cons_of_mem _ (List.mem_cons_self ..))
    rw [sane, colon]
    rfl
  · rw [endsIn_append saneShape _ _ good, if_pos rfl, fits_length _ _ good]
    rfl
  · have sane : endsIn saneShape (before ++ date ++ time ++ zone) = false := by
      rw [Bool.eq_false_iff]
      intro ends
      obtain ⟨front, tail, same, good'⟩ := (endsIn_iff _ _).1 ends
      obtain ⟨b, sign, behind⟩ := run_behind_sane tail good'
      have colon := run_behind_append 58 (before ++ date ++ time) zone (run_behind_colon zone good)
      rw [same] at colon
      have plain : digitByte b = false := by
        simp only [signByte, Bool.or_eq_true, decide_eq_true_iff] at sign
        rcases sign with rfl | rfl <;> decide
      have equal := run_behind_unique 58 b _ colon (run_behind_append b front tail behind)
        (by decide) plain
      rw [← equal] at sign
      exact absurd sign (by decide)
    rw [sane, endsIn_append colonShape _ _ good]
    exact (fits_length _ _ good).symm

theorem run_behind_fraction (clock digits : List UInt8) (nonempty : digits ≠ [])
    (all : ∀ b ∈ digits, digitByte b = true) : RunBehind 46 (clock ++ 46 :: digits) :=
  ⟨clock, digits, rfl, nonempty, all⟩

theorem no_clock (b : UInt8) (s : List UInt8) (behind : RunBehind b s)
    (stop : digitByte b = false) (apart : b ≠ 58) : endsIn clockShape s = false := by
  rw [Bool.eq_false_iff]
  intro ends
  obtain ⟨front, tail, rfl, good⟩ := (endsIn_iff _ _).1 ends
  exact apart (run_behind_unique b 58 _ behind
    (run_behind_append 58 front tail (run_behind_clock tail good)) stop (by decide))

theorem fraction_complete (before clock digits : List UInt8) (good : fits clockShape clock = true)
    (nonempty : digits ≠ []) (all : ∀ b ∈ digits, digitByte b = true) :
    fractionalTime (before ++ (clock ++ 46 :: digits)) = (clock ++ 46 :: digits).length := by
  have nine : clock.length = 9 := fits_length _ _ good
  have filled : 0 < digits.length := List.length_pos_of_ne_nil nonempty
  have split : before ++ (clock ++ 46 :: digits) = (before ++ clock ++ [46]) ++ digits := by
    simp only [List.append_assoc, List.singleton_append]
  have run : trailing digitByte (before ++ (clock ++ 46 :: digits)) = digits.length := by
    rw [split]
    refine lastRun_run digitByte _ digits all fun b last => ?_
    rw [List.getLast?_concat] at last
    obtain rfl := Option.some.inj last
    rfl
  have whole : (before ++ (clock ++ 46 :: digits)).length - digits.length =
      (before ++ clock).length + 1 := by
    simp only [List.length_append, List.length_cons]
    omega
  have dot : (before ++ (clock ++ 46 :: digits))[(before ++ clock).length]? = some 46 := by
    rw [← List.append_assoc, List.getElem?_append_right (Nat.le_refl _), Nat.sub_self]
    rfl
  have cut : (before ++ (clock ++ 46 :: digits)).take (before ++ clock).length =
      before ++ clock := by
    rw [← List.append_assoc, List.take_left]
  have kept : ¬ ((before ++ clock).length + 1 = (before ++ (clock ++ 46 :: digits)).length ∨
      (before ++ clock).length + 1 = 0 ∨ some (46 : UInt8) ≠ some 46) := by
    simp only [List.length_append, List.length_cons, ne_eq, not_true_eq_false, or_false]
    omega
  simp only [fractionalTime, run, whole, Nat.add_sub_cancel, dot, cut, shortTime_eq,
    endsIn_append clockShape before clock good, if_neg kept, if_true]
  simp only [List.length_append, List.length_cons]
  omega

theorem time_complete (before date time : List UInt8) (dated : DateText date)
    (timed : TimeText time) : timeLen (before ++ date ++ time) = time.length := by
  rw [timeLen_eq]
  cases timed with
  | none =>
    have behind := run_behind_append 45 before date (run_behind_date date dated)
    rw [List.append_nil, no_clock 45 _ behind (by decide) (by decide)]
    by_contra found
    obtain ⟨front, clock, digits, same, -, -, nonempty, all⟩ := fraction_sound _ found
    have dot := run_behind_append 46 front _ (run_behind_fraction clock digits nonempty all)
    rw [← same] at dot
    exact absurd (run_behind_unique 45 46 _ behind dot (by decide) (by decide)) (by decide)
  | clock clock good =>
    rw [endsIn_append clockShape _ _ good, if_pos rfl]
    exact (fits_length _ _ good).symm
  | fraction clock digits good nonempty all =>
    have dot := run_behind_append 46 (before ++ date) _
      (run_behind_fraction clock digits nonempty all)
    rw [no_clock 46 _ dot (by decide) (by decide)]
    exact fraction_complete (before ++ date) clock digits good nonempty all

theorem gap_last (before gap : List UInt8) (gapped : GapText before gap) :
    (before ++ gap).getLast? = some 9 ∨ (before ++ gap).getLast? = some 32 := by
  rcases gapped with rfl | ⟨filled, spaces, -⟩
  · exact .inl List.getLast?_concat
  · right
    rw [List.getLast?_append_of_ne_nil _ filled, List.getLast?_eq_some_getLast filled,
      spaces _ (List.getLast_mem filled)]

theorem date_complete (before gap date : List UInt8) (gapped : GapText before gap)
    (dated : DateText date) : dateLen (before ++ gap ++ date) = date.length := by
  rw [dateLen_shapes]
  rcases dated with good | good
  · have short : endsIn centuryShape (before ++ gap ++ date) = false := by
      rw [Bool.eq_false_iff]
      intro ends
      obtain ⟨front, tail, same, century⟩ := (endsIn_iff _ _).1 ends
      rw [centuryShape, fits_append_iff] at century
      obtain ⟨years, date', rfl, two, eight⟩ := century
      rw [← List.append_assoc] at same
      have sizes : date.length = date'.length :=
        (fits_length _ _ good).trans (fits_length _ _ eight).symm
      have fronts := (List.append_inj' same sizes).1
      obtain ⟨a, b, rfl⟩ := List.length_eq_two.1 (fits_length _ _ two)
      have last := gap_last before gap gapped
      rw [fronts, List.getLast?_append_of_ne_nil _ (List.cons_ne_nil _ _)] at last
      simp only [fits, Bool.and_true, Bool.and_eq_true] at two
      rcases last with tab | space
      · cases tab
        exact absurd two.2 (by decide)
      · cases space
        exact absurd two.2 (by decide)
    rw [short, endsIn_append dateShape _ _ good]
    exact (fits_length _ _ good).symm
  · rw [endsIn_append centuryShape _ _ good, if_pos rfl]
    exact (fits_length _ _ good).symm

/-! ### The whole timestamp -/

def stampFrom (line : List UInt8) (stop : Nat) : Nat :=
  match (line.take stop).getLast? with
  | some 9 => line.length - (stop - 1)
  | some 32 => line.length - (stop - trailing (· = 32) (line.take stop))
  | _ => 0

theorem timestampLen_eq (line : List UInt8) (ends : line.getLast?.any digitByte = true) :
    timestampLen line =
      let undated := line.length - zoneLen line
      let untimed := undated - timeLen (line.take undated)
      let date := dateLen (line.take untimed)
      if date = 0 then 0 else stampFrom line (untimed - date) := by
  have scanned : timestampLen line =
      let undated := line.length - zoneLen line
      let untimed := undated - timeLen (line.take undated)
      match dateLen (line.take untimed) with
      | 0 => 0
      | n => stampFrom line (untimed - n) := by
    unfold timestampLen
    rw [ends]
    rfl
  rw [scanned]
  dsimp only
  split
  · rename_i absent
    rw [if_pos absent]
  · rename_i present
    rw [if_neg present]

theorem timestampLen_parts (before date time zone line : List UInt8)
    (whole : line = before ++ date ++ time ++ zone)
    (ends : line.getLast?.any digitByte = true) (zoneSize : zoneLen line = zone.length)
    (timeSize : timeLen (before ++ date ++ time) = time.length)
    (dateSize : dateLen (before ++ date) = date.length) :
    timestampLen line = if date.length = 0 then 0 else stampFrom line before.length := by
  have undated : line.length - zone.length = (before ++ date ++ time).length := by
    rw [whole, List.length_append, Nat.add_sub_cancel]
  have untimed : (before ++ date ++ time).length - time.length = (before ++ date).length := by
    rw [List.length_append, Nat.add_sub_cancel]
  have stop : (before ++ date).length - date.length = before.length := by
    rw [List.length_append, Nat.add_sub_cancel]
  have cutZone : line.take (before ++ date ++ time).length = before ++ date ++ time := by
    rw [whole, List.take_left]
  have cutTime : line.take (before ++ date).length = before ++ date := by
    rw [whole, List.append_assoc, List.take_left]
  rw [timestampLen_eq line ends]
  dsimp only
  rw [zoneSize, undated, cutZone, timeSize, untimed, cutTime, dateSize, stop]

/-- What is cut off is a timestamp. -/
theorem timestamp_sound (line : List UInt8) (found : timestampLen line ≠ 0) :
    ∃ before tail, line = before ++ tail ∧ tail.length = timestampLen line ∧
      StampText before tail := by
  have ends : line.getLast?.any digitByte = true := by
    by_contra other
    apply found
    unfold timestampLen
    rw [Bool.not_eq_true] at other
    rw [other]
    rfl
  obtain ⟨undated, zone, whole, zoneSize, zoned⟩ := zone_sound line
  obtain ⟨untimed, time, undatedSame, timeSize, timed⟩ := time_sound undated
  obtain ⟨front, date, untimedSame, dateSize, dated⟩ := date_sound untimed
  rw [untimedSame] at undatedSame
  have parts : line = front ++ date ++ time ++ zone := by rw [whole, undatedSame]
  have scanned := timestampLen_parts front date time zone line parts ends zoneSize.symm
    (by rw [← undatedSame, timeSize]) (by rw [← untimedSame, dateSize])
  split_ifs at scanned with empty
  · exact absurd scanned found
  have dated' := dated (List.length_pos_iff.1 (Nat.pos_of_ne_zero empty))
  have cut : line.take front.length = front := by
    rw [parts, List.append_assoc, List.append_assoc, List.take_left]
  unfold stampFrom at scanned
  rw [cut] at scanned
  split at scanned
  · rename_i tab
    obtain ⟨before, rfl⟩ := List.getLast?_eq_some_iff.1 tab
    refine ⟨before, [9] ++ date ++ time ++ zone, ?_, ?_, .stamp [9] date time zone (.inl rfl)
      dated' timed zoned⟩
    · rw [parts]
      simp only [List.append_assoc]
    · rw [scanned, parts]
      simp only [List.length_append, List.length_singleton]
      omega
  · rename_i space
    obtain ⟨before, gap, same, size, spaces, stops⟩ := lastRun_split (fun b => decide (b = 32)) front
    have filled : gap ≠ [] := by
      intro absent
      rw [absent, List.append_nil] at same
      have stop := stops 32 (by rw [← same]; exact space)
      exact absurd stop (by decide)
    have gapped : GapText before gap := by
      refine .inr ⟨filled, fun b listed => of_decide_eq_true (spaces b listed), ?_⟩
      intro last
      exact absurd (stops 32 last) (by decide)
    refine ⟨before, gap ++ date ++ time ++ zone, ?_, ?_, .stamp gap date time zone gapped
      dated' timed zoned⟩
    · rw [parts, same]
      simp only [List.append_assoc]
    · have run : trailing (· = 32) front = gap.length := size.symm
      rw [scanned, run, parts, same]
      simp only [List.length_append]
      omega
  · exact absurd scanned found

theorem stamp_ends (before date time zone : List UInt8) (dated : DateText date)
    (timed : TimeText time) (zoned : ZoneText zone) :
    (before ++ date ++ time ++ zone).getLast?.any digitByte = true := by
  rcases zoned with rfl | good | good
  · rw [List.append_nil]
    cases timed with
    | none =>
      rw [List.append_nil]
      exact run_behind_last 45 _ (run_behind_append 45 before date (run_behind_date date dated))
    | clock clock good =>
      exact run_behind_last 58 _ (run_behind_append 58 _ time (run_behind_clock time good))
    | fraction clock digits good nonempty all =>
      exact run_behind_last 46 _ (run_behind_append 46 _ _
        (run_behind_fraction clock digits nonempty all))
  · obtain ⟨b, -, behind⟩ := run_behind_sane zone good
    exact run_behind_last b _ (run_behind_append b _ zone behind)
  · exact run_behind_last 58 _ (run_behind_append 58 _ zone (run_behind_colon zone good))

/-- A timestamp at the end of a line is cut off whole. -/
theorem timestamp_complete (before tail : List UInt8) (stamped : StampText before tail) :
    timestampLen (before ++ tail) = tail.length := by
  obtain ⟨gap, date, time, zone, gapped, dated, timed, zoned⟩ := stamped
  have parts : before ++ (gap ++ date ++ time ++ zone) =
      (before ++ gap) ++ date ++ time ++ zone := by
    simp only [List.append_assoc]
  have cut : ((before ++ gap) ++ date ++ time ++ zone).take (before ++ gap).length =
      before ++ gap := by
    rw [List.append_assoc, List.append_assoc, List.take_left]
  have filled : date.length ≠ 0 := by
    have long := date_length date dated
    omega
  rw [parts, timestampLen_parts (before ++ gap) date time zone _ rfl
    (stamp_ends (before ++ gap) date time zone dated timed zoned)
    (zone_complete (before ++ gap) date time zone dated timed zoned)
    (time_complete (before ++ gap) date time dated timed)
    (date_complete before gap date gapped dated), if_neg filled, stampFrom, cut]
  rcases gapped with rfl | ⟨present, spaces, stops⟩
  · rw [List.getLast?_concat]
    simp only [List.length_append, List.length_singleton]
    omega
  · have last : (before ++ gap).getLast? = some 32 := by
      rw [List.getLast?_append_of_ne_nil _ present, List.getLast?_eq_some_getLast present,
        spaces _ (List.getLast_mem present)]
    have run : trailing (· = 32) (before ++ gap) = gap.length :=
      lastRun_run _ before gap (fun b listed => decide_eq_true (spaces b listed))
        (fun b head => decide_eq_false fun space => stops (space ▸ head))
    rw [last]
    simp only [run, List.length_append]
    omega

theorem timestamp_iff (line : List UInt8) (n : Nat) :
    (0 < n ∧ timestampLen line = n) ↔
      ∃ before tail, line = before ++ tail ∧ tail.length = n ∧ StampText before tail := by
  constructor
  · intro found
    obtain ⟨positive, rfl⟩ := found
    exact timestamp_sound line (Nat.ne_of_gt positive)
  · intro stamped
    obtain ⟨before, tail, rfl, rfl, stamped⟩ := stamped
    refine ⟨?_, timestamp_complete before tail stamped⟩
    obtain ⟨gap, date, time, zone, -, dated, -, -⟩ := stamped
    have long := date_length date dated
    simp only [List.length_append]
    omega

/-! ### Every index is in range -/

/-- `checked_sub`. -/
def checkedSub (whole part : Nat) : Option Nat := if part ≤ whole then some (whole - part) else none

/-- `&&` of reads: one is made when those before it held. -/
def allHold : List (Except Fault Bool) → Except Fault Bool
  | [] => .ok true
  | test :: tests => test.bind fun holds => if holds then allHold tests else .ok false

/-! The scan with each subtraction and each index as the machine makes it. -/
namespace Ranged

def saneTz (s : List UInt8) : Except Fault Nat :=
  match checkedSub s.length 6 with
  | none => .ok 0
  | some tz =>
      (allHold [(byteAt s tz).map (isByte 32), (byteAt s (tz + 1)).map signByte,
        (bytesFrom s (tz + 2)).map digitBytes]).map fun holds => if holds then 6 else 0

def colonTz (s : List UInt8) : Except Fault Nat :=
  match checkedSub s.length 7 with
  | none => .ok 0
  | some tz =>
      (allHold [(byteAt s tz).map (isByte 32), (byteAt s (tz + 1)).map signByte,
        (bytesBetween s (tz + 2) (tz + 4)).map digitBytes, (byteAt s (tz + 4)).map (isByte 58),
        (bytesFrom s (tz + 5)).map digitBytes]).map fun holds => if holds then 7 else 0

def shortTime (s : List UInt8) : Except Fault Nat :=
  match checkedSub s.length 9 with
  | none => .ok 0
  | some start =>
      (bytesFrom s start).bind fun t =>
        (allHold [(byteAt t 0).map (isByte 32), (bytesBetween t 1 3).map digitBytes,
          (byteAt t 3).map (isByte 58), (bytesBetween t 4 6).map digitBytes,
          (byteAt t 6).map (isByte 58), (bytesFrom t 7).map digitBytes]).map
            fun holds => if holds then 9 else 0

def fractionalTime (s : List UInt8) : Except Fault Nat := do
  let whole ← lessBy s.length (trailing digitByte s)
  if whole = s.length ∨ whole = 0 then return 0
  let dot ← lessBy whole 1
  if (← byteAt s dot) ≠ 46 then return 0
  let clock ← shortTime (← bytesBetween s 0 dot)
  if clock = 0 then return 0
  let fraction ← lessBy s.length dot
  return fraction + clock

def dateLen (s : List UInt8) : Except Fault Nat :=
  match checkedSub s.length 8 with
  | none => .ok 0
  | some start =>
      (bytesFrom s start).bind fun d =>
        (allHold [(bytesBetween d 0 2).map digitBytes, (byteAt d 2).map (isByte 45),
          (bytesBetween d 3 5).map digitBytes, (byteAt d 5).map (isByte 45),
          (bytesFrom d 6).map digitBytes]).bind fun holds =>
            if !holds then .ok 0
            else if start < 2 then .ok 8
            else
              (lessBy start 2).bind fun years =>
                (bytesBetween s years start).map fun two => if digitBytes two then 10 else 8

def zoneLen (s : List UInt8) : Except Fault Nat :=
  (saneTz s).bind fun sane => if sane = 0 then colonTz s else .ok sane

def timeLen (s : List UInt8) : Except Fault Nat :=
  (shortTime s).bind fun short => if short = 0 then fractionalTime s else .ok short

def stampFrom (line : List UInt8) (stop : Nat) : Except Fault Nat := do
  match checkedSub stop 1 with
  | none => return 0
  | some last =>
      let b ← byteAt line last
      if b = 9 then
        let start ← lessBy stop 1
        lessBy line.length start
      else if b = 32 then
        let front ← bytesBetween line 0 stop
        let start ← lessBy stop (trailing (· = 32) front)
        lessBy line.length start
      else return 0

def timestampLen (line : List UInt8) : Except Fault Nat := do
  if !(line.getLast?.any digitByte) then return 0
  let zone ← zoneLen line
  let undated ← lessBy line.length zone
  let time ← timeLen (← bytesBetween line 0 undated)
  let untimed ← lessBy undated time
  let date ← dateLen (← bytesBetween line 0 untimed)
  if date = 0 then return 0
  let stop ← lessBy untimed date
  stampFrom line stop

end Ranged

theorem tail_split (s : List UInt8) (n : Nat) (room : n ≤ s.length) :
    ∃ before tail, s = before ++ tail ∧ tail.length = n ∧ checkedSub s.length n = some before.length := by
  refine ⟨s.take (s.length - n), s.drop (s.length - n), (List.take_append_drop ..).symm, ?_, ?_⟩
  · rw [List.length_drop]
    omega
  · rw [checkedSub, if_pos room, List.length_take, Nat.min_eq_left (Nat.sub_le ..)]

theorem short_lastBytes (s : List UInt8) (n : Nat) (short : ¬ n ≤ s.length) :
    lastBytes n s = [] := if_pos (Nat.lt_of_not_le short)

theorem lastBytes_append (before tail : List UInt8) (n : Nat) (size : tail.length = n) :
    lastBytes n (before ++ tail) = tail := by
  rw [lastBytes, if_neg (by rw [List.length_append]; omega), List.length_append, size,
    Nat.add_sub_cancel, List.drop_left]

theorem allHold_ok (tests : List Bool) :
    allHold (tests.map Except.ok) = .ok (tests.all id) := by
  induction tests with
  | nil => rfl
  | cons test tests ih =>
    rw [List.map_cons, allHold]
    change (if test then _ else _) = _
    cases test with
    | false => rfl
    | true =>
      rw [if_pos rfl, ih]
      rfl

theorem ranged_saneTz (s : List UInt8) : Ranged.saneTz s = .ok (saneTz s) := by
  unfold Ranged.saneTz
  by_cases room : 6 ≤ s.length
  · obtain ⟨before, tail, rfl, size, start⟩ := tail_split s 6 room
    have first := Slices.byteAt_append before tail 0
    rw [Nat.add_zero] at first
    rw [saneTz, start, lastBytes_append before tail 6 size]
    dsimp only
    rw [first, Slices.byteAt_append, bytesFrom_append]
    obtain ⟨a, b, c, d, e, f, rfl⟩ : ∃ a b c d e f, tail = [a, b, c, d, e, f] := by
      rcases tail with
        _ | ⟨a, _ | ⟨b, _ | ⟨c, _ | ⟨d, _ | ⟨e, _ | ⟨f, _ | ⟨g, rest⟩⟩⟩⟩⟩⟩⟩ <;> simp at size ⊢
    have held := allHold_ok [isByte 32 a, signByte b, digitBytes [c, d, e, f]]
    change Except.map _ (allHold (List.map Except.ok
      [isByte 32 a, signByte b, digitBytes [c, d, e, f]])) = _
    rw [held]
    simp [Except.map, isByte, signByte, and_assoc]
  · rw [saneTz, short_lastBytes s 6 room, checkedSub, if_neg room]

theorem ranged_colonTz (s : List UInt8) : Ranged.colonTz s = .ok (colonTz s) := by
  unfold Ranged.colonTz
  by_cases room : 7 ≤ s.length
  · obtain ⟨before, tail, rfl, size, start⟩ := tail_split s 7 room
    have first := Slices.byteAt_append before tail 0
    rw [Nat.add_zero] at first
    rw [colonTz, start, lastBytes_append before tail 7 size]
    dsimp only
    rw [first, Slices.byteAt_append, bytesBetween_append, Slices.byteAt_append, bytesFrom_append]
    obtain ⟨a, b, c, d, e, f, g, rfl⟩ : ∃ a b c d e f g, tail = [a, b, c, d, e, f, g] := by
      rcases tail with
        _ | ⟨a, _ | ⟨b, _ | ⟨c, _ | ⟨d, _ | ⟨e, _ | ⟨f, _ | ⟨g, _ | ⟨h, rest⟩⟩⟩⟩⟩⟩⟩⟩ <;>
        simp at size ⊢
    have held := allHold_ok
      [isByte 32 a, signByte b, digitBytes [c, d], isByte 58 e, digitBytes [f, g]]
    change Except.map _ (allHold (List.map Except.ok
      [isByte 32 a, signByte b, digitBytes [c, d], isByte 58 e, digitBytes [f, g]])) = _
    rw [held]
    simp [Except.map, isByte, signByte, and_assoc]
  · rw [colonTz, short_lastBytes s 7 room, checkedSub, if_neg room]

theorem ranged_shortTime (s : List UInt8) : Ranged.shortTime s = .ok (shortTime s) := by
  unfold Ranged.shortTime
  by_cases room : 9 ≤ s.length
  · obtain ⟨before, tail, rfl, size, start⟩ := tail_split s 9 room
    have whole := bytesFrom_append before tail 0
    rw [Nat.add_zero] at whole
    rw [shortTime, start, lastBytes_append before tail 9 size]
    dsimp only
    rw [whole]
    obtain ⟨a, b, c, d, e, f, g, h, i, rfl⟩ :
        ∃ a b c d e f g h i, tail = [a, b, c, d, e, f, g, h, i] := by
      rcases tail with
        _ | ⟨a, _ | ⟨b, _ | ⟨c, _ | ⟨d, _ | ⟨e, _ | ⟨f, _ | ⟨g, _ | ⟨h, _ | ⟨i, _ | ⟨j, rest⟩⟩⟩⟩⟩⟩⟩⟩⟩⟩ <;>
        simp at size ⊢
    have held := allHold_ok [isByte 32 a, digitBytes [b, c], isByte 58 d, digitBytes [e, f],
      isByte 58 g, digitBytes [h, i]]
    change Except.map _ (allHold (List.map Except.ok [isByte 32 a, digitBytes [b, c], isByte 58 d,
      digitBytes [e, f], isByte 58 g, digitBytes [h, i]])) = _
    rw [held]
    simp [Except.map, isByte, and_assoc]
  · rw [shortTime, short_lastBytes s 9 room, checkedSub, if_neg room]

theorem ranged_dateLen (s : List UInt8) : Ranged.dateLen s = .ok (dateLen s) := by
  unfold Ranged.dateLen
  by_cases room : 8 ≤ s.length
  · obtain ⟨before, tail, rfl, size, start⟩ := tail_split s 8 room
    have whole := bytesFrom_append before tail 0
    rw [Nat.add_zero] at whole
    rw [dateLen, start, lastBytes_append before tail 8 size]
    dsimp only
    rw [whole]
    obtain ⟨a, b, c, d, e, f, g, h, rfl⟩ :
        ∃ a b c d e f g h, tail = [a, b, c, d, e, f, g, h] := by
      rcases tail with
        _ | ⟨a, _ | ⟨b, _ | ⟨c, _ | ⟨d, _ | ⟨e, _ | ⟨f, _ | ⟨g, _ | ⟨h, _ | ⟨i, rest⟩⟩⟩⟩⟩⟩⟩⟩⟩ <;>
        simp at size ⊢
    have held := allHold_ok [digitBytes [a, b], isByte 45 c, digitBytes [d, e], isByte 45 f,
      digitBytes [g, h]]
    change Except.bind (allHold (List.map Except.ok [digitBytes [a, b], isByte 45 c,
      digitBytes [d, e], isByte 45 f, digitBytes [g, h]])) _ = _
    rw [held]
    change (if (!([digitBytes [a, b], isByte 45 c, digitBytes [d, e], isByte 45 f,
      digitBytes [g, h]].all id)) = true then Except.ok 0 else _) = Except.ok (if _ then _ else _)
    have shaped : [digitBytes [a, b], isByte 45 c, digitBytes [d, e], isByte 45 f,
        digitBytes [g, h]].all id = (digitBytes [a, b] && decide (c = 45) && digitBytes [d, e] &&
          decide (f = 45) && digitBytes [g, h]) := by
      simp [isByte, Bool.and_assoc]
    rw [shaped]
    cases digitBytes [a, b] && decide (c = 45) && digitBytes [d, e] && decide (f = 45) &&
        digitBytes [g, h] with
    | false => rfl
    | true =>
      rw [if_neg (by decide), if_pos rfl, List.length_append, size]
      by_cases early : before.length < 2
      · rw [if_pos early, if_neg (by omega)]
      · have two : before.length + 8 - 10 = before.length - 2 := by omega
        have years : (before.drop (before.length - 2)).length = 2 := by
          rw [List.length_drop]
          omega
        have less : lessBy before.length 2 = .ok (before.length - 2) := if_pos (by omega)
        have between : bytesBetween (before ++ [a, b, c, d, e, f, g, h]) (before.length - 2)
            before.length = .ok (before.drop (before.length - 2)) := by
          rw [bytesBetween, if_pos ⟨Nat.sub_le .., by simp⟩, List.take_left]
        rw [if_neg early, less, two, List.drop_append_of_le_length (Nat.sub_le ..),
          List.take_left' years]
        change Except.map _ (bytesBetween _ _ _) = _
        rw [between]
        change Except.ok (if digitBytes (before.drop (before.length - 2)) then 10 else 8) = _
        cases digitBytes (before.drop (before.length - 2)) with
        | false => rw [if_neg (by decide), if_neg (fun long => absurd long.2 (by decide))]
        | true => rw [if_pos rfl, if_pos ⟨by omega, rfl⟩]
  · rw [dateLen, short_lastBytes s 8 room, checkedSub, if_neg room]

theorem bytesBetween_take (s : List UInt8) (n : Nat) (within : n ≤ s.length) :
    bytesBetween s 0 n = .ok (s.take n) := bytesBetween_to s n within

theorem lessBy_ok (whole part : Nat) (less : part ≤ whole) :
    lessBy whole part = .ok (whole - part) := if_pos less

theorem byteAt_ok (s : List UInt8) (k : Nat) (b : UInt8) (found : s[k]? = some b) :
    byteAt s k = .ok b := by
  rw [byteAt, found]

theorem ranged_fractionalTime (s : List UInt8) :
    Ranged.fractionalTime s = .ok (fractionalTime s) := by
  have run : trailing digitByte s ≤ s.length := lastRun_le digitByte s
  have within : s.length - trailing digitByte s ≤ s.length := Nat.sub_le ..
  unfold Ranged.fractionalTime fractionalTime
  rw [lessBy_ok _ _ run]
  generalize s.length - trailing digitByte s = whole at within ⊢
  simp only [bind, Except.bind, pure, Except.pure]
  by_cases skipped : whole = s.length ∨ whole = 0
  · have skipped' : whole = s.length ∨ whole = 0 ∨ s[whole - 1]? ≠ some 46 := by tauto
    rw [if_pos skipped, if_pos skipped']
  · obtain ⟨inside, positive⟩ := not_or.1 skipped
    have found : s[whole - 1]? = some s[whole - 1] := List.getElem?_eq_getElem (by omega)
    rw [if_neg skipped, lessBy_ok whole 1 (by omega)]
    dsimp only
    rw [byteAt_ok s _ _ found]
    dsimp only
    by_cases dot : s[whole - 1] = 46
    · have kept : ¬ (whole = s.length ∨ whole = 0 ∨ s[whole - 1]? ≠ some 46) := by
        rw [found, dot]
        simp only [ne_eq, not_true_eq_false, or_false]
        exact skipped
      rw [if_neg (not_not.2 dot), if_neg kept, bytesBetween_take s _ (by omega)]
      dsimp only
      rw [ranged_shortTime]
      dsimp only
      cases shortTime (s.take (whole - 1)) with
      | zero => rfl
      | succ n =>
        rw [if_neg (Nat.succ_ne_zero n), lessBy_ok _ _ (by omega)]
        rfl
    · have skipped' : whole = s.length ∨ whole = 0 ∨ s[whole - 1]? ≠ some 46 := by
        rw [found]
        exact .inr (.inr fun same => dot (Option.some.inj same))
      rw [if_pos dot, if_pos skipped']

theorem zoneLen_le (s : List UInt8) : zoneLen s ≤ s.length := by
  obtain ⟨before, zone, same, size, -⟩ := zone_sound s
  have whole := congrArg List.length same
  rw [List.length_append] at whole
  omega

theorem timeLen_le (s : List UInt8) : timeLen s ≤ s.length := by
  obtain ⟨before, time, same, size, -⟩ := time_sound s
  have whole := congrArg List.length same
  rw [List.length_append] at whole
  omega

theorem dateLen_le (s : List UInt8) : dateLen s ≤ s.length := by
  obtain ⟨before, date, same, size, -⟩ := date_sound s
  have whole := congrArg List.length same
  rw [List.length_append] at whole
  omega

theorem ranged_zoneLen (s : List UInt8) : Ranged.zoneLen s = .ok (zoneLen s) := by
  unfold Ranged.zoneLen zoneLen
  rw [ranged_saneTz, ranged_colonTz]
  change (if saneTz s = 0 then _ else _) = _
  cases saneTz s <;> rfl

theorem ranged_timeLen (s : List UInt8) : Ranged.timeLen s = .ok (timeLen s) := by
  unfold Ranged.timeLen timeLen
  rw [ranged_shortTime, ranged_fractionalTime]
  change (if shortTime s = 0 then _ else _) = _
  cases shortTime s <;> rfl

/-- What is read before the date. -/
theorem last_before (row : List UInt8) (stop : Nat) (within : stop + 1 ≤ row.length) :
    (row.take (stop + 1)).getLast? = row[stop]? := by
  rw [List.getLast?_eq_getElem?, List.length_take, Nat.min_eq_left within, Nat.add_sub_cancel,
    List.getElem?_take_of_succ]

theorem ranged_stamp (row : List UInt8) (stop : Nat) (within : stop ≤ row.length) :
    Ranged.stampFrom row stop = .ok (stampFrom row stop) := by
  unfold Ranged.stampFrom
  cases stop with
  | zero => rfl
  | succ stop =>
    have found : row[stop]? = some row[stop] := List.getElem?_eq_getElem (by omega)
    have run : trailing (· = 32) (row.take (stop + 1)) ≤ stop + 1 := by
      have size := lastRun_le (fun b : UInt8 => decide (b = 32)) (row.take (stop + 1))
      rw [List.length_take, Nat.min_eq_left within] at size
      exact size
    rw [stampFrom, last_before row stop within, checkedSub, if_pos (by omega), found]
    dsimp only
    rw [Nat.add_sub_cancel, byteAt_ok row stop _ found]
    simp only [bind, Except.bind, pure, Except.pure]
    by_cases tab : row[stop] = 9
    · rw [if_pos tab, tab, lessBy_ok _ _ (Nat.le_add_left 1 stop)]
      exact lessBy_ok _ _ (by omega)
    rw [if_neg tab]
    by_cases space : row[stop] = 32
    · rw [if_pos space, space, bytesBetween_take row _ within]
      dsimp only
      rw [lessBy_ok _ _ run]
      exact lessBy_ok _ _ (by omega)
    rw [if_neg space]
    split
    · rename_i same
      exact absurd (Option.some.inj same) tab
    · rename_i same
      exact absurd (Option.some.inj same) space
    · rfl

/-- The machine's scan never stops, and finds what the scan over all numbers finds. -/
theorem ranged_timestampLen (line : List UInt8) :
    Ranged.timestampLen line = .ok (timestampLen line) := by
  unfold Ranged.timestampLen
  by_cases ends : line.getLast?.any digitByte = true
  · rw [timestampLen_eq line ends, ends]
    have zone := zoneLen_le line
    have time := timeLen_le (line.take (line.length - zoneLen line))
    rw [List.length_take, Nat.min_eq_left (Nat.sub_le ..)] at time
    have date := dateLen_le (line.take
      (line.length - zoneLen line - timeLen (line.take (line.length - zoneLen line))))
    rw [List.length_take, Nat.min_eq_left (by omega)] at date
    simp only [bind, Except.bind, pure, Except.pure, ranged_zoneLen, lessBy_ok _ _ zone,
      bytesBetween_take line _ (Nat.sub_le line.length (zoneLen line)), ranged_timeLen]
    have within : line.length - zoneLen line ≤ line.length := Nat.sub_le ..
    generalize line.length - zoneLen line = undated at time date within
    rw [if_neg (by decide), lessBy_ok _ _ time]
    dsimp only
    have inside : undated - timeLen (line.take undated) ≤ line.length :=
      (Nat.sub_le ..).trans within
    generalize undated - timeLen (line.take undated) = untimed at date inside
    rw [bytesBetween_take line _ inside]
    dsimp only
    rw [ranged_dateLen]
    dsimp only
    by_cases zero : dateLen (line.take untimed) = 0
    · rw [if_pos zero, if_pos zero]
    · rw [if_neg zero, if_neg zero, lessBy_ok _ _ date]
      exact ranged_stamp line _ ((Nat.sub_le ..).trans inside)
  · have zero : timestampLen line = 0 := by
      rw [Bool.not_eq_true] at ends
      unfold timestampLen
      rw [ends]
      rfl
    rw [Bool.not_eq_true] at ends
    rw [zero, ends]
    rfl

/-! ### The cut name -/

theorem takeBytes_append (before after : Str) :
    takeBytes (Utf8.encode before).length (before ++ after) = some before := by
  induction before with
  | nil =>
    cases after <;> rfl
  | cons c before ih =>
    have size : (String.utf8EncodeChar c).length = c.utf8Size := String.length_utf8EncodeChar c
    have positive := c.utf8Size_pos
    obtain ⟨n, succ⟩ : ∃ n, (Utf8.encode (c :: before)).length = n + 1 := by
      apply Nat.exists_eq_add_one.2
      rw [Utf8.encode_cons, List.length_append]
      omega
    have rest : n + 1 - c.utf8Size = (Utf8.encode before).length := by
      rw [← succ, Utf8.encode_cons, List.length_append, size, Nat.add_sub_cancel_left]
    have room : c.utf8Size ≤ n + 1 := by
      rw [← succ, Utf8.encode_cons, List.length_append, size]
      exact Nat.le_add_right ..
    rw [succ, List.cons_append, takeBytes, if_pos room, rest, ih]
    rfl

/-- A cut before a byte below 0x80 is between two characters. -/
theorem ascii_cut (text : Str) (before tail : List UInt8) (b : UInt8) (low : b.toNat < 0x80)
    (bytes : Utf8.encode text = before ++ b :: tail) :
    ∃ name rest, text = name ++ rest ∧ Utf8.encode name = before := by
  have boundary : isCharBoundary (Utf8.encode text) before.length = true := by
    have outside : Utf8.continues b = false := by
      simp only [Utf8.continues, Bool.and_eq_false_iff, decide_eq_false_iff_not]
      omega
    rw [isCharBoundary, bytes, List.getElem?_append_right (Nat.le_refl _), Nat.sub_self,
      List.getElem?_cons_zero, Option.any_some, outside]
    simp
  obtain ⟨name, rest, same, size⟩ := boundary_split text before.length
    (by rw [bytes, List.length_append]; omega) boundary
  refine ⟨name, rest, same, ?_⟩
  rw [same, Utf8.encode_append] at bytes
  exact (List.append_inj bytes size).1

theorem stamp_starts (before tail : List UInt8) (stamped : StampText before tail) :
    ∃ b rest, tail = b :: rest ∧ b.toNat < 0x80 := by
  obtain ⟨gap, date, time, zone, gapped, -, -, -⟩ := stamped
  rcases gapped with rfl | ⟨filled, spaces, -⟩
  · exact ⟨9, _, rfl, by decide⟩
  · cases gap with
    | nil => exact absurd rfl filled
    | cons b gap =>
      have space := spaces b List.mem_cons_self
      exact ⟨b, _, rfl, by rw [space]; decide⟩

theorem header_slice (rest : Str) :
    ∃ name, takeBytes ((Utf8.encode rest).length - timestampLen (Utf8.encode rest)) rest =
      some name ∧ name <+: rest := by
  by_cases found : timestampLen (Utf8.encode rest) = 0
  · refine ⟨rest, ?_, List.prefix_rfl⟩
    have whole := takeBytes_append rest []
    rw [List.append_nil] at whole
    rw [found, Nat.sub_zero]
    exact whole
  · obtain ⟨before, tail, bytes, size, stamped⟩ := timestamp_sound _ found
    obtain ⟨b, more, starts, low⟩ := stamp_starts before tail stamped
    obtain ⟨name, after, same, encoded⟩ := ascii_cut rest before more b low (by rw [bytes, starts])
    refine ⟨name, ?_, same ▸ List.prefix_append name after⟩
    have cut : (Utf8.encode rest).length - timestampLen (Utf8.encode rest) =
        (Utf8.encode name).length := by
      rw [← size, encoded, bytes, List.length_append, Nat.add_sub_cancel]
    rw [cut, same]
    exact takeBytes_append name after

/-- The scan stays in range, it finds a timestamp just when one ends the line, and the name in
front of it is whole characters. -/
theorem timestamp_exact :
    (∀ line, Ranged.timestampLen line = .ok (timestampLen line)) ∧
    (∀ line n, (0 < n ∧ timestampLen line = n) ↔
      ∃ before tail, line = before ++ tail ∧ tail.length = n ∧ StampText before tail) ∧
    ∀ rest : Str, ∃ name,
      takeBytes ((Utf8.encode rest).length - timestampLen (Utf8.encode rest)) rest = some name ∧
        name <+: rest :=
  ⟨ranged_timestampLen, timestamp_iff, header_slice⟩

end DeepDiffForge.Patch
