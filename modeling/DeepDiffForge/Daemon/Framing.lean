import DeepDiffForge.Lib.Reads
import DeepDiffForge.Core.Review

/-! How the two transports cut a stream into request lines: standard input by a limited read, a
socket by the chunks it brings. -/

namespace DeepDiffForge.Daemon.Framing
open Markers Reads DeepDiffForge.Core

inductive ReadError
  | timedOut
  | quotaExceeded
  deriving DecidableEq, Repr

/-- `cap + 1` as a sum of two `u64`s, which wraps. -/
def takeLimit (cap : Nat) : Nat := (cap + 1) % 2 ^ 64

/-- One line read within `cap + 1` bytes: how many were read, and what is held then. -/
def readCappedLine (cap : Nat) (reader : Reader UInt8) (buf : List UInt8) :
    Nat × List UInt8 × Reader UInt8 :=
  let read := readUntil 0x0A (takeLimit cap) reader buf
  (read.1.length - buf.length, read.1, read.2)

/-- One line read before a deadline: `late` says whether it is past while so many bytes are held,
`reserve` whether the read budget has room for so many more. -/
def readCappedLineDeadline (cap : Nat) (late : Nat → Bool) (reserve : Nat → Nat → Bool)
    (reader : Reader UInt8) (buf : List UInt8) :
    Except ReadError Nat × List UInt8 × Reader UInt8 :=
  let maximum := min (cap + 1) usizeMax
  if late buf.length then (.error .timedOut, buf, reader)
  else if reader.available = [] then (.ok buf.length, buf, reader)
  else
    let allowed := min reader.available.length (maximum - buf.length)
    let newline := (reader.available.take allowed).findIdx? (· = 0x0A)
    let consumed := newline.elim allowed (· + 1)
    if reserve buf.length consumed = false then (.error .quotaExceeded, buf, reader)
    else
      let held := buf ++ reader.available.take consumed
      let rest := reader.consume consumed
      if newline.isSome ∨ maximum ≤ held.length then (.ok held.length, held, rest)
      else readCappedLineDeadline cap late reserve rest held
termination_by min (cap + 1) usizeMax - buf.length
decreasing_by
  rename_i present _ more
  push Not at more
  have positive := List.length_pos_iff.2 present
  have absent : newline = none := by simpa using more.1
  have whole : consumed = allowed := by
    change newline.elim allowed (· + 1) = allowed
    rw [absent, Option.elim_none]
  have length : held.length = buf.length + min consumed reader.available.length := by
    change (buf ++ reader.available.take consumed).length = _
    rw [List.length_append, List.length_take]
  have := more.2
  change min (cap + 1) usizeMax - held.length < _
  omega

inductive Frame
  | line (bytes : List UInt8)
  | oversized (held : List UInt8)
  | failed (error : ReadError)
  deriving DecidableEq, Repr

theorem readCappedLine_eq (cap : Nat) (reader : Reader UInt8) :
    (readCappedLine cap reader []).2.1 = (upTo 0x0A reader.items).take (takeLimit cap) ∧
      (readCappedLine cap reader []).1 = (readCappedLine cap reader []).2.1.length ∧
        (readCappedLine cap reader []).2.2.items =
          reader.items.drop (readCappedLine cap reader []).2.1.length := by
  obtain ⟨line, left⟩ := readUntil_eq 0x0A (takeLimit cap) reader []
  refine ⟨line, rfl, ?_⟩
  change (readUntil 0x0A (takeLimit cap) reader []).2.items = _
  rw [left]
  change _ = reader.items.drop (readUntil 0x0A (takeLimit cap) reader []).1.length
  rw [line, List.nil_append]

/-- Whatever a read before a deadline ends with, what is held and what is left is all there was. -/
theorem deadline_keeps (cap : Nat) (late : Nat → Bool) (reserve : Nat → Nat → Bool)
    (reader : Reader UInt8) (buf : List UInt8) :
    (readCappedLineDeadline cap late reserve reader buf).2.1 ++
      (readCappedLineDeadline cap late reserve reader buf).2.2.items = buf ++ reader.items := by
  have step (reader : Reader UInt8) (buf : List UInt8) (allowed : Nat)
      (most : allowed ≤ reader.available.length) :
      buf ++ reader.available.take (((reader.available.take allowed).findIdx?
        (· = 0x0A)).elim allowed (· + 1)) ++ (reader.consume (((reader.available.take
          allowed).findIdx? (· = 0x0A)).elim allowed (· + 1))).items = buf ++ reader.items := by
    rw [List.append_assoc, reader.take_consume]
    cases found : (reader.available.take allowed).findIdx? (· = 0x0A) with
    | none => exact most
    | some place =>
      have inside := (List.findIdx?_eq_some_iff_findIdx_eq.1 found).1
      rw [List.length_take] at inside
      change place + 1 ≤ _
      omega
  fun_induction readCappedLineDeadline cap late reserve reader buf with
  | case1 => rfl
  | case2 => rfl
  | case3 => rfl
  | case4 reader buf => exact step reader buf _ (Nat.min_le_left ..)
  | case5 reader buf _ _ _ _ _ _ _ _ _ _ ih =>
    rw [ih]
    exact step reader buf _ (Nat.min_le_left ..)

theorem deadline_readUntil (cap : Nat) (late : Nat → Bool) (reserve : Nat → Nat → Bool)
    (onTime : ∀ held, late held = false) (room : ∀ held more, reserve held more = true)
    (reader : Reader UInt8) (buf : List UInt8) (short : buf.length < min (cap + 1) usizeMax) :
    readCappedLineDeadline cap late reserve reader buf =
      (.ok (readUntil 0x0A (min (cap + 1) usizeMax - buf.length) reader buf).1.length,
        readUntil 0x0A (min (cap + 1) usizeMax - buf.length) reader buf) := by
  induction size : min (cap + 1) usizeMax - buf.length using Nat.strong_induction_on
    generalizing reader buf with
  | _ limit ih =>
    have cut : reader.available.take (min reader.available.length limit) =
        reader.available.take limit := by
      rw [List.take_eq_take_iff]
      omega
    have length : (reader.available.take limit).length = min limit reader.available.length :=
      List.length_take
    rw [readCappedLineDeadline, readUntil]
    dsimp only
    rw [onTime, size, cut, room, if_neg Bool.false_ne_true]
    by_cases ended : reader.available = []
    · rw [if_pos ended, ended, List.take_nil]
      rfl
    rw [if_neg ended, if_neg (by decide : ¬true = false)]
    have positive := List.length_pos_iff.2 ended
    cases found : (reader.available.take limit).findIdx? (· = 0x0A) with
    | some place =>
      have inside := (List.findIdx?_eq_some_iff_findIdx_eq.1 found).1
      rw [if_pos (.inl rfl)]
      dsimp only
      rw [Option.elim_some, List.take_take, Nat.min_eq_left (by omega)]
    | none =>
      have more : reader.available.take limit ≠ [] := by
        rw [← List.length_pos_iff]
        omega
      dsimp only
      rw [Option.elim_none, if_neg more, cut, Nat.min_comm reader.available.length,
        ← length]
      have grown : (buf ++ reader.available.take limit).length =
          buf.length + (reader.available.take limit).length := List.length_append
      split_ifs with done
      · have full : limit - (reader.available.take limit).length = 0 := by
          simp only [Option.isSome_none, Bool.false_eq_true, false_or] at done
          omega
        rw [full, readUntil_zero]
      · push Not at done
        rw [ih (limit - (reader.available.take limit).length) (by omega) _ _ done.2 (by omega)]

theorem length_readCappedLine (cap : Nat) (reader : Reader UInt8)
    (positive : (readCappedLine cap reader []).1 ≠ 0) :
    (readCappedLine cap reader []).2.2.items.length < reader.items.length := by
  obtain ⟨line, count, left⟩ := readCappedLine_eq cap reader
  have most := length_upTo 0x0A reader.items
  rw [count, line, List.length_take] at positive
  rw [left, line, List.length_drop, List.length_take]
  omega

theorem length_deadline (cap : Nat) (late : Nat → Bool) (reserve : Nat → Nat → Bool)
    (reader : Reader UInt8)
    (nonempty : (readCappedLineDeadline cap late reserve reader []).2.1 ≠ []) :
    (readCappedLineDeadline cap late reserve reader []).2.2.items.length < reader.items.length := by
  have kept := congrArg List.length (deadline_keeps cap late reserve reader [])
  have positive := List.length_pos_iff.2 nonempty
  rw [List.length_append, List.nil_append] at kept
  omega

def stdioFrames (cap : Nat) (reader : Reader UInt8) : List Frame :=
  let read := readCappedLine cap reader []
  if read.1 = 0 then []
  else if cap < read.2.1.length then [.oversized read.2.1]
  else .line read.2.1 :: stdioFrames cap read.2.2
termination_by reader.items.length
decreasing_by exact length_readCappedLine cap reader (by assumption)

/-- The lines of a connection, `call` of them read before. -/
def socketFrames (cap : Nat) (late : Nat → Nat → Bool) (reserve : Nat → Nat → Nat → Bool)
    (call : Nat) (reader : Reader UInt8) : List Frame :=
  let read := readCappedLineDeadline cap (late call) (reserve call) reader []
  match read.1 with
  | .error error => [.failed error]
  | .ok _ =>
      if read.2.1 = [] then []
      else if cap < read.2.1.length then [.oversized read.2.1]
      else .line read.2.1 :: socketFrames cap late reserve (call + 1) read.2.2
termination_by reader.items.length
decreasing_by exact length_deadline cap (late call) (reserve call) reader (by assumption)

/-- The lines of a stream as they are to be seen: each whole, until one is past the cap. -/
def framed (cap : Nat) : List (List UInt8) → List Frame
  | [] => []
  | line :: rest =>
      if line.length ≤ cap then .line line :: framed cap rest
      else [.oversized (line.take (cap + 1))]

theorem framed_held (cap : Nat) (lines : List (List UInt8)) (held : List UInt8)
    (seen : .oversized held ∈ framed cap lines) : held.length ≤ cap + 1 := by
  induction lines with
  | nil => cases seen
  | cons line rest ih =>
    rw [framed] at seen
    split_ifs at seen with fits
    · rcases List.mem_cons.1 seen with same | seen
      · cases same
      · exact ih seen
    · obtain rfl := Frame.oversized.inj (List.mem_singleton.1 seen)
      exact List.length_take_le ..

/-- A line read within `cap + 1` bytes is the first, or shows that the first is past the cap. -/
theorem framed_step (cap : Nat) (items : List UInt8) (nonempty : items ≠ []) :
    (upTo 0x0A items).take (cap + 1) ≠ [] ∧
      framed cap (pieces 0x0A items) =
        if cap < ((upTo 0x0A items).take (cap + 1)).length then
          [.oversized ((upTo 0x0A items).take (cap + 1))]
        else .line ((upTo 0x0A items).take (cap + 1)) ::
          framed cap (pieces 0x0A (items.drop ((upTo 0x0A items).take (cap + 1)).length)) := by
  have line := (upTo_eq_nil 0x0A items).not.2 nonempty
  refine ⟨fun absent => ?_, ?_⟩
  · rcases List.take_eq_nil_iff.1 absent with zero | empty
    · cases zero
    · exact line empty
  · rw [pieces_upTo 0x0A items nonempty, framed]
    by_cases fits : (upTo 0x0A items).length ≤ cap
    · rw [if_pos fits, List.take_of_length_le (Nat.le_succ_of_le fits), if_neg (Nat.not_lt.2 fits)]
    · have length : ((upTo 0x0A items).take (cap + 1)).length = cap + 1 := by
        rw [List.length_take]
        omega
      rw [if_neg fits, length, if_pos (Nat.lt_succ_self cap)]

theorem stdioFrames_eq (cap : Nat) (small : cap < usizeMax) (reader : Reader UInt8) :
    stdioFrames cap reader = framed cap (pieces 0x0A reader.items) := by
  have limit : takeLimit cap = cap + 1 := by
    rw [takeLimit, Nat.mod_eq_of_lt]
    rw [usizeMax] at small
    omega
  induction size : reader.items.length using Nat.strong_induction_on generalizing reader with
  | _ size ih =>
    obtain ⟨line, count, left⟩ := readCappedLine_eq cap reader
    have fewer := length_readCappedLine cap reader
    rw [limit] at line
    rw [stdioFrames]
    by_cases ended : reader.items = []
    · rw [ended, upTo, List.take_nil] at line
      rw [count, line, ended, if_pos List.length_nil]
      rfl
    · obtain ⟨present, step⟩ := framed_step cap reader.items ended
      have more : (readCappedLine cap reader []).1 ≠ 0 := by
        rw [count, line]
        exact fun absent => present (List.length_eq_zero_iff.1 absent)
      rw [if_neg more, ih _ (size ▸ fewer more) _ rfl, left, line, step]

theorem socketFrames_eq (cap : Nat) (small : cap < usizeMax) (late : Nat → Nat → Bool)
    (reserve : Nat → Nat → Nat → Bool) (onTime : ∀ call held, late call held = false)
    (room : ∀ call held more, reserve call held more = true) (call : Nat) (reader : Reader UInt8) :
    socketFrames cap late reserve call reader = framed cap (pieces 0x0A reader.items) := by
  have limit : min (cap + 1) usizeMax - ([] : List UInt8).length = cap + 1 := by
    rw [List.length_nil]
    omega
  induction size : reader.items.length using Nat.strong_induction_on generalizing call reader with
  | _ size ih =>
    have fewer := length_deadline cap (late call) (reserve call) reader
    have read := deadline_readUntil cap (late call) (reserve call) (onTime call) (room call) reader
      [] (by rw [List.length_nil]; omega)
    rw [limit] at read
    obtain ⟨line, left⟩ := readUntil_eq 0x0A (cap + 1) reader []
    rw [List.nil_append] at line
    rw [read] at fewer
    rw [socketFrames, read]
    dsimp only at fewer ⊢
    by_cases ended : reader.items = []
    · rw [ended, upTo, List.take_nil] at line
      rw [line, ended, if_pos rfl]
      rfl
    · obtain ⟨present, step⟩ := framed_step cap reader.items ended
      rw [if_neg (line ▸ present), ih _ (size ▸ fewer (line ▸ present)) _ _ rfl, left, line, step]

structure FramesAlike (cap : Nat) (stream : List UInt8) (stdio socket : List Frame) : Prop where
  same : stdio = socket
  whole : socket = framed cap (pieces 0x0A stream)
  bounded : ∀ held, .oversized held ∈ socket → held.length ≤ cap + 1

/-- At the greatest cap there is the limit wraps, and standard input reads as ended. -/
theorem stdioFrames_wraps (reader : Reader UInt8) : stdioFrames usizeMax reader = [] := by
  obtain ⟨line, count, -⟩ := readCappedLine_eq usizeMax reader
  have limit : takeLimit usizeMax = 0 := by decide
  have read : (readCappedLine usizeMax reader []).1 = 0 := by
    rw [count, line, limit, List.take_zero, List.length_nil]
  rw [stdioFrames, if_pos read]

theorem silent_apart (cap : Nat) (stream : List UInt8) (nonempty : stream ≠ []) (socket : List Frame) :
    ¬FramesAlike cap stream [] socket := by
  intro alike
  obtain ⟨-, step⟩ := framed_step cap stream nonempty
  have seen := alike.same.trans alike.whole
  rw [step] at seen
  split_ifs at seen

/-- Two transports frame one stream alike, unless the cap is the greatest number there is. -/
theorem transports_alike (cap : Nat) (fits : cap ≤ usizeMax) (stdio socket : Reader UInt8)
    (stream : socket.items = stdio.items) (late : Nat → Nat → Bool)
    (reserve : Nat → Nat → Nat → Bool) (onTime : ∀ call held, late call held = false)
    (room : ∀ call held more, reserve call held more = true) :
    FramesAlike cap stdio.items (stdioFrames cap stdio) (socketFrames cap late reserve 0 socket) ↔
      cap < usizeMax ∨ stdio.items = [] := by
  by_cases small : cap < usizeMax
  · refine iff_of_true ⟨?_, ?_, ?_⟩ (.inl small)
    · rw [stdioFrames_eq cap small, socketFrames_eq cap small late reserve onTime room, stream]
    · rw [socketFrames_eq cap small late reserve onTime room, stream]
    · rw [socketFrames_eq cap small late reserve onTime room]
      exact framed_held cap _
  · obtain rfl : cap = usizeMax := by omega
    rw [stdioFrames_wraps]
    by_cases ended : stdio.items = []
    · have nothing := (socket.available_eq_nil).2 (stream.trans ended)
      have read : readCappedLineDeadline usizeMax (late 0) (reserve 0) socket [] =
          (.ok 0, [], socket) := by
        rw [readCappedLineDeadline, onTime, if_neg Bool.false_ne_true, if_pos nothing]
        rfl
      have silent : socketFrames usizeMax late reserve 0 socket = [] := by
        rw [socketFrames, read]
        exact if_pos rfl
      rw [silent, ended]
      exact iff_of_true ⟨rfl, rfl, nofun⟩ (.inr rfl)
    · exact iff_of_false (silent_apart usizeMax _ ended _) (not_or.2 ⟨Nat.lt_irrefl _, ended⟩)

/-- A line, a line past a cap of four and a last line without its end, each cut inside. -/
def cutReads : Reader UInt8 :=
  ⟨[[0x61], [0x62, 0x0A, 0x63, 0x64], [0x65, 0x66, 0x67, 0x0A, 0x68], [0x69]], by simp⟩

/-- The same bytes, all but the last in one read. -/
def wholeReads : Reader UInt8 :=
  ⟨[[0x61, 0x62, 0x0A, 0x63, 0x64, 0x65, 0x66, 0x67, 0x0A, 0x68], [0x69]], by simp⟩

theorem transports_alike_sample :
    FramesAlike 4 cutReads.items (stdioFrames 4 cutReads)
      (socketFrames 4 (fun _ _ => false) (fun _ _ _ => true) 0 wholeReads) :=
  (transports_alike 4 (by decide) cutReads wholeReads (by decide) (fun _ _ => false)
    (fun _ _ _ => true) (fun _ _ => rfl) (fun _ _ _ => rfl)).2 (.inl (by decide))

/-- A stream of one line, brought by one read. -/
def oneRead : Reader UInt8 := ⟨[[0x61, 0x0A]], by simp⟩

/-- At the greatest cap the line comes on a socket and not on standard input. -/
theorem transports_apart : ¬FramesAlike usizeMax oneRead.items (stdioFrames usizeMax oneRead)
    (socketFrames usizeMax (fun _ _ => false) (fun _ _ _ => true) 0 oneRead) := by
  rw [stdioFrames_wraps]
  exact silent_apart usizeMax oneRead.items (by decide) _

end DeepDiffForge.Daemon.Framing
