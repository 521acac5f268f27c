import DeepDiffForge.Graph.Scanned

/-! A line's code view: its scans together, each character kept or blanked whole, the plain scan
never lost. -/

namespace DeepDiffForge.Graph
open Text Utf8 Masking DeepDiffForge.Core

section Finish
variable (language : Language)

theorem openString_ok (done : Str) (stack : List Frame) (start : Nat)
    (frames : ∀ frame ∈ stack, FrameOk done frame)
    (opened : Scanner.openString stack = some start) : Reaches done start := by
  obtain ⟨frame, listed, found⟩ := List.exists_of_findSome?_eq_some opened
  have ok := frames frame (List.mem_reverse.1 listed)
  cases frame with
  | str held =>
    obtain rfl := Option.some.inj found
    exact ok.2
  | code held => cases found
  | comment => cases found

theorem carried_ok (done : Str) (stack : List Frame) (frame : Frame)
    (frames : ∀ frame ∈ stack, FrameOk done frame)
    (carries : Scanner.carried stack = some frame) : FrameOk [] frame := by
  unfold Scanner.carried at carries
  split at carries
  · obtain rfl := Option.some.inj carries
    exact ⟨(frames _ List.mem_cons_self).1, reaches_zero []⟩
  · cases carries

theorem scanBytes_view (line : Str) (state : Reading) (inside : Option Frame)
    (ok : ReadingOk state) (unended : ∀ frame ∈ inside, FrameOk [] frame) :
    View line (scanBytes language line state inside).1 ∧
      ReadingOk (scanBytes language line state inside).2 := by
  have between : Between language [] line { stack := inside.toList } state :=
    ⟨.nil, fun frame listed => unended frame (Option.mem_toList.1 listed), ok,
      pending_none language line _ _ rfl rfl⟩
  have ran := run_masked language [] line { stack := inside.toList } state between
  have start : encode [] = [] := rfl
  rw [start, List.nil_append] at ran
  rw [scanBytes]
  generalize Scanner.run language [] (encode line) { stack := inside.toList } state = result at ran ⊢
  obtain ⟨scan, state⟩ := result
  obtain ⟨shown, before, masked, frames, ok⟩ := ran
  dsimp only at masked frames ok ⊢
  rw [Scanner.finish]
  refine ⟨?_, ?_⟩
  · dsimp only
    cases opened : Scanner.openString scan.stack with
    | none => exact ⟨shown, before, masked⟩
    | some start =>
      dsimp only
      split_ifs
      · obtain ⟨front, rest, rfl, length⟩ := openString_ok shown scan.stack start frames opened
        obtain ⟨left, rfl⟩ := before
        refine ⟨_, List.prefix_rfl, ?_⟩
        have kept : (encode (front ++ rest ++ left)).drop start = encode (rest ++ left) := by
          rw [List.append_assoc, encode_append, ← length, List.drop_left]
        rw [kept, ← length, List.append_assoc]
        exact (masked.cut front rest scan.out).1.append front (rest ++ left) _ _ (masked_encode _)
      · exact ⟨shown, before, masked⟩
  · dsimp only
    generalize next : (if language = Language.javaScript then _ else state) = state'
    have ok' : ReadingOk state' := by
      rw [← next]
      split_ifs
      · split
        · exact ok
        · exact ok
      · exact ok
    cases carries : Scanner.carried scan.stack with
    | none => exact ok'
    | some frame =>
      refine ⟨ok'.1, ?_⟩
      rintro other ⟨⟩
      exact carried_ok shown scan.stack frame frames carries

end Finish

section Union
variable (views : List Bytes)

theorem longest_le (lengths : List Nat) (start : Nat) :
    start ≤ lengths.foldl max start ∧ ∀ length ∈ lengths, length ≤ lengths.foldl max start := by
  induction lengths generalizing start with
  | nil => exact ⟨le_rfl, nofun⟩
  | cons length lengths ih =>
    obtain ⟨low, each⟩ := ih (max start length)
    rw [List.foldl_cons]
    exact ⟨(le_max_left ..).trans low, List.forall_mem_cons.2 ⟨(le_max_right ..).trans low, each⟩⟩

theorem longest_held (lengths : List Nat) (start : Nat) :
    lengths.foldl max start = start ∨ lengths.foldl max start ∈ lengths := by
  induction lengths generalizing start with
  | nil => exact .inl rfl
  | cons length lengths ih =>
    rw [List.foldl_cons]
    rcases ih (max start length) with same | listed
    · rw [same]
      rcases Nat.le_total length start with low | high
      · exact .inl (Nat.max_eq_left low)
      · rw [Nat.max_eq_right high]
        exact .inr List.mem_cons_self
    · exact .inr (List.mem_cons_of_mem _ listed)

theorem unionBytes_get (bytes : Bytes) (i : Nat) (byte : UInt8) (held : bytes[i]? = some byte)
    (within : i < (views.map List.length).foldl max 0) :
    (unionBytes bytes views)[i]? =
      some (if views.any (fun view => view[i]?.any (· ≠ blankByte)) then byte else blankByte) := by
  rw [unionBytes, List.getElem?_map, List.getElem?_zipIdx, List.getElem?_take_of_lt within, held,
    Nat.zero_add]
  rfl

theorem unionBytes_keeps (bytes view : Bytes) (listed : view ∈ views) (i : Nat) (byte : UInt8)
    (shown : view[i]? = some byte) (held : bytes[i]? = some byte) :
    (unionBytes bytes views)[i]? = some byte := by
  have inside : i < view.length := (List.getElem?_eq_some_iff.1 shown).1
  have within := inside.trans_le ((longest_le (views.map List.length) 0).2 _
    (List.mem_map_of_mem listed))
  rw [unionBytes_get views bytes i byte held within]
  by_cases blank : byte = blankByte
  · rw [blank, ite_self]
  · rw [if_pos (List.any_eq_true.2 ⟨view, listed, by rw [shown]; simpa using blank⟩)]

theorem unionBytes_view (text : Str) (each : ∀ view ∈ views, View text view) :
    View text (unionBytes (encode text) views) := by
  rcases longest_held (views.map List.length) 0 with absent | listed
  · refine ⟨[], List.nil_prefix, ?_⟩
    rw [unionBytes, absent]
    exact .nil
  obtain ⟨view, listed, longest⟩ := List.mem_map.1 listed
  obtain ⟨start, ⟨rest, rfl⟩, masked⟩ := each view listed
  rw [masked.length_eq start view] at longest
  have length : (unionBytes (encode (start ++ rest)) views).length = (encode start).length := by
    rw [unionBytes, List.length_map, List.length_zipIdx, List.length_take, ← longest, encode_append,
      List.length_append]
    omega
  refine ⟨start, List.prefix_append .., masked_of_chars start _ length ?_⟩
  rintro one c two rfl
  have whole : one ++ c :: two ++ rest = one ++ c :: (two ++ rest) := by rw [List.append_assoc]; rfl
  have held (k : Nat) (inside : k < (String.utf8EncodeChar c).length) :
      (encode (one ++ c :: two ++ rest))[(encode one).length + k]? =
        some (String.utf8EncodeChar c)[k] := by
    rw [whole, encode_append, encode_cons, List.getElem?_append_right (by omega),
      Nat.add_sub_cancel_left, List.getElem?_append_left inside, List.getElem?_eq_getElem inside]
  have within (k : Nat) (inside : k < (String.utf8EncodeChar c).length) :
      (encode one).length + k < (views.map List.length).foldl max 0 := by
    rw [← longest, encode_append, encode_cons, List.length_append, List.length_append]
    omega
  by_cases kept : ∃ view ∈ views, ∀ k < (String.utf8EncodeChar c).length,
      view[(encode one).length + k]? = (String.utf8EncodeChar c)[k]?
  · obtain ⟨view, listed, kept⟩ := kept
    refine .inl fun k inside => ?_
    have shown := kept k inside
    rw [List.getElem?_eq_getElem inside] at shown ⊢
    exact unionBytes_keeps views _ view listed _ _ shown (held k inside)
  · refine .inr fun k inside => ?_
    rw [unionBytes_get views _ _ _ (held k inside) (within k inside), if_neg]
    · rfl
    rw [List.any_eq_true]
    rintro ⟨view, listed, shown⟩
    have parts := each view listed
    rw [whole] at parts
    rcases parts.chars one (two ++ rest) c view with same | blank | short
    · exact kept ⟨view, listed, same⟩
    · rw [blank k inside] at shown
      exact absurd shown (by decide)
    · rw [List.getElem?_eq_none (by omega)] at shown
      cases shown

end Union

section Thread
variable (language : Language)

def ScanState.after (lines : List Str) : ScanState :=
  lines.foldl (fun state line => (codeView language line state).2) {}

def StateOk (state : ScanState) : Prop := ∀ reading ∈ state.readings, ReadingOk reading

theorem default_ok : ReadingOk {} := ⟨nofun, nofun⟩

theorem fromUtf8_view (line : Str) (bytes : Bytes) (view : View line bytes) :
    decode bytes = some (fromUtf8OrDefault bytes) ∧ encode (fromUtf8OrDefault bytes) = bytes := by
  obtain ⟨shown, rfl⟩ := view.text line bytes
  rw [fromUtf8OrDefault, decode_encode]
  exact ⟨rfl, rfl⟩

theorem scansOf_view (line : Str) (start : Reading) (ok : ReadingOk start) :
    ∀ scan ∈ scansOf language line start, View line (encode scan.1) ∧ ReadingOk scan.2 := by
  have plain : ReadingOk { start with inString := none } := ⟨ok.1, nofun⟩
  have scanned (inside : Option Frame) (opened : ∀ frame ∈ inside, FrameOk [] frame) :
      View line (encode (scanLine language line { start with inString := none } inside).1) ∧
        ReadingOk (scanLine language line { start with inString := none } inside).2 := by
    obtain ⟨view, next⟩ := scanBytes_view language line _ inside plain opened
    refine ⟨?_, next⟩
    have shown := (fromUtf8_view line _ view).2
    rw [scanLine]
    exact shown.symm ▸ view
  intro scan listed
  rcases List.mem_cons.1 listed with rfl | listed
  · exact scanned none nofun
  · obtain ⟨held, carried, rfl⟩ := List.mem_map.1 listed
    refine scanned (some held) ?_
    rintro frame ⟨⟩
    exact ok.2 held (Option.mem_toList.1 carried)

theorem fresh_mem (earlier readings : List Reading) :
    ∀ reading ∈ ScanState.fresh earlier readings, reading ∈ readings := by
  induction readings generalizing earlier with
  | nil => exact fun _ listed => listed
  | cons first readings ih =>
    intro reading listed
    rw [ScanState.fresh] at listed
    split_ifs at listed
    · exact List.mem_cons_of_mem _ (ih _ reading listed)
    · rcases List.mem_cons.1 listed with rfl | listed
      · exact List.mem_cons_self
      · exact List.mem_cons_of_mem _ (ih _ reading listed)

theorem fromReadings_ok (readings : List Reading) (each : ∀ reading ∈ readings, ReadingOk reading) :
    StateOk (.fromReadings readings) := by
  intro reading listed
  rcases List.mem_cons.1 listed with rfl | listed
  · cases readings with
    | nil => exact default_ok
    | cons first readings => exact each first List.mem_cons_self
  · exact each reading (List.mem_of_mem_drop (fresh_mem _ _ reading (List.mem_of_mem_take listed)))

theorem scans_view (line : Str) (state : ScanState) (ok : StateOk state) :
    ∀ scan ∈ state.readings.flatMap (scansOf language line),
      View line (encode scan.1) ∧ ReadingOk scan.2 := by
  intro scan listed
  obtain ⟨start, held, listed⟩ := List.mem_flatMap.1 listed
  exact scansOf_view language line start (ok start held) scan listed

theorem after_ok (lines : List Str) : StateOk (ScanState.after language lines) := by
  have onward (lines : List Str) (state : ScanState) (ok : StateOk state) :
      StateOk (lines.foldl (fun state line => (codeView language line state).2) state) := by
    induction lines generalizing state with
    | nil => exact ok
    | cons line lines ih =>
      refine ih _ (fromReadings_ok _ ?_)
      intro reading listed
      obtain ⟨scan, scanned, rfl⟩ := List.mem_map.1 listed
      exact (scans_view language line state ok scan scanned).2
  exact onward lines {} (List.forall_mem_singleton.2 default_ok)

theorem codeView_union (line : Str) (state : ScanState) (ok : StateOk state) :
    View line (encode (codeView language line state).1) ∧
      encode (codeView language line state).1 = unionBytes (encode line)
        ((state.readings.flatMap (scansOf language line)).map (encode ·.1)) := by
  have union : View line (unionBytes (encode line)
      ((state.readings.flatMap (scansOf language line)).map (encode ·.1))) := by
    refine unionBytes_view _ line ?_
    intro one listed
    obtain ⟨scan, scanned, rfl⟩ := List.mem_map.1 listed
    exact (scans_view language line state ok scan scanned).1
  have whole : encode (codeView language line state).1 = unionBytes (encode line)
      ((state.readings.flatMap (scansOf language line)).map (encode ·.1)) := by
    refine Eq.trans ?_ (fromUtf8_view line _ union).2
    rw [codeView, unionViews, List.map_map]
    rfl
  exact ⟨whole ▸ union, whole⟩

/-- What `String::from_utf8` reads while a line is viewed. -/
def decoded (line : Str) (state : ScanState) : List Bytes :=
  let starts := state.readings.flatMap fun start =>
    (none :: start.inString.toList.map some).map fun inside =>
      (scanBytes language line { start with inString := none } inside).1
  unionBytes (encode line) ((state.readings.flatMap (scansOf language line)).map (encode ·.1)) ::
    starts

/-- A code view only blanks, each character whole, and every view in it is UTF-8. -/
theorem codeView_blanks (lines : List Str) (line : Str) :
    let state := ScanState.after language lines
    let view := encode (codeView language line state).1
    view.length ≤ (encode line).length ∧
      (∀ (i : Nat) (byte : UInt8), view[i]? = some byte → byte = blankByte ∨ (encode line)[i]? = some byte) ∧
      View line view ∧ ∀ bytes ∈ decoded language line state, (decode bytes).isSome = true := by
  intro state view
  have ok := after_ok language lines
  obtain ⟨shown, whole⟩ := codeView_union language line state ok
  refine ⟨shown.length_le, shown.byte, shown, ?_⟩
  refine List.forall_mem_cons.2 ⟨by rw [(fromUtf8_view line _ (whole ▸ shown)).1]; rfl, ?_⟩
  intro bytes listed
  obtain ⟨start, held, listed⟩ := List.mem_flatMap.1 listed
  obtain ⟨inside, opened, rfl⟩ := List.mem_map.1 listed
  have frames : ∀ frame ∈ inside, FrameOk [] frame := by
    rcases List.mem_cons.1 opened with rfl | opened
    · exact nofun
    · obtain ⟨frame, carried, rfl⟩ := List.mem_map.1 opened
      rintro other ⟨⟩
      exact (ok start held).2 frame (Option.mem_toList.1 carried)
  rw [(fromUtf8_view line _ (scanBytes_view language line { start with inString := none } inside
    ⟨(ok start held).1, nofun⟩ frames).1).1]
  rfl

def plainAfter (lines : List Str) : Reading :=
  lines.foldl (fun start line => { (scanLine language line start none).2 with inString := none }) {}

/-- The first reading of a state is the plain one, whatever string it carries besides. -/
theorem plain_after (lines : List Str) :
    { (ScanState.after language lines).plain with inString := none } = plainAfter language lines := by
  have onward (lines : List Str) (state : ScanState) :
      { (lines.foldl (fun state line => (codeView language line state).2) state).plain with
        inString := none } =
        lines.foldl (fun start line =>
          { (scanLine language line start none).2 with inString := none })
          { state.plain with inString := none } := by
    induction lines generalizing state with
    | nil => rfl
    | cons line lines ih => exact ih (codeView language line state).2
  exact onward lines {}

theorem fromReadings_few (readings : List Reading) :
    (ScanState.fromReadings readings).readings.length ≤ 1 + moreReadings := by
  rw [ScanState.readings, ScanState.fromReadings, List.length_cons, List.length_take]
  omega

theorem after_few (lines : List Str) :
    (ScanState.after language lines).readings.length ≤ 1 + moreReadings := by
  rcases List.eq_nil_or_concat lines with rfl | ⟨lines, last, rfl⟩
  · exact Nat.le_add_right 1 moreReadings
  · rw [ScanState.after, List.concat_eq_append, List.foldl_append]
    exact fromReadings_few _

/-- No line loses a byte that the plain reading of it keeps, and the readings stay few. -/
theorem plain_kept (lines : List Str) (line : Str) :
    let state := ScanState.after language lines
    (∀ (i : Nat) (byte : UInt8),
        (encode (scanLine language line (plainAfter language lines) none).1)[i]? = some byte →
        (encode line)[i]? = some byte →
          (encode (codeView language line state).1)[i]? = some byte) ∧
      state.readings.length ≤ 1 + moreReadings := by
  intro state
  refine ⟨?_, ?_⟩
  · intro i byte shown held
    rw [(codeView_union language line state (after_ok language lines)).2]
    refine unionBytes_keeps _ _ _ ?_ i byte shown held
    refine List.mem_map.2 ⟨_, List.mem_flatMap.2 ⟨state.plain, List.mem_cons_self, ?_⟩, rfl⟩
    rw [← plain_after]
    exact List.mem_cons_self
  · exact after_few language lines

end Thread

end DeepDiffForge.Graph
