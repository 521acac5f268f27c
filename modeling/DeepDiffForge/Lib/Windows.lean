import Mathlib.Data.List.Basic

/-! Counted rows of which only those inside a window are kept. -/

namespace DeepDiffForge.Windows

/-- Rows from `start` up to, and without, `stop`. -/
structure Window where
  start : Nat
  stop : Nat

def Window.contains (window : Window) (row : Nat) : Bool :=
  decide (window.start ≤ row ∧ row < window.stop)

section
variable {α : Type} (window : Window)

/-- What of the items, numbered from `next` on, is inside the window. -/
def within (next : Nat) (items : List α) : List α :=
  ((items.zipIdx next).filter fun item => window.contains item.2).map (·.1)

theorem within_append (next : Nat) (one two : List α) :
    within window next (one ++ two) =
      within window next one ++ within window (next + one.length) two := by
  unfold within
  rw [List.zipIdx_append, List.filter_append, List.map_append]

theorem within_cons (next : Nat) (item : α) (items : List α) :
    within window next (item :: items) =
      (if window.contains next then [item] else []) ++ within window (next + 1) items := by
  rw [within, List.zipIdx_cons, List.filter_cons]
  split <;> rfl

theorem within_nil (next : Nat) : within window next ([] : List α) = [] := rfl

/-- Rows that all end before the window, or begin after it, are not in it. -/
theorem within_outside (next : Nat) (items : List α)
    (outside : next + items.length ≤ window.start ∨ window.stop ≤ next) :
    within window next items = [] := by
  induction items generalizing next with
  | nil => rfl
  | cons item items ih =>
    rw [List.length_cons] at outside
    have apart : window.contains next = false := by
      rw [Window.contains, decide_eq_false_iff_not]
      omega
    rw [within_cons, apart, ih (next + 1) (by omega)]
    rfl

theorem within_map {β : Type} (f : α → β) (next : Nat) (items : List α) :
    within window next (items.map f) = (within window next items).map f := by
  induction items generalizing next with
  | nil => rfl
  | cons item items ih =>
    rw [List.map_cons, within_cons, within_cons, ih, List.map_append]
    split <;> rfl

theorem within_eq (next : Nat) (items : List α) :
    within window next items = (items.take (window.stop - next)).drop (window.start - next) := by
  induction items generalizing next with
  | nil => rw [List.take_nil, List.drop_nil]; rfl
  | cons item items ih =>
    rw [within_cons, ih, Window.contains]
    by_cases later : window.stop ≤ next
    · rw [Nat.sub_eq_zero_of_le later, Nat.sub_eq_zero_of_le (show window.stop ≤ next + 1 by omega),
        List.take_zero, List.take_zero, List.drop_nil, List.drop_nil,
        if_neg (by rw [decide_eq_true_eq]; omega)]
      rfl
    · obtain ⟨size, present⟩ : ∃ size, window.stop - next = size + 1 :=
        ⟨window.stop - next - 1, by omega⟩
      have short : window.stop - (next + 1) = size := by omega
      rw [present, short, List.take_succ_cons]
      by_cases before : next < window.start
      · obtain ⟨gap, present⟩ : ∃ gap, window.start - next = gap + 1 :=
          ⟨window.start - next - 1, by omega⟩
        have less : window.start - (next + 1) = gap := by omega
        rw [present, less, List.drop_succ_cons, if_neg (by rw [decide_eq_true_eq]; omega)]
        rfl
      · have zero : window.start - next = 0 := by omega
        have zero' : window.start - (next + 1) = 0 := by omega
        rw [zero, zero', List.drop_zero, List.drop_zero, if_pos (by rw [decide_eq_true_eq]; omega)]
        rfl

end

/-- A taker of rows: every row is counted, one inside the window is kept, and with `stop` set a
walk may end once the window is full. -/
structure Sink (α : Type) where
  next : Nat
  window : Window
  stop : Bool
  lines : List α

namespace Sink

section
variable {α β : Type}

def new (window : Window) (stop : Bool) : Sink α := { next := 0, window, stop, lines := [] }

def push (sink : Sink α) (line : α) : Sink α :=
  { sink with
    lines := if sink.window.contains sink.next then sink.lines ++ [line] else sink.lines
    next := sink.next + 1 }

/-- Whether any of the next `n` rows is inside the window. -/
def wants (sink : Sink α) (n : Nat) : Bool :=
  sink.next < sink.window.stop && sink.window.start < sink.next + n

def extend (sink : Sink α) (lines : List α) : Sink α := lines.foldl push sink

def done (sink : Sink α) : Bool := sink.stop && sink.window.stop ≤ sink.next

def forUntilDone (step : Sink α → β → Sink α) : List β → Sink α → Sink α
  | [], sink => sink
  | item :: rest, sink => if sink.done then sink else forUntilDone step rest (step sink item)

/-- A loop that collects context items and gives them to `flush` before the next other item and at
the end. -/
def collect (context : β → Bool) (flush : List β → Sink α → Sink α) (emit : β → Sink α → Sink α) :
    List β → List β → Sink α → Sink α
  | ctx, [], sink => flush ctx sink
  | ctx, item :: rest, sink =>
      if sink.done then sink
      else if context item then collect context flush emit (ctx ++ [item]) rest sink
      else collect context flush emit [] rest (emit item (flush ctx sink))

def collectRows (context : β → Bool) (flush : List β → List α) (emit : β → List α) :
    List β → List β → List α
  | ctx, [] => flush ctx
  | ctx, item :: rest =>
      if context item then collectRows context flush emit (ctx ++ [item]) rest
      else flush ctx ++ emit item ++ collectRows context flush emit [] rest

/-- After `rows` were given to a sink, what of them is inside the window was kept, and all of
them were counted unless the sink is done. -/
structure Takes (sink : Sink α) (rows : List α) (after : Sink α) : Prop where
  window : after.window = sink.window
  stop : after.stop = sink.stop
  lines : after.lines = sink.lines ++ within sink.window sink.next rows
  atMost : after.next ≤ sink.next + rows.length
  counted : after.next = sink.next + rows.length ∨ after.done = true

theorem done_iff (sink : Sink α) :
    sink.done = true ↔ sink.stop = true ∧ sink.window.stop ≤ sink.next := by
  rw [done, Bool.and_eq_true, decide_eq_true_eq]

namespace Takes

theorem nil (sink : Sink α) : Takes sink [] sink :=
  ⟨rfl, rfl, (List.append_nil _).symm, Nat.le_refl _, .inl rfl⟩

theorem of_done (sink : Sink α) (rows : List α) (full : sink.done = true) :
    Takes sink rows sink := by
  have past := ((done_iff sink).1 full).2
  refine ⟨rfl, rfl, ?_, Nat.le_add_right _ _, .inr full⟩
  rw [within_outside _ _ _ (.inr past), List.append_nil]

theorem push (sink : Sink α) (line : α) : Takes sink [line] (sink.push line) := by
  refine ⟨rfl, rfl, ?_, Nat.le_refl _, .inl rfl⟩
  rw [within_cons, within_nil, List.append_nil, Sink.push]
  split
  · rfl
  · exact (List.append_nil _).symm

theorem append (sink middle after : Sink α) (one two : List α) (first : Takes sink one middle)
    (second : Takes middle two after) : Takes sink (one ++ two) after := by
  have atMost := first.atMost
  have atMost' := second.atMost
  refine ⟨second.window.trans first.window, second.stop.trans first.stop, ?_, ?_, ?_⟩
  · rw [second.lines, first.lines, first.window, within_append, List.append_assoc]
    rcases first.counted with all | full
    · rw [all]
    · have past := ((done_iff middle).1 full).2
      rw [first.window] at past
      rw [within_outside _ _ two (.inr past), within_outside _ _ two (.inr (Nat.le_trans past atMost))]
  · rw [List.length_append]
    omega
  · rcases second.counted with all | full
    · rcases first.counted with all' | full
      · exact .inl (by rw [List.length_append]; omega)
      · right
        obtain ⟨stops, past⟩ := (done_iff middle).1 full
        rw [done_iff, second.stop, second.window, all]
        exact ⟨stops, Nat.le_trans past (Nat.le_add_right _ _)⟩
    · exact .inr full

theorem skip (sink : Sink α) (rows : List α)
    (outside : sink.next + rows.length ≤ sink.window.start ∨ sink.window.stop ≤ sink.next) :
    Takes sink rows { sink with next := sink.next + rows.length } := by
  refine ⟨rfl, rfl, ?_, Nat.le_refl _, .inl rfl⟩
  rw [within_outside _ _ _ outside, List.append_nil]

theorem foldl (step : Sink α → β → Sink α) (rowsOf : β → List α)
    (each : ∀ sink item, Takes sink (rowsOf item) (step sink item)) (items : List β)
    (sink : Sink α) : Takes sink (items.flatMap rowsOf) (items.foldl step sink) := by
  induction items generalizing sink with
  | nil => exact nil sink
  | cons item items ih =>
    rw [List.flatMap_cons]
    exact append _ _ _ _ _ (each sink item) (ih (step sink item))

theorem extend (sink : Sink α) (lines : List α) : Takes sink lines (sink.extend lines) := by
  have pushed := foldl Sink.push (fun line => [line]) push lines sink
  rwa [List.flatMap_singleton'] at pushed

theorem forUntilDone (step : Sink α → β → Sink α) (rowsOf : β → List α)
    (each : ∀ sink item, Takes sink (rowsOf item) (step sink item)) (items : List β)
    (sink : Sink α) : Takes sink (items.flatMap rowsOf) (Sink.forUntilDone step items sink) := by
  induction items generalizing sink with
  | nil => exact nil sink
  | cons item items ih =>
    rw [Sink.forUntilDone]
    split
    · rename_i full
      exact of_done sink _ full
    · rw [List.flatMap_cons]
      exact append _ _ _ _ _ (each sink item) (ih (step sink item))

theorem collect (context : β → Bool) (flush : List β → Sink α → Sink α)
    (emit : β → Sink α → Sink α) (flushRows : List β → List α) (emitRows : β → List α)
    (flushes : ∀ ctx sink, Takes sink (flushRows ctx) (flush ctx sink))
    (emits : ∀ item sink, Takes sink (emitRows item) (emit item sink)) (ctx items : List β)
    (sink : Sink α) :
    Takes sink (collectRows context flushRows emitRows ctx items)
      (Sink.collect context flush emit ctx items sink) := by
  induction items generalizing ctx sink with
  | nil => exact flushes ctx sink
  | cons item items ih =>
    rw [Sink.collect]
    by_cases full : sink.done = true
    · rw [if_pos full]
      exact of_done sink _ full
    · rw [if_neg full, collectRows]
      by_cases inside : context item = true
      · rw [if_pos inside, if_pos inside]
        exact ih _ sink
      · rw [if_neg inside, if_neg inside]
        exact append _ _ _ _ _ (append _ _ _ _ _ (flushes ctx sink) (emits item _)) (ih [] _)

end Takes

end

end Sink

end DeepDiffForge.Windows
