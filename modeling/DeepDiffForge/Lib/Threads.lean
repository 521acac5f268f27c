import Mathlib.Data.List.Infix
import Mathlib.Data.List.Nodup

/-! Lists whose items each name the latest item before them about the same subject. -/

namespace DeepDiffForge.Threads

variable {α σ η : Type} [DecidableEq σ] [DecidableEq η]
variable (subject : α → σ) (hash : α → η) (link : α → Option η)

def thread (items : List α) (which : σ) : List α := items.filter fun item => subject item = which

def latest (items : List α) (which : σ) : Option η :=
  (thread subject items which).getLast?.map hash

def Threaded (earlier : List α) : List α → Prop
  | [] => True
  | item :: items =>
      link item = latest subject hash earlier (subject item) ∧ Threaded (earlier ++ [item]) items

/-- The items met from one on, each time going to the one it names. -/
def trail (items : List α) : Nat → α → List α
  | 0, item => [item]
  | steps + 1, item =>
      item ::
        match (link item).bind fun name => items.find? fun other => hash other = name with
        | none => []
        | some other => trail items steps other

omit [DecidableEq η] in
theorem threaded_append (earlier first second : List α) :
    Threaded subject hash link earlier (first ++ second) ↔
      Threaded subject hash link earlier first ∧
        Threaded subject hash link (earlier ++ first) second := by
  induction first generalizing earlier with
  | nil =>
    rw [List.nil_append, List.append_nil]
    exact (and_iff_right trivial).symm
  | cons item first ih =>
    rw [List.cons_append, Threaded, Threaded, ih, List.append_assoc, List.singleton_append,
      and_assoc]

omit [DecidableEq η] in
theorem threaded_getElem (earlier items : List α)
    (threaded : Threaded subject hash link earlier items) (i : Nat) (item : α)
    (here : items[i]? = some item) :
    link item = latest subject hash (earlier ++ items.take i) (subject item) := by
  induction items generalizing earlier i with
  | nil => cases here
  | cons head items ih =>
    cases i with
    | zero =>
      obtain rfl := Option.some.inj here
      rw [List.take_zero, List.append_nil]
      exact threaded.1
    | succ i =>
      have later := ih (earlier ++ [head]) threaded.2 i here
      rwa [List.append_assoc] at later

omit [DecidableEq η] in
theorem thread_append (first second : List α) (which : σ) :
    thread subject (first ++ second) which =
      thread subject first which ++ thread subject second which :=
  List.filter_append ..

omit [DecidableEq η] in
theorem latest_apart (items more : List α) (which : σ)
    (apart : ∀ item ∈ more, subject item ≠ which) :
    latest subject hash (items ++ more) which = latest subject hash items which := by
  have empty : thread subject more which = [] :=
    List.filter_eq_nil_iff.2 fun item listed => by simpa using apart item listed
  rw [latest, thread_append, empty, List.append_nil]
  rfl

omit [DecidableEq η] in
theorem latest_concat (items : List α) (item : α) :
    latest subject hash (items ++ [item]) (subject item) = some (hash item) := by
  have own : thread subject [item] (subject item) = [item] :=
    List.filter_cons_of_pos (decide_eq_true rfl)
  rw [latest, thread_append, own, List.getLast?_concat]
  rfl

theorem find_hash (items : List α) (once : (items.map hash).Nodup) (item : α)
    (listed : item ∈ items) : (items.find? fun other => hash other = hash item) = some item := by
  cases found : items.find? fun other => hash other = hash item with
  | none =>
    have absent := List.find?_eq_none.1 found item listed
    exact absurd (decide_eq_true rfl) absent
  | some other =>
    have held := List.find?_some (p := fun other => decide (hash other = hash item)) found
    have same := of_decide_eq_true held
    exact congrArg some (List.inj_on_of_nodup_map once (List.mem_of_find?_eq_some found) listed same)

theorem trail_thread (items front : List α) (within : front <+: items)
    (threaded : Threaded subject hash link [] front) (once : (items.map hash).Nodup) (which : σ)
    (item : α) (last : (thread subject front which).getLast? = some item) (steps : Nat)
    (enough : front.length ≤ steps) :
    trail hash link items steps item = (thread subject front which).reverse := by
  induction front using List.reverseRecOn generalizing item steps with
  | nil => cases last
  | append_singleton front next ih =>
    obtain ⟨before, here⟩ := (threaded_append ..).1 threaded
    have inside : front <+: items := (List.prefix_append front [next]).trans within
    have size : front.length + 1 ≤ steps := by rwa [List.length_append] at enough
    rw [thread_append] at last ⊢
    by_cases own : subject next = which
    · subst own
      have alone : thread subject [next] (subject next) = [next] :=
        List.filter_cons_of_pos (decide_eq_true rfl)
      rw [alone, List.getLast?_concat] at last
      obtain rfl := Option.some.inj last
      rw [alone, List.reverse_append, List.reverse_singleton, List.singleton_append]
      obtain ⟨steps, rfl⟩ : ∃ more, steps = more + 1 := ⟨steps - 1, by omega⟩
      rw [trail, here.1, List.nil_append, latest]
      cases earlier : (thread subject front (subject next)).getLast? with
      | none =>
        rw [List.getLast?_eq_none_iff.1 earlier]
        rfl
      | some other =>
        have listed : other ∈ items :=
          inside.mem (List.mem_of_mem_filter (List.mem_of_getLast? earlier))
        rw [Option.map_some, Option.bind_some, find_hash hash items once other listed]
        exact congrArg (next :: ·) (ih inside before other earlier steps (by omega))
    · have empty : thread subject [next] which = [] :=
        List.filter_cons_of_neg (by simpa using own)
      rw [empty, List.append_nil] at last ⊢
      exact ih inside before item last steps (by omega)

end DeepDiffForge.Threads
