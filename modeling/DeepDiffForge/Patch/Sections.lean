import DeepDiffForge.Patch.Files

/-! A document section by section: each is built from its own lines, and follows one that has
ended well. Nothing but the `-p0` guess passes from one to the next. -/

namespace DeepDiffForge.Patch
open Text DeepDiffForge.Core

inductive Section.Built (p0 : Bool) : List InputLine → Section → Prop where
  | opens {line : InputLine} {part : Section} (opens : part.Opens p0 line) : Built p0 [line] part
  | grows {lines : List InputLine} {line : InputLine} {part grown : Section}
      (built : Built p0 lines part) (grows : part.Grows line grown) : Built p0 (lines ++ [line]) grown

def Section.Follows (part : Section) (last : Option Section) : Prop :=
  ∀ earlier ∈ last, earlier.review.isSome ∧ (part.git = true ∨ earlier.needsNew = true)

/-- Sections one after the other, under the `-p0` guess and after the section before them. -/
def Chained : Bool → Option Section → List Section → Prop
  | _, _, [] => True
  | p0, last, part :: rest =>
      part.Built p0 part.lines ∧ part.Follows last ∧ Chained (p0 || part.guesses) (some part) rest

theorem built_shaped (p0 : Bool) (lines : List InputLine) (part : Section)
    (built : part.Built p0 lines) : part.Shaped ∧ part.lines = lines := by
  induction built with
  | opens opens => exact ⟨shaped_opens _ _ _ opens, lines_opens _ _ _ opens⟩
  | grows built grows ih =>
    exact ⟨shaped_grows _ _ _ grows ih.1, by rw [lines_grows _ _ _ grows ih.1, ih.2]⟩

theorem grows_git (part grown : Section) (line : InputLine) (grows : part.Grows line grown) :
    grown.git = part.git ∧ grown.p0 = part.p0 ∧ grown.opening = part.opening := by
  cases grows <;> exact ⟨rfl, rfl, rfl⟩

theorem chained_append (p0 : Bool) (last : Option Section) (first second : List Section) :
    Chained p0 last (first ++ second) ↔
      Chained p0 last first ∧
        Chained (p0 || first.any Section.guesses) (first.getLast?.or last) second := by
  induction first generalizing p0 last with
  | nil => simp [Chained]
  | cons part first ih =>
    have final : ((part :: first).getLast?.or last) = first.getLast?.or (some part) := by
      cases first with
      | nil => rfl
      | cons next first =>
        rw [List.getLast?_cons_cons, List.getLast?_eq_some_getLast (List.cons_ne_nil next first)]
        rfl
    simp only [List.cons_append, Chained, ih, final, List.any_cons, Bool.or_assoc, and_assoc]

theorem chained_snoc (p0 : Bool) (last : Option Section) (parts : List Section) (part : Section) :
    Chained p0 last (parts ++ [part]) ↔
      Chained p0 last parts ∧ part.Built (p0 || parts.any Section.guesses) part.lines ∧
        part.Follows (parts.getLast?.or last) := by
  rw [chained_append]
  simp [Chained]

theorem chained_grows (doc next : Document) (input : InputLine) (shaped : doc.Shaped)
    (step : doc.Grows input next) (chained : Chained doc.p0 none doc.sections) :
    next.p0 = doc.p0 ∧ Chained next.p0 none next.sections := by
  cases step with
  | preamble early framing => exact ⟨rfl, chained⟩
  | opening part opens ends fresh =>
    refine ⟨rfl, ?_⟩
    have sections : Document.sections
        { doc with closed := doc.closed ++ doc.current.toList, current := some part } =
        doc.sections ++ [part] := rfl
    rw [sections, chained_snoc]
    refine ⟨chained, ?_, ?_⟩
    · rw [lines_opens _ _ _ opens]
      exact .opens opens
    · intro earlier last
      cases current : doc.current with
      | none => simp [Document.sections, current, shaped.begun current] at last
      | some opened =>
        simp only [Document.sections, current, Option.toList_some, List.getLast?_concat,
          Option.some_or, Option.mem_def, Option.some.injEq] at last
        subst last
        exact ⟨ends opened current, fresh opened current⟩
  | inside part grown current grows =>
    refine ⟨rfl, ?_⟩
    have before : doc.sections = doc.closed ++ [part] := by
      simp [Document.sections, current]
    have sections : Document.sections { doc with current := some grown } =
        doc.closed ++ [grown] := rfl
    rw [before, chained_snoc] at chained
    rw [sections, chained_snoc]
    obtain ⟨closed, built, follows⟩ := chained
    refine ⟨closed, ?_, ?_⟩
    · rw [lines_grows _ _ _ grows (built_shaped _ _ _ built).1]
      exact .grows built grows
    · intro earlier last
      obtain ⟨ends, fresh⟩ := follows earlier last
      rw [(grows_git _ _ _ grows).1]
      exact ⟨ends, fresh⟩

theorem chained_growsBy (lines : List InputLine) (doc final : Document) (shaped : doc.Shaped)
    (grows : doc.GrowsBy lines final) (chained : Chained doc.p0 none doc.sections) :
    final.p0 = doc.p0 ∧ Chained final.p0 none final.sections := by
  induction grows with
  | nil doc => exact ⟨rfl, chained⟩
  | cons step rest ih =>
    obtain ⟨same, later⟩ := chained_grows _ _ _ shaped step chained
    obtain ⟨eq, final⟩ := ih (document_shaped_grows _ _ _ step shaped).1 later
    exact ⟨eq.trans same, final⟩

theorem chained_of_grown (lines : List InputLine) (doc : Document)
    (grown : Document.Grown lines doc) : doc.p0 = false ∧ Chained false none doc.sections := by
  obtain ⟨p0, chained⟩ := chained_growsBy lines {} doc (reads_empty false none).2
    (growsBy_of_grown lines doc grown) trivial
  rw [p0] at chained
  exact ⟨p0, chained⟩

def Document.extend (doc : Document) (parts : List Section) : Document :=
  parts.foldl (fun doc part => { doc with closed := doc.sections, current := some part }) doc

theorem extend_cons (doc : Document) (part : Section) (parts : List Section) :
    doc.extend (part :: parts) =
      Document.extend { doc with closed := doc.sections, current := some part } parts := rfl

theorem sections_extend (doc : Document) (parts : List Section) :
    (doc.extend parts).sections = doc.sections ++ parts := by
  induction parts generalizing doc with
  | nil => simp [Document.extend]
  | cons part parts ih =>
    rw [extend_cons, ih]
    simp [Document.sections]

theorem growsBy_of_built (doc : Document) (lines : List InputLine) (part : Section)
    (built : part.Built doc.guessed lines) (follows : part.Follows doc.current) :
    doc.GrowsBy lines { doc with closed := doc.sections, current := some part } := by
  induction built with
  | opens opens =>
    exact .cons (.opening doc _ _ opens (fun last current => (follows last current).1)
      (fun last current => (follows last current).2)) (.nil _)
  | grows built grows ih =>
    have before := ih (fun last current => by
      have old := follows last current
      rwa [(grows_git _ _ _ grows).1] at old)
    exact growsBy_append _ _ _ _ _ before (.cons (.inside _ _ _ _ rfl grows) (.nil _))

theorem growsBy_of_chained (doc : Document) (parts : List Section)
    (chained : Chained doc.guessed doc.current parts) :
    doc.GrowsBy (parts.flatMap Section.lines) (doc.extend parts) := by
  induction parts generalizing doc with
  | nil => exact .nil doc
  | cons part parts ih =>
    obtain ⟨built, follows, rest⟩ := chained
    have head := growsBy_of_built doc _ part built follows
    have guessed : Document.guessed { doc with closed := doc.sections, current := some part } =
        (doc.guessed || part.guesses) := by
      simp [Document.guessed, Document.sections, Bool.or_assoc]
    exact growsBy_append _ _ _ _ _ head (ih _ (by rw [guessed]; exact rest))

theorem growsBy_preamble (p0 : Bool) (lines preamble : List InputLine)
    (framing : ∀ line ∈ lines, isFraming line.text = true) :
    Document.GrowsBy { p0, preamble } lines { p0, preamble := preamble ++ lines } := by
  induction lines generalizing preamble with
  | nil => simpa using Document.GrowsBy.nil _
  | cons line lines ih =>
    have rest := ih (preamble ++ [line]) (fun other member => framing other (by simp [member]))
    rw [List.append_assoc, List.singleton_append] at rest
    exact .cons (.preamble _ line rfl (framing line (by simp))) rest

theorem growsBy_chained (p0 : Bool) (preamble : List InputLine) (parts : List Section)
    (framing : ∀ line ∈ preamble, isFraming line.text = true)
    (chained : Chained p0 none parts) :
    Document.GrowsBy { p0 } (preamble ++ parts.flatMap Section.lines)
      (Document.extend { p0, preamble } parts) := by
  have before := growsBy_preamble p0 preamble [] framing
  rw [List.nil_append] at before
  have guessed : Document.guessed { p0, preamble } = p0 := by
    simp [Document.guessed, Document.sections]
  exact growsBy_append _ _ _ _ _ before
    (growsBy_of_chained { p0, preamble } parts (by rw [guessed]; exact chained))

theorem grown_of_chained (preamble : List InputLine) (parts : List Section)
    (framing : ∀ line ∈ preamble, isFraming line.text = true)
    (chained : Chained false none parts) :
    Document.Grown (preamble ++ parts.flatMap Section.lines)
      (Document.extend { preamble } parts) :=
  grown_growsBy [] _ _ _ .empty (growsBy_chained false preamble parts framing chained)

def Section.core (part : Section) : Section := { part with trailing := [] }

theorem lines_core (part : Section) : part.lines = part.core.lines ++ part.trailing := by
  simp [Section.lines, Section.core]

/-- Only framing lines come after a framing line of a section. -/
theorem trailing_grows (part grown : Section) (line : InputLine) (grows : part.Grows line grown)
    (shaped : part.Shaped) :
    grown.trailing = [] ∨ grown = { part with trailing := part.trailing ++ [line] } := by
  cases grows with
  | extended line git early unbroken textual read => exact .inl unbroken
  | binary line binary read => exact .inl (shaped.textual binary).2
  | oldName line git early unbroken textual old named => exact .inl unbroken
  | newName line awaiting new named => exact .inl (shaped.settled awaiting).2.2
  | hunk hunk may textual bare => exact .inl ((mayOpen_iff part).1 may).2.1
  | body hunk line opened fits unended unmarked unfilled =>
    exact .inl (shaped.unbroken (by simp [opened]))
  | lastBody hunk line opened fits unended unmarked filled changes =>
    exact .inl (shaped.unbroken (by simp [opened]))
  | marker hunk line _ text opened unmarked => exact .inl (shaped.unbroken (by simp [opened]))
  | lastMarker hunks hunk line _ text unopened unbroken last unmarked => exact .inl unbroken
  | trailing _ unopened settled textual framing plain moves => exact .inr rfl

theorem built_core (p0 : Bool) (lines : List InputLine) (part : Section)
    (built : part.Built p0 lines) : part.core.Built p0 part.core.lines := by
  induction built with
  | @opens line part opens =>
    have bare : part.core = part := by cases opens <;> rfl
    rw [bare, lines_opens _ _ _ opens]
    exact .opens opens
  | @grows lines line part grown built grows ih =>
    obtain ⟨shaped, same⟩ := built_shaped _ _ _ built
    rcases trailing_grows part grown line grows shaped with unbroken | rfl
    · have bare : grown.core = grown := by
        rw [Section.core, ← unbroken]
      rw [bare, lines_grows _ _ _ grows shaped, same]
      exact .grows built grows
    · exact ih

end DeepDiffForge.Patch
