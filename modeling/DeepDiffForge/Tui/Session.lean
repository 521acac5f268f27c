import DeepDiffForge.Graph.Evidence
import DeepDiffForge.Lib.Machine
import DeepDiffForge.Tui.Tree

/-! Sessions of the review app: its events, and what every run of them keeps. -/

namespace DeepDiffForge.Tui
open Text Machine DeepDiffForge.Core DeepDiffForge.Graph

namespace ReviewApp

def selectNext (app : ReviewApp) : ReviewApp :=
  if app.selected + 1 < app.ranked.length then
    { app with selected := app.selected + 1, scroll := 0 }
  else app

def selectPrev (app : ReviewApp) : ReviewApp :=
  if 0 < app.selected then { app with selected := app.selected - 1, scroll := 0 } else app

/-- Marking a file reviewed goes on to the next; unmarking stays. -/
def toggleViewed (app : ReviewApp) : ReviewApp :=
  match app.viewed[app.selected]? with
  | none => app
  | some flag =>
      let app := { app with viewed := app.viewed.set app.selected (!flag) }
      if !flag then app.selectNext else app

def selectTreeRow (app : ReviewApp) (row : Nat) : ReviewApp :=
  match fileIndexAtRow app row with
  | none => app
  | some index => { app with selected := index, scroll := 0, focus := .sidebar }

def handleReview (app : ReviewApp) : AppEvent → ReviewApp
  | .next => app.selectNext
  | .prev => app.selectPrev
  | .toggleLayout => { app with layout := app.layout.toggled }
  | .scrollUp => { app with scroll := app.scroll - 1 }
  | .scrollDown => { app with scroll := min (app.scroll + 1) usizeMax }
  | .top => { app with selected := 0, scroll := 0 }
  | .bottom => { app with selected := app.ranked.length - 1, scroll := 0 }
  | .toggleFold => { app with view := { app.view with fold := !app.view.fold } }
  | .toggleWrap => { app with view := { app.view with wrapLines := !app.view.wrapLines } }
  | .toggleNotes => { app with view := { app.view with showNotes := !app.view.showNotes } }
  | .cycleTheme => { app with theme := app.theme.next }
  | .focusSidebar => { app with focus := .sidebar }
  | .focusDiff => { app with focus := .diff }
  | .select => { app with focus := .diff }
  | .toggleViewed => app.toggleViewed
  | .selectTreeRow row => app.selectTreeRow row
  | .toggleHelp => { app with overlay := .help }
  | .openPalette => { app with overlay := .palette, paletteIndex := 0 }
  | .cancel => { app with running := false }
  | .quit => app
  | .none => app

def handleHelp (app : ReviewApp) : AppEvent → ReviewApp
  | .toggleHelp => { app with overlay := .none }
  | .cancel => { app with overlay := .none }
  | _ => app

section
variable (run : Command → ReviewApp → CommandOutput)

def runSelectedCommand (app : ReviewApp) : Option ReviewApp := do
  let command ← Command.all[app.paletteIndex]?
  return { app with panel := run command app, panelScroll := 0, overlay := .panel }

def handlePalette (app : ReviewApp) (event : AppEvent) : Option ReviewApp :=
  let count := Command.all.length
  match event with
  | .next => some { app with paletteIndex := (app.paletteIndex + 1) % count }
  | .prev => some { app with paletteIndex := (app.paletteIndex + count - 1) % count }
  | .top => some { app with paletteIndex := 0 }
  | .bottom => some { app with paletteIndex := count - 1 }
  | .select => app.runSelectedCommand run
  | .cancel => some { app with overlay := .none }
  | .openPalette => some { app with overlay := .none }
  | _ => some app

def handlePanel (app : ReviewApp) : AppEvent → ReviewApp
  | .scrollDown => { app with panelScroll := min (app.panelScroll + 1) usizeMax }
  | .next => { app with panelScroll := min (app.panelScroll + 1) usizeMax }
  | .scrollUp => { app with panelScroll := app.panelScroll - 1 }
  | .prev => { app with panelScroll := app.panelScroll - 1 }
  | .top => { app with panelScroll := 0 }
  | .cancel => { app with overlay := .palette }
  | .openPalette => { app with overlay := .none }
  | _ => app

/-- An event, routed by the open overlay; quitting comes first. Nothing where an index is out of
range. -/
def handle (app : ReviewApp) (event : AppEvent) : Option ReviewApp :=
  if event = .quit then some { app with running := false }
  else
    match app.overlay with
    | .none => some (app.handleReview event)
    | .help => some (app.handleHelp event)
    | .palette => app.handlePalette run event
    | .panel => some (app.handlePanel event)

end

structure Unmoved (app next : ReviewApp) : Prop where
  selected : next.selected = app.selected
  scroll : next.scroll = app.scroll
  viewed : next.viewed = app.viewed
  layout : next.layout = app.layout
  theme : next.theme = app.theme
  focus : next.focus = app.focus
  view : next.view = app.view

structure Allowed (app : ReviewApp) (event : AppEvent) (next : ReviewApp) : Prop where
  modal : app.overlay ≠ .none → Unmoved app next
  viewed : ∀ i, next.viewed[i]? ≠ app.viewed[i]? →
    event = .toggleViewed ∧ app.overlay = .none ∧ i = app.selected
  running : app.running = true → next.running = false →
    event = .quit ∨ (event = .cancel ∧ app.overlay = .none)

section
variable (scan : Scan) (files : List ReviewFile)

theorem Sound.of (app next : ReviewApp) (sound : app.Sound scan files)
    (ranked : next.ranked = app.ranked) (content : next.content = app.content)
    (viewed : next.viewed.length = app.viewed.length)
    (selected : next.selected < app.ranked.length ∨ next.selected = app.selected ∨
      next.selected = 0)
    (palette : next.paletteIndex = app.paletteIndex ∨ next.paletteIndex < Command.all.length) :
    next.Sound scan files := by
  have aligned := sound.aligned
  refine ⟨⟨ranked.trans aligned.ranked, ?_, ?_, ?_⟩, ?_, ?_⟩
  · rw [content, ranked, aligned.paths]
  · rw [content]
    exact aligned.content
  · rw [viewed, ranked, aligned.viewed]
  · rw [ranked]
    rcases sound.selected with within | ⟨absent, zero⟩
    · left
      omega
    · rw [absent] at selected ⊢
      right
      refine ⟨rfl, ?_⟩
      rcases selected with below | same | zero'
      · cases below
      · exact same.trans zero
      · exact zero'
  · rcases palette with same | below
    · exact same ▸ sound.palette
    · exact below

theorem sound_selectNext (app : ReviewApp) (sound : app.Sound scan files) :
    app.selectNext.Sound scan files := by
  unfold selectNext
  split
  · rename_i below
    exact .of scan files app _ sound rfl rfl rfl (.inl below) (.inl rfl)
  · exact sound

theorem sound_selectPrev (app : ReviewApp) (sound : app.Sound scan files) :
    app.selectPrev.Sound scan files := by
  unfold selectPrev
  split
  · rename_i positive
    refine .of scan files app _ sound rfl rfl rfl ?_ (.inl rfl)
    rcases sound.selected with within | ⟨-, zero⟩
    · exact .inl (by change app.selected - 1 < app.ranked.length; omega)
    · omega
  · exact sound

theorem sound_toggleViewed (app : ReviewApp) (sound : app.Sound scan files) :
    app.toggleViewed.Sound scan files := by
  unfold toggleViewed
  split
  · exact sound
  · rename_i flag held
    have flipped : { app with viewed := app.viewed.set app.selected (!flag) }.Sound scan files :=
      .of scan files app _ sound rfl rfl List.length_set (.inr (.inl rfl)) (.inl rfl)
    dsimp only
    split
    · exact sound_selectNext scan files _ flipped
    · exact flipped

theorem sound_selectTreeRow (app : ReviewApp) (row : Nat) (sound : app.Sound scan files) :
    (app.selectTreeRow row).Sound scan files := by
  unfold selectTreeRow
  split
  · exact sound
  · rename_i index found
    exact .of scan files app _ sound rfl rfl rfl (.inl (fileIndexAtRow_lt app row index found))
      (.inl rfl)

theorem sound_handleReview (app : ReviewApp) (event : AppEvent) (sound : app.Sound scan files) :
    (app.handleReview event).Sound scan files := by
  have kept (next : ReviewApp) (ranked : next.ranked = app.ranked)
      (content : next.content = app.content) (viewed : next.viewed = app.viewed)
      (selected : next.selected = app.selected)
      (palette : next.paletteIndex = app.paletteIndex) : next.Sound scan files :=
    .of scan files app next sound ranked content (congrArg _ viewed) (.inr (.inl selected))
      (.inl palette)
  cases event with
  | next => exact sound_selectNext scan files app sound
  | prev => exact sound_selectPrev scan files app sound
  | toggleViewed => exact sound_toggleViewed scan files app sound
  | selectTreeRow row => exact sound_selectTreeRow scan files app row sound
  | top => exact .of scan files app _ sound rfl rfl rfl (.inr (.inr rfl)) (.inl rfl)
  | bottom =>
    refine .of scan files app _ sound rfl rfl rfl ?_ (.inl rfl)
    change app.ranked.length - 1 < app.ranked.length ∨ _ ∨ app.ranked.length - 1 = 0
    omega
  | openPalette =>
    exact .of scan files app _ sound rfl rfl rfl (.inr (.inl rfl)) (.inr (by decide : 0 < 9))
  | _ => exact kept _ rfl rfl rfl rfl rfl

structure Inert (app next : ReviewApp) : Prop where
  unmoved : Unmoved app next
  running : next.running = app.running
  sound : ∀ scan files, app.Sound scan files → next.Sound scan files

theorem Inert.of (app next : ReviewApp) (unmoved : Unmoved app next)
    (running : next.running = app.running) (ranked : next.ranked = app.ranked)
    (content : next.content = app.content)
    (palette : next.paletteIndex = app.paletteIndex ∨ next.paletteIndex < Command.all.length) :
    Inert app next :=
  ⟨unmoved, running, fun scan files sound => .of scan files app next sound ranked content
    (congrArg _ unmoved.viewed) (.inr (.inl unmoved.selected)) palette⟩

theorem inert_handleHelp (app : ReviewApp) (event : AppEvent) :
    Inert app (app.handleHelp event) := by
  have same : Unmoved app app := ⟨rfl, rfl, rfl, rfl, rfl, rfl, rfl⟩
  cases event with
  | toggleHelp => exact .of app _ ⟨rfl, rfl, rfl, rfl, rfl, rfl, rfl⟩ rfl rfl rfl (.inl rfl)
  | cancel => exact .of app _ ⟨rfl, rfl, rfl, rfl, rfl, rfl, rfl⟩ rfl rfl rfl (.inl rfl)
  | _ => exact .of app app same rfl rfl rfl (.inl rfl)

theorem inert_handlePanel (app : ReviewApp) (event : AppEvent) :
    Inert app (app.handlePanel event) := by
  have same (next : ReviewApp) (panel : CommandOutput) (panelScroll : Nat) (overlay : Overlay)
      (made : next = { app with panel, panelScroll, overlay }) : Inert app next := by
    subst made
    exact .of app _ ⟨rfl, rfl, rfl, rfl, rfl, rfl, rfl⟩ rfl rfl rfl (.inl rfl)
  cases event <;> exact same _ app.panel _ _ rfl

theorem inert_handlePalette (run : Command → ReviewApp → CommandOutput) (app : ReviewApp)
    (event : AppEvent) (palette : app.paletteIndex < Command.all.length) :
    ∃ next, app.handlePalette run event = some next ∧ Inert app next := by
  have unmoved (next : ReviewApp) (overlay : Overlay) (paletteIndex : Nat)
      (below : paletteIndex < Command.all.length)
      (made : next = { app with overlay, paletteIndex }) : Inert app next := by
    subst made
    exact .of app _ ⟨rfl, rfl, rfl, rfl, rfl, rfl, rfl⟩ rfl rfl rfl (.inr below)
  have positive : 0 < Command.all.length := by decide
  cases event with
  | next => exact ⟨_, rfl, unmoved _ app.overlay _ (Nat.mod_lt _ positive) rfl⟩
  | prev => exact ⟨_, rfl, unmoved _ app.overlay _ (Nat.mod_lt _ positive) rfl⟩
  | top => exact ⟨_, rfl, unmoved _ app.overlay _ positive rfl⟩
  | bottom => exact ⟨_, rfl, unmoved _ app.overlay _ (by decide : 8 < 9) rfl⟩
  | select =>
    refine ⟨{ app with
      panel := run Command.all[app.paletteIndex] app, panelScroll := 0, overlay := .panel },
      ?_, ?_⟩
    · change app.runSelectedCommand run = _
      rw [runSelectedCommand, List.getElem?_eq_getElem palette]
      rfl
    · exact .of app _ ⟨rfl, rfl, rfl, rfl, rfl, rfl, rfl⟩ rfl rfl rfl (.inl rfl)
  | cancel => exact ⟨_, rfl, unmoved _ .none _ palette rfl⟩
  | openPalette => exact ⟨_, rfl, unmoved _ .none _ palette rfl⟩
  | _ => exact ⟨app, rfl, unmoved app app.overlay _ palette rfl⟩

theorem viewed_handleReview (app : ReviewApp) (event : AppEvent) (i : Nat)
    (changed : (app.handleReview event).viewed[i]? ≠ app.viewed[i]?) :
    event = .toggleViewed ∧ i = app.selected := by
  have nextViewed (app : ReviewApp) : app.selectNext.viewed = app.viewed := by
    unfold selectNext
    split <;> rfl
  cases event with
  | next => exact absurd (by rw [handleReview, nextViewed]) changed
  | prev =>
    have same : app.selectPrev.viewed = app.viewed := by
      unfold selectPrev
      split <;> rfl
    exact absurd (by rw [handleReview, same]) changed
  | selectTreeRow row =>
    have same : (app.selectTreeRow row).viewed = app.viewed := by
      unfold selectTreeRow
      split <;> rfl
    exact absurd (by rw [handleReview, same]) changed
  | toggleViewed =>
    refine ⟨rfl, ?_⟩
    by_contra other
    refine changed ?_
    rw [handleReview, toggleViewed]
    split
    · rfl
    · dsimp only
      have kept (flag : Bool) : (app.viewed.set app.selected flag)[i]? = app.viewed[i]? :=
        List.getElem?_set_ne (Ne.symm other)
      split
      · rw [nextViewed]
        exact kept _
      · exact kept _
  | _ => exact absurd rfl changed

theorem running_handleReview (app : ReviewApp) (event : AppEvent) (other : event ≠ .cancel) :
    (app.handleReview event).running = app.running := by
  have nextRunning (app : ReviewApp) : app.selectNext.running = app.running := by
    unfold selectNext
    split <;> rfl
  cases event with
  | cancel => exact absurd rfl other
  | next => exact nextRunning app
  | prev =>
    rw [handleReview, selectPrev]
    split <;> rfl
  | selectTreeRow row =>
    rw [handleReview, selectTreeRow]
    split <;> rfl
  | toggleViewed =>
    rw [handleReview, toggleViewed]
    split
    · rfl
    · dsimp only
      split
      · exact nextRunning _
      · rfl
  | _ => rfl

theorem handle_allowed (run : Command → ReviewApp → CommandOutput) (app : ReviewApp)
    (event : AppEvent) (sound : app.Sound scan files) :
    ∃ next, app.handle run event = some next ∧ next.Sound scan files ∧ Allowed app event next := by
  by_cases quit : event = .quit
  · refine ⟨{ app with running := false }, if_pos quit, ?_, ?_⟩
    · exact .of scan files app _ sound rfl rfl rfl (.inr (.inl rfl)) (.inl rfl)
    · exact ⟨fun _ => ⟨rfl, rfl, rfl, rfl, rfl, rfl, rfl⟩, fun i changed => absurd rfl changed,
        fun _ _ => .inl quit⟩
  · have modal (next : ReviewApp) (inert : Inert app next) :
        next.Sound scan files ∧ Allowed app event next := by
      refine ⟨inert.sound scan files sound, fun _ => inert.unmoved, fun i changed => ?_,
        fun on off => ?_⟩
      · rw [inert.unmoved.viewed] at changed
        exact absurd rfl changed
      · rw [inert.running, on] at off
        cases off
    unfold handle
    rw [if_neg quit]
    cases overlay : app.overlay with
    | none =>
      refine ⟨_, rfl, sound_handleReview scan files app event sound,
        fun opened => absurd overlay opened, fun i changed => ?_, fun on off => ?_⟩
      · obtain ⟨marked, own⟩ := viewed_handleReview app event i changed
        exact ⟨marked, overlay, own⟩
      · by_cases cancel : event = .cancel
        · exact .inr ⟨cancel, overlay⟩
        · rw [running_handleReview app event cancel, on] at off
          cases off
    | help => exact ⟨_, rfl, modal _ (inert_handleHelp app event)⟩
    | palette =>
      obtain ⟨next, handled, inert⟩ := inert_handlePalette run app event sound.palette
      exact ⟨next, handled, modal next inert⟩
    | panel => exact ⟨_, rfl, modal _ (inert_handlePanel app event)⟩

def session (run : Command → ReviewApp → CommandOutput) (annotations : List AgentAnnotation)
    (events : List AppEvent) : Option ReviewApp :=
  Machine.run (handle run) (fromReviewWithAnnotations scan files annotations) events

theorem session_sound (run : Command → ReviewApp → CommandOutput)
    (annotations : List AgentAnnotation) (events : List AppEvent)
    (distinct : (files.map (·.path)).Nodup) :
    ∃ app, session scan files run annotations events = some app ∧ app.Sound scan files := by
  have first := sound_fromReview scan files annotations distinct
  unfold session
  generalize fromReviewWithAnnotations scan files annotations = app at first
  induction events generalizing app with
  | nil => exact ⟨app, rfl, first⟩
  | cons event events ih =>
    obtain ⟨next, handled, sound, -⟩ := handle_allowed scan files run app event first
    obtain ⟨last, ran, kept⟩ := ih next sound
    exact ⟨last, by rw [Machine.run, handled]; exact ran, kept⟩

/-- In every state a session of a review of distinct paths reaches, the vectors name the input
files alike, the indices are in range, and the next event does no more than it may. -/
theorem session_invariants (run : Command → ReviewApp → CommandOutput)
    (annotations : List AgentAnnotation) (events : List AppEvent)
    (distinct : (files.map (·.path)).Nodup) :
    ∃ app, session scan files run annotations events = some app ∧
      (app.content.length = app.ranked.length ∧ app.viewed.length = app.ranked.length) ∧
      (app.content.map (·.path) = app.ranked.map (·.path) ∧ app.content.Perm files) ∧
      (if files = [] then app.selected = 0 else app.selected < app.ranked.length) ∧
      app.paletteIndex < Command.all.length ∧
      ∀ event, ∃ next, app.handle run event = some next ∧ Allowed app event next := by
  obtain ⟨app, reached, sound⟩ := session_sound scan files run annotations events distinct
  have aligned := sound.aligned
  have sizes := congrArg List.length aligned.paths
  rw [List.length_map, List.length_map] at sizes
  refine ⟨app, reached, ⟨sizes, aligned.viewed⟩, ⟨aligned.paths, aligned.content⟩, ?_,
    sound.palette, fun event => ?_⟩
  · have count := aligned.content.length_eq
    split
    · rename_i absent
      rw [absent, List.length_nil] at count
      rcases sound.selected with within | ⟨-, zero⟩
      · omega
      · exact zero
    · rename_i present
      rcases sound.selected with within | ⟨empty, -⟩
      · exact within
      · rw [empty, List.length_nil] at sizes
        exact absurd (List.length_eq_zero_iff.1 (count.symm.trans sizes)) present
  · obtain ⟨next, handled, -, allowed⟩ := handle_allowed scan files run app event sound
    exact ⟨next, handled, allowed⟩

end

theorem session_invariants_two :
    let files := [bareFile "a/x".toList, bareFile "b".toList]
    let run (_ : Command) (_ : ReviewApp) : CommandOutput := ⟨"rank".toList, []⟩
    ∃ app, session lexical files run [] [.toggleViewed, .openPalette, .select] = some app ∧
      app.content.Perm files ∧ ∃ next, app.handle run .cancel = some next ∧
        Allowed app .cancel next := by
  intro files run
  have kept := session_invariants lexical files run [] [.toggleViewed, .openPalette, .select]
    (by decide)
  obtain ⟨app, reached, -, aligned, -, -, allowed⟩ := kept
  exact ⟨app, reached, aligned.2, allowed .cancel⟩

end ReviewApp

end DeepDiffForge.Tui
