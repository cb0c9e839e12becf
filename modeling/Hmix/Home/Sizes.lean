import Hmix.Model.Home
import Mathlib.Tactic.Linarith

/-!
# The sizes stay in the window

Every assignment to a size is of a constant that fits, or is clamped to the
window as it is, or is of a size that was stored, and only such sizes are
ever stored. So no position the mouse can have, and no drag that was left
unfinished, makes a panel too large or the editor too small.
-/

namespace Hmix

open HomeComponent

/-! ## The bounds -/

/-- The sidebar is closed, or within its bounds. -/
def SidebarFits (window : WindowSize) (width : ℚ) : Prop :=
  width = 0 ∨ minSidebarWidth ≤ width ∧ width ≤ window.maxSidebarWidth

/-- The terminal is within its bounds. -/
def TerminalFits (window : WindowSize) (height : ℚ) : Prop :=
  minTerminalHeight ≤ height ∧ height ≤ window.maxTerminalHeight

/-- A size with `P` is stored under the key, or none. -/
def StoredFits (P : ℚ → Prop) (storage : LocalStorage) (key : StorageKey) : Prop :=
  ∀ value ∈ storage key, ∃ size, P size ∧ value = Json.stringify (some (.num size))

/-- **The sizes are in the window**, in storage, and on a page that is up. -/
structure InWindow (window : WindowSize) (home : HomeComponent) : Prop where
  storedWidth : StoredFits (SidebarFits window) home.storage .sidebarWidth
  storedHeight : StoredFits (TerminalFits window) home.storage .terminalHeight
  sidebarWidth : home.subscribed = true → SidebarFits window home.sidebarWidth
  terminalHeight : home.subscribed = true → TerminalFits window home.terminalHeight

section

variable {P : ℚ → Prop} {storage : LocalStorage} {key key' : StorageKey}

theorem StoredFits.setItem {size : ℚ} (hsize : P size) :
    StoredFits P (storage.setItem key (Json.stringify (some (.num size)))) key := by
  intro value hvalue
  refine ⟨size, hsize, ?_⟩
  simpa [LocalStorage.setItem, eq_comm] using hvalue

theorem StoredFits.setItem_of_ne (h : StoredFits P storage key) (hne : key ≠ key') (text : Text) :
    StoredFits P (storage.setItem key' text) key := by
  intro value hvalue
  refine h value ?_
  simpa [LocalStorage.setItem, hne] using hvalue

/-- What is stored fits, or the default is taken. -/
theorem StoredFits.storedSize (h : StoredFits P storage key) {default : ℚ} (hdefault : P default) :
    P (storedSize storage key default) := by
  unfold HomeComponent.storedSize StorageService.get
  rcases hvalue : storage key with - | value
  · exact hdefault
  · obtain ⟨size, hsize, rfl⟩ := h value hvalue
    simp only [Json.parse_stringify_some, Option.getD_some]
    split_ifs
    · exact hdefault
    · exact hsize

end

/-! ## The setters -/

section

variable {window : WindowSize} {refuses : StorageKey → Bool} {home : HomeComponent} {size : ℚ}

theorem wp_store {key : StorageKey} {Q : PUnit → HomeComponent → Prop}
    {E : Thrown → HomeComponent → Prop}
    (hE : refuses key = true → E .quotaExceeded home)
    (hQ : refuses key = false → Q ⟨⟩ { home with
      storage := home.storage.setItem key (Json.stringify (some (.num size))) }) :
    wp (store refuses key size) Q E home := by
  unfold store
  split
  · exact hE ‹_›
  · exact hQ (Bool.eq_false_of_not_eq_true ‹_›)

/-- **The setter of the width.** The write may be refused, after the assignment. -/
theorem wp_setSidebarWidth {Q : PUnit → HomeComponent → Prop} {E : Thrown → HomeComponent → Prop}
    (hE : refuses .sidebarWidth = true → E .quotaExceeded { home with sidebarWidth := size })
    (hQ : refuses .sidebarWidth = false → Q ⟨⟩ { home with
      sidebarWidth := size
      storage := home.storage.setItem .sidebarWidth (Json.stringify (some (.num size))) }) :
    wp (setSidebarWidth refuses size) Q E home := by
  simp only [setSidebarWidth, wp_bind, wp_modify]
  exact wp_store hE hQ

theorem wp_setTerminalHeight {Q : PUnit → HomeComponent → Prop}
    {E : Thrown → HomeComponent → Prop}
    (hE : refuses .terminalHeight = true → E .quotaExceeded { home with terminalHeight := size })
    (hQ : refuses .terminalHeight = false → Q ⟨⟩ { home with
      terminalHeight := size
      storage := home.storage.setItem .terminalHeight (Json.stringify (some (.num size))) }) :
    wp (setTerminalHeight refuses size) Q E home := by
  simp only [setTerminalHeight, wp_bind, wp_modify]
  exact wp_store hE hQ

/-- **What a drag of the sidebar's divider leaves.** Where the write is refused
the position is not recorded. -/
theorem after_dragSidebar {currentX width : ℚ} (hwidth : width =
    if minSidebarWidth < currentX then
      min (max (home.sidebarWidth + currentX - home.lastX) minSidebarWidth) window.maxSidebarWidth
    else 0) :
    after (dragSidebar window refuses currentX) home = { home with
      storage := if refuses .sidebarWidth then home.storage
        else home.storage.setItem .sidebarWidth (Json.stringify (some (.num width)))
      sidebarWidth := width
      lastX := if refuses .sidebarWidth then home.lastX else currentX } := by
  refine (wp_iff_after (I := fun home' => home' = _)).1 ?_
  simp only [dragSidebar, wp_bind, wp_get]
  by_cases hopen : minSidebarWidth < currentX
  · rw [if_pos hopen] at hwidth ⊢
    subst hwidth
    exact wp_bind.2 (wp_setSidebarWidth (fun h => by simp [h]) fun h => by simp [h])
  · rw [if_neg hopen] at hwidth ⊢
    subst hwidth
    exact wp_bind.2 (wp_setSidebarWidth (fun h => by simp [h]) fun h => by simp [h])

theorem after_dragTerminal {currentY height : ℚ} (hheight : height =
    if currentY < window.windowHeight - minTerminalHeight then
      min (max (home.terminalHeight - currentY + home.lastY) minTerminalHeight)
        window.maxTerminalHeight
    else minTerminalHeight) :
    after (dragTerminal window refuses currentY) home = { home with
      storage := if refuses .terminalHeight then home.storage
        else home.storage.setItem .terminalHeight (Json.stringify (some (.num height)))
      terminalHeight := height
      lastY := if refuses .terminalHeight then home.lastY else currentY } := by
  refine (wp_iff_after (I := fun home' => home' = _)).1 ?_
  simp only [dragTerminal, wp_bind, wp_get]
  by_cases hhigh : currentY < window.windowHeight - minTerminalHeight
  · rw [if_pos hhigh] at hheight ⊢
    subst hheight
    exact wp_bind.2 (wp_setTerminalHeight (fun h => by simp [h]) fun h => by simp [h])
  · rw [if_neg hhigh] at hheight ⊢
    subst hheight
    exact wp_bind.2 (wp_setTerminalHeight (fun h => by simp [h]) fun h => by simp [h])

/-- **A width that fits may be set.** -/
theorem preserves_setSidebarWidth (hsize : SidebarFits window size) :
    Preserves (InWindow window) (setSidebarWidth refuses size) := fun _ h =>
  wp_setSidebarWidth (fun _ => ⟨h.storedWidth, h.storedHeight, fun _ => hsize, h.terminalHeight⟩)
    fun _ => ⟨.setItem hsize, h.storedHeight.setItem_of_ne (by decide) _, fun _ => hsize,
      h.terminalHeight⟩

theorem preserves_setTerminalHeight (hsize : TerminalFits window size) :
    Preserves (InWindow window) (setTerminalHeight refuses size) := fun _ h =>
  wp_setTerminalHeight (fun _ => ⟨h.storedWidth, h.storedHeight, h.sidebarWidth, fun _ => hsize⟩)
    fun _ => ⟨h.storedWidth.setItem_of_ne (by decide) _, .setItem hsize, h.sidebarWidth,
      fun _ => hsize⟩

end

/-! ## The handlers -/

/-- A window that has room for the panels. -/
structure Roomy (window : WindowSize) : Prop where
  windowWidth : 350 ≤ window.windowWidth
  windowHeight : 350 ≤ window.windowHeight

/-- **A clamped size is within its bounds.** -/
theorem clamped {lo hi : ℚ} (h : lo ≤ hi) (size : ℚ) :
    lo ≤ min (max size lo) hi ∧ min (max size lo) hi ≤ hi :=
  ⟨le_min (le_max_right size lo) h, min_le_right _ hi⟩

section

variable {window : WindowSize}

theorem Roomy.sidebar (h : Roomy window) : minSidebarWidth ≤ window.maxSidebarWidth := by
  have := h.windowWidth
  unfold WindowSize.maxSidebarWidth minSidebarWidth
  linarith

theorem Roomy.terminal (h : Roomy window) : minTerminalHeight ≤ window.maxTerminalHeight := by
  have := h.windowHeight
  unfold WindowSize.maxTerminalHeight minTerminalHeight
  linarith

theorem Roomy.defaultSidebarWidth (h : Roomy window) :
    SidebarFits window defaultSidebarWidth := by
  have := h.windowWidth
  refine .inr ⟨by norm_num [minSidebarWidth, Hmix.defaultSidebarWidth], ?_⟩
  unfold WindowSize.maxSidebarWidth minSidebarWidth Hmix.defaultSidebarWidth
  linarith

theorem Roomy.defaultTerminalHeight (h : Roomy window) :
    TerminalFits window defaultTerminalHeight := by
  have := h.windowHeight
  refine ⟨by norm_num [minTerminalHeight, Hmix.defaultTerminalHeight], ?_⟩
  unfold WindowSize.maxTerminalHeight minTerminalHeight Hmix.defaultTerminalHeight
  linarith

variable {refuses : StorageKey → Bool}

theorem preserves_dragSidebar (hroomy : Roomy window) (currentX : ℚ) :
    Preserves (InWindow window) (dragSidebar window refuses currentX) := by
  intro home h
  have hlast : Preserves (InWindow window)
      (modify fun home => { home with lastX := currentX } : Handler PUnit) := preserves_modify
    fun _ h => ⟨h.storedWidth, h.storedHeight, h.sidebarWidth, h.terminalHeight⟩
  simp only [dragSidebar, wp_bind, wp_get]
  -- the pointer is where the sidebar may be open, or the sidebar closes
  split
  · have hsize := clamped hroomy.sidebar (home.sidebarWidth + currentX - home.lastX)
    exact (preserves_setSidebarWidth (.inr hsize)).bind (fun _ => hlast) home h
  · exact (preserves_setSidebarWidth (.inl rfl)).bind (fun _ => hlast) home h

theorem preserves_dragTerminal (hroomy : Roomy window) (currentY : ℚ) :
    Preserves (InWindow window) (dragTerminal window refuses currentY) := by
  intro home h
  have hlast : Preserves (InWindow window)
      (modify fun home => { home with lastY := currentY } : Handler PUnit) := preserves_modify
    fun _ h => ⟨h.storedWidth, h.storedHeight, h.sidebarWidth, h.terminalHeight⟩
  simp only [dragTerminal, wp_bind, wp_get]
  -- the terminal never closes: below its bound it is at its bound
  split
  · have hsize := clamped hroomy.terminal (home.terminalHeight - currentY + home.lastY)
    exact (preserves_setTerminalHeight hsize).bind (fun _ => hlast) home h
  · exact (preserves_setTerminalHeight ⟨le_rfl, hroomy.terminal⟩).bind (fun _ => hlast) home h

theorem preserves_onMouseMove (hroomy : Roomy window) (clientX clientY : ℚ) :
    Preserves (InWindow window) (onMouseMove window refuses clientX clientY) := by
  intro home h
  simp only [onMouseMove, wp_bind, wp_get, wp_ite]
  refine ⟨fun _ => preserves_dragSidebar hroomy clientX home h, fun _ => ⟨fun _ => ?_, fun _ => h⟩⟩
  exact preserves_dragTerminal hroomy clientY home h

theorem preserves_onActiveTabChange (hroomy : Roomy window) :
    Preserves (InWindow window) (onActiveTabChange refuses) := by
  intro home h
  simp only [onActiveTabChange, wp_bind, wp_get, wp_ite]
  exact ⟨fun _ => preserves_setSidebarWidth hroomy.defaultSidebarWidth home h, fun _ => h⟩

theorem preserves_onTerminalOpenRequest (hroomy : Roomy window) :
    Preserves (InWindow window) (onTerminalOpenRequest refuses) := by
  intro home h
  simp only [onTerminalOpenRequest, wp_bind, wp_get, wp_ite]
  exact ⟨fun _ => preserves_setTerminalHeight ⟨le_rfl, hroomy.terminal⟩ home h, fun _ => h⟩

/-- **A page is loaded** from sizes that fit. -/
theorem inWindow_load (hroomy : Roomy window) {storage : LocalStorage}
    (hwidth : StoredFits (SidebarFits window) storage .sidebarWidth)
    (hheight : StoredFits (TerminalFits window) storage .terminalHeight) :
    InWindow window (load refuses storage) := by
  have hsidebar := hwidth.storedSize hroomy.defaultSidebarWidth
  refine (wp_iff_after (I := InWindow window)).1 ?_
  simp only [ngOnInit, wp_bind, wp_get]
  -- where a write is refused the page is not up, and nothing new was stored
  refine wp_setSidebarWidth (fun _ => ⟨hwidth, hheight, (absurd · Bool.false_ne_true),
    (absurd · Bool.false_ne_true)⟩) fun _ => ?_
  rw [wp_bind, wp_get, wp_bind]
  have hheight' : StoredFits (TerminalFits window) (storage.setItem .sidebarWidth (Json.stringify
      (some (.num (storedSize storage .sidebarWidth defaultSidebarWidth))))) .terminalHeight :=
    hheight.setItem_of_ne (by decide) _
  have hterminal := hheight'.storedSize hroomy.defaultTerminalHeight
  refine wp_setTerminalHeight (fun _ => ⟨.setItem hsidebar, hheight', (absurd · Bool.false_ne_true),
    (absurd · Bool.false_ne_true)⟩) fun _ => ?_
  exact ⟨(StoredFits.setItem hsidebar).setItem_of_ne (by decide) _, .setItem hterminal,
    fun _ => hsidebar, fun _ => hterminal⟩

theorem inWindow_step (hroomy : Roomy window) {home : HomeComponent} (h : InWindow window home)
    (e : HomeEvent) : InWindow window ((homeDesk window).step home e) := by
  cases e with
  | resizeSidebar clientX =>
    exact ⟨h.storedWidth, h.storedHeight, h.sidebarWidth, h.terminalHeight⟩
  | resizeTerminal clientY =>
    exact ⟨h.storedWidth, h.storedHeight, h.sidebarWidth, h.terminalHeight⟩
  | mouseUp => exact ⟨h.storedWidth, h.storedHeight, h.sidebarWidth, h.terminalHeight⟩
  | mouseMove clientX clientY refuses =>
    exact wp_iff_after.1 (preserves_onMouseMove hroomy clientX clientY home h)
  | activeTabChange refuses =>
    exact wp_iff_after.1 (preserves_onActiveTabChange hroomy home h)
  | terminalOpenRequest refuses =>
    exact wp_iff_after.1 (preserves_onTerminalOpenRequest hroomy home h)
  | reload refuses => exact inWindow_load hroomy h.storedWidth h.storedHeight

/-- **The panels stay in the window**, and leave room for the editor. -/
theorem sizes_stay_in_window (hwidth : 350 ≤ window.windowWidth)
    (hheight : 350 ≤ window.windowHeight) {home : HomeComponent}
    (h : (homeDesk window).Reachable home) (hup : home.subscribed = true) :
    SidebarFits window home.sidebarWidth ∧ TerminalFits window home.terminalHeight ∧
      100 ≤ home.editorWidth window ∧ 100 ≤ home.editorHeight window := by
  have hroomy : Roomy window := ⟨hwidth, hheight⟩
  have hin : InWindow window home := by
    refine h.invariant (I := InWindow window) ?_ fun home e hin _ => inWindow_step hroomy hin e
    rintro _ ⟨storage, refuses, hnone, hnone', rfl⟩
    refine inWindow_load hroomy (fun value hvalue => ?_) fun value hvalue => ?_
    · rw [hnone] at hvalue
      cases hvalue
    · rw [hnone'] at hvalue
      cases hvalue
  have hsidebar := hin.sidebarWidth hup
  have hterminal := hin.terminalHeight hup
  refine ⟨hsidebar, hterminal, ?_, ?_⟩
  · unfold HomeComponent.editorWidth tabsWidth
    rcases hsidebar with hzero | ⟨-, hmax⟩
    · linarith
    · unfold WindowSize.maxSidebarWidth minSidebarWidth at hmax
      linarith
  · have hmax := hterminal.2
    unfold WindowSize.maxTerminalHeight minTerminalHeight at hmax
    unfold HomeComponent.editorHeight
    linarith

/-- A page is opened, and the divider of the sidebar dragged out of the window. -/
def draggedSidebar : HomeComponent :=
  (homeDesk ⟨1024, 768⟩).run (load (fun _ => false) .empty)
    [.resizeSidebar 250, .mouseMove 5000 (-20) fun _ => false, .mouseUp]

theorem draggedSidebar_stays_in_window :
    SidebarFits ⟨1024, 768⟩ draggedSidebar.sidebarWidth ∧
      TerminalFits ⟨1024, 768⟩ draggedSidebar.terminalHeight ∧
      100 ≤ draggedSidebar.editorWidth ⟨1024, 768⟩ ∧
      100 ≤ draggedSidebar.editorHeight ⟨1024, 768⟩ := by
  have hreach : (homeDesk ⟨1024, 768⟩).Reachable draggedSidebar :=
    .run (.start ⟨.empty, fun _ => false, rfl, rfl, rfl⟩) ⟨rfl, rfl, rfl, trivial⟩
  exact sizes_stay_in_window (by norm_num) (by norm_num) hreach rfl

end

end Hmix
