import Hmix.Common.Machine
import Hmix.Common.Wp
import Hmix.Model.Storage
import Mathlib.Algebra.Order.Ring.Rat

/-!
# The home component

It keeps the width of the sidebar and the height of the terminal, and
changes them as the mouse drags one of two dividers. Every change is stored,
after it was made; a write that is refused throws, which ends the handler
there. Sizes and coordinates are exact.
-/

namespace Hmix

/-! ## The constants -/

/-- `TABS_WIDTH`. -/
def tabsWidth : ℚ := 50

/-- `DEFAULT_SIDEBAR_WIDTH`. -/
def defaultSidebarWidth : ℚ := 200

/-- `DEFAULT_TERMINAL_HEIGHT`. -/
def defaultTerminalHeight : ℚ := 250

/-- `MIN_SIDEBAR_WIDTH`. -/
def minSidebarWidth : ℚ := 150

/-- `MIN_TERMINAL_HEIGHT`. -/
def minTerminalHeight : ℚ := 100

/-- **The component**, and the storage it shares. A position that was not
recorded yet is not read. -/
structure HomeComponent where
  storage : LocalStorage
  terminalHeight : ℚ
  sidebarWidth : ℚ
  resizingSidebar : Bool
  resizingTerminal : Bool
  lastX : ℚ
  lastY : ℚ
  /-- `ngOnInit` has returned. -/
  subscribed : Bool

/-- The size of the window. -/
structure WindowSize where
  windowWidth : ℚ
  windowHeight : ℚ

namespace WindowSize

def maxSidebarWidth (window : WindowSize) : ℚ := window.windowWidth - minSidebarWidth

def maxTerminalHeight (window : WindowSize) : ℚ := window.windowHeight - minTerminalHeight

end WindowSize

namespace HomeComponent

/-- A program of the component. -/
abbrev Handler := EStateM Thrown HomeComponent

def editorWidth (window : WindowSize) (home : HomeComponent) : ℚ :=
  window.windowWidth - home.sidebarWidth - tabsWidth

def editorHeight (window : WindowSize) (home : HomeComponent) : ℚ :=
  window.windowHeight - home.terminalHeight

section Handlers

variable (window : WindowSize) (refuses : StorageKey → Bool)

/-- `StorageService.set`, of a size. -/
def store (key : StorageKey) (size : ℚ) : Handler PUnit :=
  if refuses key then throw .quotaExceeded
  else modify fun home => { home with
    storage := home.storage.setItem key (Json.stringify (some (.num size))) }

/-- The setter of `sidebarWidth`. -/
def setSidebarWidth (width : ℚ) : Handler PUnit := do
  modify fun home => { home with sidebarWidth := width }
  store refuses .sidebarWidth width

/-- The setter of `terminalHeight`. -/
def setTerminalHeight (height : ℚ) : Handler PUnit := do
  modify fun home => { home with terminalHeight := height }
  store refuses .terminalHeight height

/-- `storageService.get(key) || default`. Nothing but numbers is stored as a
size. -/
def storedSize (storage : LocalStorage) (key : StorageKey) (default : ℚ) : ℚ :=
  match StorageService.get storage key with
  | .num size => if size = 0 then default else size
  | _ => default

/-- **`ngOnInit`.** It ends with the two subscriptions. -/
def ngOnInit : Handler PUnit := do
  let home ← get
  setSidebarWidth refuses (storedSize home.storage .sidebarWidth defaultSidebarWidth)
  let home ← get
  setTerminalHeight refuses (storedSize home.storage .terminalHeight defaultTerminalHeight)
  modify fun home => { home with subscribed := true }

/-- The active tab changes. -/
def onActiveTabChange : Handler PUnit := do
  let home ← get
  if home.sidebarWidth < minSidebarWidth then setSidebarWidth refuses defaultSidebarWidth

/-- The terminal is asked to open. -/
def onTerminalOpenRequest : Handler PUnit := do
  let home ← get
  if home.terminalHeight < minTerminalHeight then setTerminalHeight refuses minTerminalHeight

/-- The sidebar's half of `onMouseMove`. -/
def dragSidebar (currentX : ℚ) : Handler PUnit := do
  let home ← get
  if minSidebarWidth < currentX then
    let newWidth := home.sidebarWidth + currentX - home.lastX
    setSidebarWidth refuses (min (max newWidth minSidebarWidth) window.maxSidebarWidth)
  else
    setSidebarWidth refuses 0
  modify fun home => { home with lastX := currentX }

/-- The terminal's half. -/
def dragTerminal (currentY : ℚ) : Handler PUnit := do
  let home ← get
  if currentY < window.windowHeight - minTerminalHeight then
    let newHeight := home.terminalHeight - currentY + home.lastY
    setTerminalHeight refuses (min (max newHeight minTerminalHeight) window.maxTerminalHeight)
  else
    setTerminalHeight refuses minTerminalHeight
  modify fun home => { home with lastY := currentY }

/-- **`onMouseMove`.** Where both are being resized it is the sidebar that is. -/
def onMouseMove (clientX clientY : ℚ) : Handler PUnit := do
  let home ← get
  if home.resizingSidebar then dragSidebar window refuses clientX
  else if home.resizingTerminal then dragTerminal window refuses clientY

end Handlers

/-- `onMouseUp`. -/
def onMouseUp : Handler PUnit :=
  modify fun home => { home with resizingSidebar := false, resizingTerminal := false }

/-- A mouse-down on the divider of the sidebar. -/
def resizeSidebar (clientX : ℚ) : Handler PUnit :=
  modify fun home => { home with resizingSidebar := true, lastX := clientX }

/-- A mouse-down on the divider of the terminal. -/
def resizeTerminal (clientY : ℚ) : Handler PUnit :=
  modify fun home => { home with resizingTerminal := true, lastY := clientY }

/-- The component as it is constructed. -/
def new (storage : LocalStorage) : HomeComponent where
  storage := storage
  terminalHeight := 0
  sidebarWidth := 0
  resizingSidebar := false
  resizingTerminal := false
  lastX := 0
  lastY := 0
  subscribed := false

/-- A page is loaded. -/
def load (refuses : StorageKey → Bool) (storage : LocalStorage) : HomeComponent :=
  after (ngOnInit refuses) (new storage)

end HomeComponent

/-! ## Runs -/

/-- What happens to the component. -/
inductive HomeEvent where
  | resizeSidebar (clientX : ℚ)
  | resizeTerminal (clientY : ℚ)
  | mouseMove (clientX clientY : ℚ) (refuses : StorageKey → Bool)
  | mouseUp
  | activeTabChange (refuses : StorageKey → Bool)
  | terminalOpenRequest (refuses : StorageKey → Bool)
  | reload (refuses : StorageKey → Bool)

open HomeComponent in
/-- **The component of a window that keeps its size**, from a first load without
stored sizes. A page that did not get through `ngOnInit` can only be loaded
again. -/
def homeDesk (window : WindowSize) : Machine HomeComponent HomeEvent where
  start := fun home => ∃ storage refuses, storage .sidebarWidth = none ∧
    storage .terminalHeight = none ∧ home = load refuses storage
  enabled := fun home e =>
    match e with
    | .reload _ => True
    | _ => home.subscribed = true
  step := fun home e =>
    match e with
    | .resizeSidebar clientX => after (resizeSidebar clientX) home
    | .resizeTerminal clientY => after (resizeTerminal clientY) home
    | .mouseMove clientX clientY refuses => after (onMouseMove window refuses clientX clientY) home
    | .mouseUp => after onMouseUp home
    | .activeTabChange refuses => after (onActiveTabChange refuses) home
    | .terminalOpenRequest refuses => after (onTerminalOpenRequest refuses) home
    | .reload refuses => load refuses home.storage

end Hmix
