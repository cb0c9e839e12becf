import Hmix.Model.Accounts
import Hmix.Model.Home
import Hmix.Model.Settings

/-!
# The settings that are stored

Four keys of the storage have what the user set: the two sizes of the home
component, the URL, and the settings of the compiler. The sizes and the
compiler's settings are held by the page too, which reads them from the storage
when it is loaded. What was set last is kept for the statements only.
-/

namespace Hmix

/-- What the user sets. -/
inductive UserSetting where
  | sidebarWidth
  | terminalHeight
  | rpcUrl
  | compilerSettings
  deriving DecidableEq

namespace UserSetting

/-- Where it is stored. -/
def key : UserSetting → StorageKey
  | sidebarWidth => .sidebarWidth
  | terminalHeight => .terminalHeight
  | rpcUrl => .rpcUrl
  | compilerSettings => .compilerSettings

/-- What is read where nothing is stored. -/
def default : UserSetting → Json
  | sidebarWidth => .num defaultSidebarWidth
  | terminalHeight => .num defaultTerminalHeight
  | rpcUrl => .str defaultRpcUrl
  | compilerSettings => ICompilerSettings.initial.toJson

/-- **What is read of a storage**: by `ngOnInit`, by the getter of `rpcUrl`, and
by `loadSettings`. -/
def stored (storage : LocalStorage) : UserSetting → Json
  | sidebarWidth => .num (HomeComponent.storedSize storage .sidebarWidth defaultSidebarWidth)
  | terminalHeight => .num (HomeComponent.storedSize storage .terminalHeight defaultTerminalHeight)
  | rpcUrl => Hmix.rpcUrl storage
  | compilerSettings => (loadSettings storage).toJson

end UserSetting

/-- A setter is called, and its write refused or not. -/
structure SetTo where
  setting : UserSetting
  value : Json
  refused : Bool

/-- **The page**, as far as settings go. -/
structure SettingsPage where
  home : HomeComponent
  settings : ICompilerSettings
  /-- What was set last, by a setter that returned. -/
  last : UserSetting → Option Json

/-- What happens to the settings. -/
inductive SettingsEvent where
  /-- Of the home component: the window may have any size by then. -/
  | home (window : WindowSize) (e : HomeEvent)
  | setRpcUrl (url : String) (refused : Bool)
  | setUseWebWorker (useWebWorker refused : Bool)
  | setAutoCompile (autoCompile refused : Bool)
  | setOptimize (optimize refused : Bool)
  /-- The file service writes. -/
  | write (key : StorageKey) (text : Text)

namespace HomeComponent

variable (window : WindowSize) (home : HomeComponent)

/-- The width a drag sets. -/
def draggedWidth (currentX : ℚ) : ℚ :=
  if minSidebarWidth < currentX then
    min (max (home.sidebarWidth + currentX - home.lastX) minSidebarWidth) window.maxSidebarWidth
  else 0

/-- The height a drag sets. -/
def draggedHeight (currentY : ℚ) : ℚ :=
  if currentY < window.windowHeight - minTerminalHeight then
    min (max (home.terminalHeight - currentY + home.lastY) minTerminalHeight)
      window.maxTerminalHeight
  else minTerminalHeight

/-- **The setter an event calls**, if it calls one. A reload sets both sizes, to
what is stored: the user sets nothing. -/
def sets : HomeEvent → Option SetTo
  | .mouseMove clientX clientY refuses =>
    if home.resizingSidebar then
      some ⟨.sidebarWidth, .num (home.draggedWidth window clientX), refuses .sidebarWidth⟩
    else if home.resizingTerminal then
      some ⟨.terminalHeight, .num (home.draggedHeight window clientY), refuses .terminalHeight⟩
    else none
  | .activeTabChange refuses =>
    if home.sidebarWidth < minSidebarWidth then
      some ⟨.sidebarWidth, .num defaultSidebarWidth, refuses .sidebarWidth⟩
    else none
  | .terminalOpenRequest refuses =>
    if home.terminalHeight < minTerminalHeight then
      some ⟨.terminalHeight, .num minTerminalHeight, refuses .terminalHeight⟩
    else none
  | .resizeSidebar _ | .resizeTerminal _ | .mouseUp | .reload _ => none

/-- `StorageService.set`, of another service. -/
def write (refused : Bool) (key : StorageKey) (text : Text) : HomeComponent :=
  if refused then home else { home with storage := home.storage.setItem key text }

section

variable (refused : Bool) (key : StorageKey) (text : Text)

theorem storage_write : (home.write refused key text).storage =
    if refused then home.storage else home.storage.setItem key text := by
  unfold write
  split_ifs <;> rfl

@[simp] theorem subscribed_write : (home.write refused key text).subscribed = home.subscribed := by
  unfold write
  split_ifs <;> rfl

@[simp] theorem sidebarWidth_write :
    (home.write refused key text).sidebarWidth = home.sidebarWidth := by
  unfold write
  split_ifs <;> rfl

@[simp] theorem terminalHeight_write :
    (home.write refused key text).terminalHeight = home.terminalHeight := by
  unfold write
  split_ifs <;> rfl

end

end HomeComponent

namespace SettingsPage

variable (x : SettingsPage)

/-- The setter of `rpcUrl`. -/
def setRpcUrl (url : String) (refused : Bool) : SettingsPage :=
  { x with home := x.home.write refused .rpcUrl (Json.stringify (some (.str url))) }

/-- The compiler's settings are others, and are saved. -/
def setSettings (settings : ICompilerSettings) (refused : Bool) : SettingsPage :=
  { x with
    settings := settings
    home := x.home.write refused .compilerSettings (Json.stringify (some settings.toJson)) }

/-- **The setter an event calls**, if it calls one. -/
def sets : SettingsEvent → Option SetTo
  | .home window e => x.home.sets window e
  | .setRpcUrl url refused => some ⟨.rpcUrl, .str url, refused⟩
  | .setUseWebWorker useWebWorker refused =>
    some ⟨.compilerSettings, { x.settings with useWebWorker := useWebWorker }.toJson, refused⟩
  | .setAutoCompile autoCompile refused =>
    some ⟨.compilerSettings, { x.settings with autoCompile := autoCompile }.toJson, refused⟩
  | .setOptimize optimize refused =>
    some ⟨.compilerSettings, { x.settings with optimize := optimize }.toJson, refused⟩
  | .write _ _ => none

/-- What an event does to the page. -/
def act : SettingsEvent → SettingsPage
  | .home window e =>
    let home := (homeDesk window).step x.home e
    match e with
    | .reload _ => { x with home := home, settings := loadSettings x.home.storage }
    | _ => { x with home := home }
  | .setRpcUrl url refused => x.setRpcUrl url refused
  | .setUseWebWorker useWebWorker refused =>
    x.setSettings { x.settings with useWebWorker := useWebWorker } refused
  | .setAutoCompile autoCompile refused =>
    x.setSettings { x.settings with autoCompile := autoCompile } refused
  | .setOptimize optimize refused =>
    x.setSettings { x.settings with optimize := optimize } refused
  | .write key text => { x with home := x.home.write false key text }

/-- The last value of a setting is the one of a setter that returned. -/
def noted (last : UserSetting → Option Json) : Option SetTo → UserSetting → Option Json
  | some ⟨setting, value, false⟩ => Function.update last setting (some value)
  | _ => last

end SettingsPage

/-- **The settings in a run**, from when the first page is loaded. -/
def settingsDesk : Machine SettingsPage SettingsEvent where
  start := fun x => ∃ storage refuses, (∀ setting : UserSetting, storage setting.key = none) ∧
    x = ⟨.load refuses storage, loadSettings storage, fun _ => none⟩
  enabled := fun x e =>
    match e with
    | .home window e => (homeDesk window).enabled x.home e
    | .write key _ => key = .files ∨ key = .selectedFile
    | _ => True
  step := fun x e => { x.act e with last := SettingsPage.noted x.last (x.sets e) }

end Hmix
