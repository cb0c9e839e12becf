import Hmix.Model.CompileTab
import Hmix.Model.Desk
import Hmix.Model.Settings

/-!
# The page

The files, the settings and the compile tab of one window. A click on a
file, in the list or on an editor tab, selects the file and then requests a
compilation; a save that changes the content announces the file, before it
is written. The compile tab listens to both.
-/

namespace Hmix

/-- What the compile tab reads of the files. -/
def World.workspace (w : World) : Workspace where
  selectedFile := w.window.selectedFile.map fun f => (w.window.heap f).name
  content := w.window.text
  library := w.window.files.map fun f => ((w.window.heap f).name, (w.window.heap f).content)

/-- **A page**, of one window. -/
structure Page where
  files : World
  settings : ICompilerSettings
  tab : CompileTab

namespace Page

variable (ace : Ace) (p : Page)

/-- The page with its files as an operation left them. -/
def withFiles (files : World) : Page :=
  { p with files := files, tab := { p.tab with workspace := files.workspace } }

/-- The compile tab is told of a saved file, or of a requested compilation. -/
def notify : Page := { p with tab := p.tab.notified }

/-- A click on a file: what selects it, and `requestCompilation` if that
returns. -/
def click (op : Op) (refuses : Refusals) : Page :=
  match op.exec ace refuses p.files.begin with
  | .ok _ files => (p.withFiles files).notify
  | .error _ files => p.withFiles files

/-- The save shortcut. The file is announced with the name and the text the
save leaves as they are. -/
def save (refuses : Refusals) : Page :=
  let files := p.files.step ace .saveFile refuses
  if files.savedEvents.length = p.files.savedEvents.length then p.withFiles files
  else (p.withFiles files).notify

/-- The setter of `autoCompile`, and of the tab's. -/
def setAutoCompile (autoCompile : Bool) (refuses : Refusals) : Page :=
  let settings := { p.settings with autoCompile := autoCompile }
  { p with settings := settings, files := after (saveSettings refuses settings) p.files.begin }

end Page

/-! ## Runs -/

/-- What happens to a page. -/
inductive PageEvent where
  /-- What is done to the files by no click on one and no save. -/
  | files (op : Op) (refuses : Refusals)
  /-- `FileTabComponent.openFile`. -/
  | openFile (file : FileRef) (refuses : Refusals)
  /-- `EditorComponent.selectFile`. -/
  | selectFile (file : FileRef) (refuses : Refusals)
  | saveFile (refuses : Refusals)
  | setAutoCompile (autoCompile : Bool) (refuses : Refusals)
  | tab (e : TabEvent)

/-- Neither a save nor a reload. -/
def Op.Silent : Op → Prop
  | .saveFile | .reload => False
  | _ => True

/-- What comes to the compile tab from elsewhere than the files, and is
offered. -/
def TabEvent.Own : TabEvent → Prop
  | .change _ | .notified | .setOptimize _ => False
  | _ => True

/-- **A page**, from when it is opened, over any storage. It begins nothing
before its microtasks are done. -/
def pageDesk (ace : Ace) (scripts : Compiler → Prop) : Machine Page PageEvent where
  start := fun p => ∃ storage refuses hasWorker script, (∀ compiler ∈ script, scripts compiler) ∧
    let files := (World.opening storage).step ace .reload refuses
    let settings := loadSettings storage
    let service := .new hasWorker settings.useWebWorker settings.optimize
    p = ⟨files, settings, (CompileTab.new service files.workspace).loadCompiler script⟩
  enabled := fun p e =>
    match e with
    | .files op _ => p.tab.Drained ∧ op.Silent ∧ op.Offered p.files
    | .openFile file _ => p.tab.Drained ∧ file ∈ p.files.window.files
    | .selectFile file _ => p.tab.Drained ∧ file ∈ p.files.window.files
    | .saveFile _ => p.tab.Drained
    | .setAutoCompile _ _ => p.tab.Drained ∧ p.tab.loadingCompiler = false
    | .tab e => e.Own ∧ (tabDesk scripts).enabled p.tab e
  step := fun p e =>
    match e with
    | .files op refuses => p.withFiles (p.files.step ace op refuses)
    | .openFile file refuses => p.click ace (.openFile file) refuses
    | .selectFile file refuses => p.click ace (.selectFile file) refuses
    | .saveFile refuses => p.save ace refuses
    | .setAutoCompile autoCompile refuses => p.setAutoCompile autoCompile refuses
    | .tab e => { p with tab := (tabDesk scripts).step p.tab e }

end Hmix
