import Hmix.Model.CompilerService

/-!
# The compile tab

The tab compiles the selected file with the text of the editor: when a
compiler is loaded and once more 100 ms later, when a file is saved or a
compilation is requested, and when its button is pressed. It takes over the
service's result object when a call settles, and from then on shows what
that object has.
-/

namespace Hmix

/-- **What the tab reads of the files**: the name of the selected one, the
text of the editor, and the files there are. -/
structure Workspace where
  selectedFile : Option String
  content : String
  library : Library

/-- **The compile tab**, with the service and the files it uses. -/
structure CompileTab where
  service : CompilerService
  workspace : Workspace
  loadingCompiler : Bool
  compiling : Bool
  /-- `_compilationResult` is the service's result object: there is only the
  one. Before a call settles it is an object of the tab's own. -/
  hasResult : Bool
  subsInitialized : Bool
  /-- The timeouts that are set. -/
  timers : ℕ

namespace CompileTab

/-- The tab, before `ngOnInit`. -/
def new (service : CompilerService) (workspace : Workspace) : CompileTab where
  service := service
  workspace := workspace
  loadingCompiler := false
  compiling := false
  hasResult := false
  subsInitialized := false
  timers := 0

/-- `errors`, the getter. -/
def errors (t : CompileTab) : List ICompilerError :=
  if t.hasResult then t.service.latest.errors else []

/-- `contracts`, the getter. -/
def contracts (t : CompileTab) : List ICompilerContract := t.service.latest.contracts

/-- `sources`, of a selected file. -/
def sources (t : CompileTab) (selectedFile : String) : Sources :=
  [(selectedFile, t.workspace.content)]

/-- **`compile`.** -/
def compile (t : CompileTab) : CompileTab :=
  match t.workspace.selectedFile with
  | none => t
  | some selectedFile => { t with
      compiling := true
      service := t.service.compile (t.sources selectedFile) }

/-- `loadCompiler`. -/
def loadCompiler (t : CompileTab) (script : Option Compiler) : CompileTab :=
  { t with loadingCompiler := true, service := t.service.loadCompiler script }

/-- **The compiler is loaded**: the `then` of `loadCompiler`. -/
def whenLoaded (t : CompileTab) : CompileTab :=
  let t := compile { t with
    loadingCompiler := false
    service := { t.service with loaded := t.service.loaded - 1 } }
  { t with timers := t.timers + 1, subsInitialized := true }

/-- **A round goes on.** Where that settles its call, the `then` of `compile`
runs. -/
def goOn (t : CompileTab) : CompileTab :=
  let service := t.service.microtask t.workspace.library
  if service.settled.length = t.service.settled.length then { t with service := service }
  else { t with service := service, hasResult := true, compiling := false }

/-- The next microtask. -/
def microtask (t : CompileTab) : CompileTab :=
  if t.service.loaded = 0 then t.goOn else t.whenLoaded

/-- The handler of a saved file and of a requested compilation. -/
def notified (t : CompileTab) : CompileTab :=
  if t.subsInitialized then t.compile else t

/-- A timeout is over. -/
def timeout (t : CompileTab) : CompileTab := { t with timers := t.timers - 1 }.compile

/-- No microtask is left to run. -/
def Drained (t : CompileTab) : Prop := t.service.loaded = 0 ∧ t.service.resolved = []

end CompileTab

/-! ## Runs -/

/-- What happens to the tab. -/
inductive TabEvent where
  /-- A file is selected, edited, saved, added, renamed or removed. -/
  | change (workspace : Workspace)
  /-- A file was saved, or a compilation requested. -/
  | notified
  /-- The button is pressed. -/
  | press
  /-- A timeout is over. -/
  | timeout
  /-- A version of the compiler is selected. -/
  | loadCompiler (script : Option Compiler)
  /-- A poll finds a script. -/
  | poll (compiler : Compiler)
  /-- A setting is changed. -/
  | setOptimize (optimize : Bool)
  /-- A worker handles its next message. -/
  | work (worker : ℕ)
  /-- The page handles the next message of a worker. -/
  | deliver (worker : ℕ)
  /-- The page runs its next microtask. -/
  | microtask

/-- **The tab of a page**, from `ngOnInit` on. Workers run beside the page;
the page begins nothing before its microtasks are done. While a compiler is
loaded there is no button and no version to select. The compilers there are
are `scripts`. -/
def tabDesk (scripts : Compiler → Prop) : Machine CompileTab TabEvent where
  start := fun t => ∃ hasWorker useWebWorker optimize workspace script,
    (∀ compiler ∈ script, scripts compiler) ∧
      t = (CompileTab.new (.new hasWorker useWebWorker optimize) workspace).loadCompiler script
  enabled := fun t e =>
    match e with
    | .work _ | .microtask => True
    | .press => t.Drained ∧ t.loadingCompiler = false
    | .timeout => t.Drained ∧ t.timers ≠ 0
    | .loadCompiler script =>
      t.Drained ∧ t.loadingCompiler = false ∧ ∀ compiler ∈ script, scripts compiler
    | .poll compiler => t.Drained ∧ scripts compiler
    | _ => t.Drained
  step := fun t e =>
    match e with
    | .change workspace => { t with workspace := workspace }
    | .notified => t.notified
    | .press => t.compile
    | .timeout => t.timeout
    | .loadCompiler script => t.loadCompiler script
    | .poll compiler => { t with service := t.service.poll compiler }
    | .setOptimize optimize => { t with service := { t.service with optimize := optimize } }
    | .work i => { t with service := t.service.work i }
    | .deliver i => { t with service := t.service.deliver i }
    | .microtask => t.microtask

end Hmix
