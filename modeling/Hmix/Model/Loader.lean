import Hmix.Model.CompilerService
import Hmix.Model.Settings

/-!
# Loads, and the settings they go by

The settings are stored and outlive the page. `loadCompiler` and `compile`
both ask `useWebWorker` which compiler is meant, and where a load finds that
the browser has no workers it changes the setting, stores it, and resolves.
-/

namespace Hmix

/-- **The service of a page**, the settings and the storage that has them. Of
the latest load it is known whether it found the setting on and no workers. -/
structure Loader where
  service : CompilerService
  autoCompile : Bool
  storage : LocalStorage
  /-- `loadCompiler` was called. -/
  called : Bool
  /-- The latest call has not resolved. -/
  loadingCompiler : Bool
  fellBack : Bool

namespace Loader

/-- `_settings`. -/
def settings (x : Loader) : ICompilerSettings :=
  ⟨x.service.useWebWorker, x.autoCompile, x.service.optimize⟩

/-- The constructor: the settings are loaded. -/
def new (hasWorker : Bool) (storage : LocalStorage) : Loader where
  service := .new hasWorker (loadSettings storage).useWebWorker (loadSettings storage).optimize
  autoCompile := (loadSettings storage).autoCompile
  storage := storage
  called := false
  loadingCompiler := false
  fellBack := false

/-- `saveSettings`, which throws where it is refused. -/
def save (x : Loader) (refused : Bool) : Loader :=
  if refused then x
  else { x with storage :=
    x.storage.setItem .compilerSettings (Json.stringify (some x.settings.toJson)) }

/-- **`loadCompiler`.** Where the write of the changed setting throws, the
promise is rejected. -/
def loadCompiler (x : Loader) (script : Option Compiler) (refused : Bool) : Loader :=
  let fellBack := x.service.useWebWorker && !x.service.hasWorker
  let x := { x with called := true, fellBack := fellBack }
  if fellBack then
    if refused then
      { x with service := { x.service with useWebWorker := false }, loadingCompiler := true }
    else
      save { x with service := x.service.loadCompiler script, loadingCompiler := false } refused
  else
    { x with service := x.service.loadCompiler script, loadingCompiler := true }

/-- Something else happens to the service. Where that resolves a load, it was
the one there was. -/
def act (x : Loader) (e : CallEvent) : Loader :=
  let service := callDesk.step x.service e
  { x with
    service := service
    loadingCompiler := x.loadingCompiler && decide (service.loaded = x.service.loaded) }

/-- The setter of `autoCompile`. -/
def setAutoCompile (x : Loader) (autoCompile refused : Bool) : Loader :=
  { x with autoCompile := autoCompile }.save refused

/-- The setter of `optimize`. -/
def setOptimize (x : Loader) (optimize refused : Bool) : Loader :=
  { x with service := { x.service with optimize := optimize } }.save refused

end Loader

/-! ## Runs -/

/-- What happens to a loader. -/
inductive LoaderEvent where
  | loadCompiler (script : Option Compiler) (refused : Bool)
  | setAutoCompile (autoCompile refused : Bool)
  | setOptimize (optimize refused : Bool)
  /-- A call, a message, a poll or a microtask. -/
  | service (e : CallEvent)
  | reload

/-- Neither a load nor a change of a setting. -/
def CallEvent.Plain : CallEvent → Prop
  | .service (.loadCompiler _) | .service (.setOptimize _) => False
  | _ => True

/-- **Loads and settings**, from when a page is opened, over any storage and in
any browser. While a compiler is loaded no other can be selected. -/
def loaderDesk : Machine Loader LoaderEvent where
  start := fun x => ∃ hasWorker storage, x = .new hasWorker storage
  enabled := fun x e =>
    match e with
    | .loadCompiler _ _ => x.loadingCompiler = false
    | .service e => e.Plain ∧ callDesk.enabled x.service e
    | _ => True
  step := fun x e =>
    match e with
    | .loadCompiler script refused => x.loadCompiler script refused
    | .setAutoCompile autoCompile refused => x.setAutoCompile autoCompile refused
    | .setOptimize optimize refused => x.setOptimize optimize refused
    | .service e => x.act e
    | .reload => .new x.service.hasWorker x.storage

end Hmix
