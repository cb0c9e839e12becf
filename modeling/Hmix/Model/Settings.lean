import Hmix.Model.FileService

/-!
# The settings of the compiler

They are stored as one object. What is not there, or is not true, is not
set; where no settings were stored, all of them are.
-/

namespace Hmix

/-- The options the compiler service keeps. -/
structure ICompilerSettings where
  useWebWorker : Bool
  autoCompile : Bool
  optimize : Bool
  deriving DecidableEq

namespace ICompilerSettings

/-- All true by default. -/
def initial : ICompilerSettings := ⟨true, true, true⟩

/-- The object that is stored. -/
def toJson (settings : ICompilerSettings) : Json := .obj
  [("useWebWorker", .bool settings.useWebWorker), ("autoCompile", .bool settings.autoCompile),
    ("optimize", .bool settings.optimize)]

/-- What the getters make of an object that was stored. -/
def ofJson (value : Json) : ICompilerSettings where
  useWebWorker := ((value.field "useWebWorker").map Json.truthy).getD false
  autoCompile := ((value.field "autoCompile").map Json.truthy).getD false
  optimize := ((value.field "optimize").map Json.truthy).getD false

theorem ofJson_toJson (settings : ICompilerSettings) : ofJson settings.toJson = settings := rfl

end ICompilerSettings

/-- `loadSettings`. -/
def loadSettings (storage : LocalStorage) : ICompilerSettings :=
  let value := StorageService.get storage .compilerSettings
  if value.truthy then .ofJson value else .initial

/-- `saveSettings`. -/
def saveSettings (refuses : Refusals) (settings : ICompilerSettings) : App PUnit :=
  StorageService.set refuses .compilerSettings (some settings.toJson)

/-- **Settings that were saved are loaded.** -/
theorem loadSettings_setItem (storage : LocalStorage) (settings : ICompilerSettings) :
    loadSettings (storage.setItem .compilerSettings (Json.stringify (some settings.toJson))) =
      settings := by
  simp only [loadSettings, get_setItem, Option.getD_some]
  exact ICompilerSettings.ofJson_toJson settings

end Hmix
