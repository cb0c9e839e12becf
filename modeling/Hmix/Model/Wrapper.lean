import Hmix.Model.CompilerService

/-!
# The compiler behind its import callback

`compileStandardWrapper` is a function of its input and of what its callback
answers. Both modes give it the same callback, which notes the path and
defers the import. They differ in where the paths are noted: the page makes
an array for each run, the worker has one for good, and empties it.
-/

namespace Hmix

/-- **A run of `compileStandardWrapper`**: it is over, or asks for an import
and goes on with the `error` that is answered. -/
inductive Compilation where
  | returns (result : Text)
  | throws (e : Thrown)
  | imports (path : String) (goOn : String → Compilation)

/-- The callback of both modes, over an array of missing inputs. -/
def deferImport (path : String) : EStateM Thrown (List String) String := do
  modify fun missingInputs => missingInputs ++ [path]
  return "Deferred import"

/-- The run, with that callback. -/
def Compilation.run : Compilation → EStateM Thrown (List String) Text
  | returns result => pure result
  | throws e => throw e
  | imports path goOn => do
    let error ← deferImport path
    (goOn error).run

/-- A script of a compiler. -/
structure Script where
  compileStandardWrapper : CompilerInput → Compilation
  version : String

/-- **A run with an array of its own**, as `compileSync` makes one. -/
def solc (compileStandardWrapper : CompilerInput → Compilation) : Solc := fun input =>
  match (compileStandardWrapper input).run [] with
  | .ok result missingInputs => .ok (result, missingInputs)
  | .error e _ => .error e

/-- The compiler of a script. -/
def Script.compiler (script : Script) : Compiler :=
  ⟨solc script.compileStandardWrapper, script.version⟩

/-! ## The worker's globals -/

/-- **What `worker.js` keeps between messages.** -/
structure Globals where
  missingInputs : List String
  compile : CompilerInput → Compilation

/-- As the worker is started. -/
def Globals.new : Globals := ⟨[], fun _ => .returns (.raw "")⟩

/-- **`onmessage` of `worker.js`**, and what it posts. The array is emptied,
`compile` pushes into it, and it is copied when it is posted. What was
pushed before `compile` throws stays. -/
def Globals.onmessage (script : Option Script) (g : Globals) : Request → Globals × List Response
  | .loadVersion =>
    match script with
    | some script =>
      ({ g with compile := script.compileStandardWrapper }, [.versionLoaded script.version])
    | none => (g, [])
  | .compileRequest input ticket =>
    let emptied : Globals := { g with missingInputs := [] }
    match (emptied.compile input).run emptied.missingInputs with
    | .ok result missingInputs =>
      ({ g with missingInputs := missingInputs },
        [.compileResult ⟨result, some missingInputs⟩ input ticket])
    | .error _ missingInputs => ({ g with missingInputs := missingInputs }, [])

/-- The worker handles its next message: its queues, and its globals. -/
def Globals.work (script : Option Script) (g : Globals) (w : Worker) : Worker × Globals :=
  match w.inbox with
  | [] => (w, g)
  | request :: inbox =>
    let (g', posted) := g.onmessage script request
    ({ w with compile := solc g'.compile, inbox := inbox, outbox := w.outbox ++ posted }, g')

end Hmix
