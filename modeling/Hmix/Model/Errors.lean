import Hmix.Model.Page
import Hmix.Model.Windows

/-!
# The errors of the compile tab

An error is listed with the name of the file it is in. A click on it looks
that name up among the files there are by then, and shows the first one
that has it. The compiler is told names only, so which file a name stood for
is kept here beside the sources.
-/

namespace Hmix

/-- **What a compilation was given.** -/
structure Compiled where
  sources : Sources
  /-- The file whose text is given under a name. -/
  origin : String → Option FileRef

namespace Compiled

/-- Nothing was compiled yet. -/
def nothing : Compiled := ⟨[], fun _ => none⟩

/-- `CompileTabComponent.compile`: the selected file, with the text of the
editor. -/
def ofSelected (w : World) : Option Compiled :=
  w.window.selectedFile.map fun selectedFile =>
    let selectedName := (w.window.heap selectedFile).name
    { sources := [(selectedName, w.window.text)]
      origin := fun name => if name = selectedName then some selectedFile else none }

/-- A round is over: what it missed is gathered from the files there are. -/
def gather (w : World) (missingInputs : List String) (c : Compiled) : Compiled :=
  let sources := gatherImports w.workspace.library c.sources missingInputs
  { sources := sources
    origin := fun name =>
      if name ∈ c.sources.names then c.origin name
      else if name ∈ sources.names then w.window.getFileByName name
      else none }

end Compiled

/-- **The list of errors**: the files, what a click changes of the editor
besides, and the latest compilation. -/
structure ErrorList where
  files : World
  /-- `_marker`: the id of a marker, and the row it highlights. -/
  marker : Option (ℕ × ℕ)
  /-- The id the session gives to the next marker. -/
  nextMarker : ℕ
  /-- Where `gotoLine` last took the cursor: a line, and a column. -/
  cursor : Option (ℕ × ℕ)
  compiled : Compiled

namespace ErrorList

/-- A program of the tab. -/
abbrev Tab := EStateM Thrown ErrorList

/-- A program of the file service. -/
def onFiles (m : App PUnit) : Tab PUnit := fun x =>
  match m x.files with
  | .ok _ files => .ok ⟨⟩ { x with files := files }
  | .error e files => .error e { x with files := files }

/-- `highlightLine`. A marker there was is removed. -/
def highlightLine (lineNumber : ℕ) : Tab PUnit :=
  modify fun x => { x with
    marker := some (x.nextMarker, lineNumber - 1), nextMarker := x.nextMarker + 1 }

/-- `gotoLine`. -/
def gotoLine (lineNumber columnNumber : ℕ) : Tab PUnit :=
  modify fun x => { x with cursor := some (lineNumber, columnNumber - 1) }

/-- **`gotoError`.** A `null` is no line, and neither is `0`. For a name that no
file has, `find` returns `undefined`, and `selectFile` asks it for `isOpen`. -/
def gotoError (ace : Ace) (refuses : Refusals) (error : ICompilerError) : Tab PUnit := do
  let lineNumber := error.lineNumber.getD 0
  let columnNumber := error.columnNumber.getD 0
  if lineNumber = 0 ∨ columnNumber = 0 then
    return
  else
    let x ← get
    match error.fileName.bind x.files.window.getFileByName with
    | none => throw .typeError
    | some errorFile =>
      onFiles (selectFile ace refuses errorFile)
      highlightLine lineNumber
      gotoLine lineNumber columnNumber

/-- The list as a click finds it: no write was made yet. -/
def begin (x : ErrorList) : ErrorList := { x with files := x.files.begin }

end ErrorList

/-! ## Runs -/

/-- What happens to the list. -/
inductive ErrorEvent where
  /-- Something is done to the files. -/
  | files (op : Op) (refuses : Refusals)
  /-- The selected file is compiled. -/
  | compile
  /-- A round of the compilation is over. -/
  | gather (missingInputs : List String)
  /-- An error is clicked. -/
  | gotoError (error : ICompilerError) (refuses : Refusals)

open ErrorList in
/-- **The list of a page**, from when it is opened, over any storage. With a
reload what was compiled is gone. -/
def errorDesk (ace : Ace) : Machine ErrorList ErrorEvent where
  start := fun x => ∃ storage refuses,
    x = ⟨(World.opening storage).step ace .reload refuses, none, 1, none, .nothing⟩
  enabled := fun x e =>
    match e with
    | .files op _ => op.Offered x.files
    | _ => True
  step := fun x e =>
    match e with
    | .files op refuses => { x with
        files := x.files.step ace op refuses
        compiled := if op.loads then .nothing else x.compiled }
    | .compile => { x with compiled := (Compiled.ofSelected x.files).getD x.compiled }
    | .gather missingInputs => { x with compiled := x.compiled.gather x.files missingInputs }
    | .gotoError error refuses => after (gotoError ace refuses error) x.begin

instance (ace : Ace) (x : ErrorList) : ∀ e : ErrorEvent, Decidable ((errorDesk ace).enabled x e)
  | .files op _ => inferInstanceAs (Decidable (op.Offered x.files))
  | .compile | .gather _ | .gotoError _ _ => isTrue trivial

end Hmix
