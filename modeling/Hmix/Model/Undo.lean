import Hmix.Model.Desk

/-!
# The editor's session and its undo history

All files share one Ace session, and with it one undo history. Each `setValue`
and each edit is recorded there with the text it replaced, and nothing in the
program resets it. An undo puts the latest of these texts back and fires
`change`, whose handler writes it into the file that is selected by then.

The programs are those of the file service, over the files and the history.
Whose text the session holds, and which texts a file has had, is kept for the
statements only.
-/

namespace Hmix

/-- What a change replaced: a text, and the file it was of. -/
structure Replaced where
  text : String
  owner : Option FileRef
  deriving DecidableEq

/-- **The session**, and the files. -/
structure EditSession where
  files : World
  /-- The undo history, the latest change first. -/
  undoStack : List Replaced
  /-- The file whose text the session holds. -/
  owner : Option FileRef
  /-- The `tempContent`s a file has had before this operation. -/
  past : FileRef → List String

namespace EditSession

/-- A program of the page, with the history. -/
abbrev Editing := EStateM Thrown EditSession

/-- A program that leaves the session's text alone. -/
def onFiles {α : Type} (m : App α) : Editing α := fun x =>
  match m x.files with
  | .ok a files => .ok a { x with files := files }
  | .error e files => .error e { x with files := files }

/-- A change of the text is recorded. What it brings is the selected file's,
since that is where the change handler writes it. -/
def record : Editing PUnit :=
  modify fun x => { x with
    undoStack := ⟨x.files.window.text, x.owner⟩ :: x.undoStack
    owner := x.files.window.selectedFile }

section

variable (ace : Ace) (refuses : Refusals)

/-- The setter of `EditorService.content`. -/
def setContent (content : String) : Editing PUnit := do
  record
  onFiles (Hmix.setContent ace content)

/-- Typing. -/
def edit (text : String) : Editing PUnit := do
  record
  onFiles (change text)

/-- **Undo.** With an empty history it does nothing. -/
def undo : Editing PUnit := do
  let x ← get
  match x.undoStack with
  | [] => pure ⟨⟩
  | last :: undoStack =>
    set { x with undoStack := undoStack, owner := x.files.window.selectedFile }
    onFiles (change last.text)

/-- `selectFile` of a file that is open. -/
def showFile (file : FileRef) : Editing PUnit := do
  onFiles (setSelectedFile refuses (some file))
  let x ← get
  setContent ace (x.files.window.heap file).tempContent

/-- `openFile`. -/
def openFile (file : FileRef) : Editing PUnit := do
  onFiles (modifyWindow fun m => m.assign file fun o => { o with isOpen := true })
  showFile ace refuses file
  onFiles (saveFileTree refuses)

/-- `selectFile`. -/
def selectFile (file : FileRef) : Editing PUnit := do
  let x ← get
  if (x.files.window.heap file).isOpen then
    showFile ace refuses file
  else do
    openFile ace refuses file
    showFile ace refuses file

/-- `createFile`. -/
def createFile (uuid name : String) : Editing PUnit := do
  let file ← onFiles (newFile { id := uuid, name := name, content := "", isOpen := false })
  onFiles (modifyWindow fun m => { m with files := m.files ++ [file] })
  openFile ace refuses file

/-- `findFileToSelect`. -/
def findFileToSelect (lastSelectedFile : FileRef) : Editing PUnit := do
  let x ← get
  if x.files.window.selectedFile = some lastSelectedFile then do
    let file := neighbour x.files.window.openFiles lastSelectedFile
    onFiles (setSelectedFile refuses file)
    match file with
    | some file => selectFile ace refuses file
    | none => pure ⟨⟩
  else
    pure ⟨⟩

/-- `closeFile`. -/
def closeFile (file : FileRef) : Editing PUnit := do
  findFileToSelect ace refuses file
  onFiles (modifyWindow fun m => m.assign file fun o => { o with isOpen := false })
  onFiles (saveFileTree refuses)

/-- `EditorComponent.closeAll`. -/
def closeAll : Editing PUnit := do
  let x ← get
  x.files.window.openFiles.forM fun file => closeFile ace refuses file

/-- `deleteFile`. -/
def deleteFile (file : FileRef) : Editing PUnit := do
  findFileToSelect ace refuses file
  onFiles (modifyWindow fun m => { m with files := m.files.filter (· ≠ file) })
  onFiles (saveFileTree refuses)

/-- `loadSelectedFile`. -/
def loadSelectedFile : Editing PUnit := do
  let x ← get
  match selectedFileId x.files.storage with
  | none => pure ⟨⟩
  | some id =>
    match x.files.window.files.find? fun f => (x.files.window.heap f).id == id with
    | none => throw .typeError
    | some file => selectFile ace refuses file

/-- A reload: the page has other objects and another session. -/
def reload : Editing PUnit := do
  modify fun x => { x with undoStack := [], owner := none, past := fun _ => [] }
  onFiles loadFileTree
  loadSelectedFile ace refuses
  onFiles initShortcuts
  onFiles initSaveCheck

/-- The program an operation runs. Renaming, saving and listing show no
text. -/
def exec : Op → Editing PUnit
  | .createFile uuid name => createFile ace refuses uuid name
  | .openFile file => openFile ace refuses file
  | .selectFile file => selectFile ace refuses file
  | .closeFile file => closeFile ace refuses file
  | .closeAll => closeAll ace refuses
  | .deleteFile file => deleteFile ace refuses file
  | .edit text => edit text
  | .reload => reload ace refuses
  | .renameFile file newName => onFiles (renameFile refuses file newName)
  | .saveFile => onFiles (saveSelectedFile refuses)
  | .sortedFiles le => onFiles (sortedFiles le)

end

/-- A page that is about to load. -/
def opening (storage : LocalStorage) : EditSession := ⟨World.opening storage, [], none, fun _ => []⟩

/-- A session as an operation finds it. -/
def begin (x : EditSession) : EditSession := { x with
  files := x.files.begin
  past := fun f => if f < x.files.window.next
    then (x.files.window.heap f).tempContent :: x.past f else x.past f }

/-- The texts a file has had up to now, as far as the page goes back. -/
def texts (x : EditSession) (f : FileRef) : List String :=
  (x.files.window.heap f).tempContent :: x.past f

end EditSession

/-! ## Runs -/

/-- What happens in the editor. -/
inductive EditEvent where
  | files (op : Op) (refuses : Refusals)
  | undo

/-- The program an event runs. -/
def EditEvent.exec (ace : Ace) : EditEvent → EditSession.Editing PUnit
  | .files op refuses => EditSession.exec ace refuses op
  | .undo => EditSession.undo

open EditSession in
/-- **One window with its undo history**, from when it is opened, over any
storage. -/
def undoDesk (ace : Ace) : Machine EditSession EditEvent where
  start := fun x => ∃ storage refuses,
    x = after (EditSession.exec ace refuses .reload) (opening storage).begin
  enabled := fun x e =>
    match e with
    | .files op _ => op.Offered x.files
    | .undo => True
  step := fun x e => after (e.exec ace) x.begin

instance (ace : Ace) (x : EditSession) : ∀ e : EditEvent, Decidable ((undoDesk ace).enabled x e)
  | .files op _ => inferInstanceAs (Decidable (op.Offered x.files))
  | .undo => isTrue trivial

end Hmix
