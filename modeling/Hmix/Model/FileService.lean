import Hmix.Common.Wp
import Hmix.Model.File
import Mathlib.Data.List.Sort

/-!
# The file service

Every operation of `FileService`, as a program over a window's memory and
the storage it shares. The statements stand in the order of the source,
since what a throw leaves behind depends on it: an object is assigned
before the storage is written, the selected id is written before the
editor is given the file's text, and the tree last.

Two neighbours are parameters. `Ace` is the editor: what matters of it is
which texts it shows at the change events a `setValue` fires. `Refusals`
says which writes find no room.
-/

namespace Hmix

/-- **The editor.** `setValue` replaces a text and fires `change` while it
does, first on the emptied document and then on the new text, one of the
two or both. -/
structure Ace where
  /-- The texts at the change events of `setValue new` over `old`. -/
  setValueEvents : String → String → List String
  /-- The last event shows the new text; there is none only where the text
  does not change. -/
  spec : ∀ old new, setValueEvents old new = [new] ∨ setValueEvents old new = ["", new] ∨
    (setValueEvents old new = [] ∧ new = old)

/-- Ace as the page bundles it: `setValue` removes what is there and
inserts the new text, and neither fires for an empty text. -/
def Ace.brace : Ace where
  setValueEvents old new :=
    (if old = "" then [] else [""]) ++ (if new = "" then [] else [new])
  spec old new := by
    by_cases ho : old = "" <;> by_cases hn : new = "" <;> simp [ho, hn]

/-- A page at work: its window, the storage, how many writes the running
operation has made, and the files `onFileSaved` has been emitted for. -/
structure World where
  window : Window
  storage : LocalStorage
  writes : ℕ
  savedEvents : List FileRef

/-- A program of the page. -/
abbrev App := EStateM Thrown World

/-- An assignment to the window's memory. -/
def modifyWindow (g : Window → Window) : App PUnit :=
  modify fun w => { w with window := g w.window }

section Operations

variable (ace : Ace) (refuses : Refusals)

/-- `localStorage.setItem`. -/
def setItem (key : StorageKey) (text : Text) : App PUnit := do
  let w ← get
  set { w with writes := w.writes + 1 }
  if refuses w.writes key then
    throw .quotaExceeded
  else
    modify fun w => { w with storage := w.storage.setItem key text }

/-- **`StorageService.set`.** -/
def StorageService.set (key : StorageKey) (data : Option Json) : App PUnit :=
  setItem refuses key (Json.stringify data)

/-- `saveFileTree`. -/
def saveFileTree : App PUnit := do
  let w ← get
  StorageService.set refuses .files (some (treeToJson w.window.objects))

/-- The setter of `selectedFile`: the member, and then the stored id, which
is `undefined` for no file. -/
def setSelectedFile (file : Option FileRef) : App PUnit := do
  modifyWindow fun m => { m with selectedFile := file }
  let w ← get
  StorageService.set refuses .selectedFile (file.map fun f => .str (w.window.heap f).id)

/-- `onSelectedFileContentChanged`. -/
def onSelectedFileContentChanged : App PUnit := do
  let w ← get
  match w.window.selectedFile with
  | none => throw .typeError
  | some f =>
    modifyWindow fun m => m.assign f fun file =>
      { file with tempContent := m.text, isSaved := m.text == file.content }

/-- The editor shows `text` and fires `change`. -/
def change (text : String) : App PUnit := do
  modifyWindow fun m => { m with text := text }
  onSelectedFileContentChanged

/-- The setter of `EditorService.content`. -/
def setContent (content : String) : App PUnit := do
  let w ← get
  (ace.setValueEvents w.window.text content).forM change
  modifyWindow fun m => { m with text := content }

/-- `selectFile` of a file that is open. -/
def showFile (file : FileRef) : App PUnit := do
  setSelectedFile refuses (some file)
  let w ← get
  setContent ace (w.window.heap file).tempContent

/-- `openFile`. It marks the file open before it calls `selectFile`, so
that call does not come back; `openFile_eq` is the source's own text. -/
def openFile (file : FileRef) : App PUnit := do
  modifyWindow fun m => m.assign file fun o => { o with isOpen := true }
  showFile ace refuses file
  saveFileTree refuses

/-- `selectFile`. -/
def selectFile (file : FileRef) : App PUnit := do
  let w ← get
  if (w.window.heap file).isOpen then
    showFile ace refuses file
  else do
    openFile ace refuses file
    showFile ace refuses file

/-- `new File`. -/
def newFile (fileObject : IFileObject) : App FileRef := do
  let w ← get
  modifyWindow fun m =>
    { m with heap := Function.update m.heap m.next (File.new fileObject), next := m.next + 1 }
  return w.window.next

/-- `createFile`, with the id `UUID.UUID()` returns. -/
def createFile (uuid name : String) : App PUnit := do
  let file ← newFile { id := uuid, name := name, content := "", isOpen := false }
  modifyWindow fun m => { m with files := m.files ++ [file] }
  openFile ace refuses file

/-- `openFiles.indexOf(file)`. -/
def indexOf (files : List FileRef) (file : FileRef) : ℤ :=
  if file ∈ files then files.idxOf file else -1

/-- `files[i]`, `undefined` outside the array. -/
def elementAt (files : List FileRef) (i : ℤ) : Option FileRef :=
  if i < 0 then none else files[i.toNat]?

/-- The neighbour `findFileToSelect` picks among the open files. -/
def neighbour (openFiles : List FileRef) (file : FileRef) : Option FileRef :=
  let fileIndex := indexOf openFiles file
  let newFileIndex :=
    if fileIndex = 0 then 1
    else if fileIndex = openFiles.length - 1 then fileIndex - 1
    else fileIndex + 1
  if openFiles.length > 1 then elementAt openFiles newFileIndex else none

/-- `findFileToSelect`. -/
def findFileToSelect (lastSelectedFile : FileRef) : App PUnit := do
  let w ← get
  if w.window.selectedFile = some lastSelectedFile then do
    let file := neighbour w.window.openFiles lastSelectedFile
    setSelectedFile refuses file
    match file with
    | some file => selectFile ace refuses file
    | none => pure ⟨⟩
  else
    pure ⟨⟩

/-- `closeFile`. -/
def closeFile (file : FileRef) : App PUnit := do
  findFileToSelect ace refuses file
  modifyWindow fun m => m.assign file fun o => { o with isOpen := false }
  saveFileTree refuses

/-- `EditorComponent.closeAll`, over the files that are open when it is
called. -/
def closeAll : App PUnit := do
  let w ← get
  w.window.openFiles.forM fun file => closeFile ace refuses file

/-- `deleteFile`. -/
def deleteFile (file : FileRef) : App PUnit := do
  findFileToSelect ace refuses file
  modifyWindow fun m => { m with files := m.files.filter (· ≠ file) }
  saveFileTree refuses

/-- `renameFile`. -/
def renameFile (file : FileRef) (newName : String) : App PUnit := do
  modifyWindow fun m => m.assign file fun o => { o with name := newName }
  saveFileTree refuses

/-- `saveFile`. The event is emitted before the content is assigned. -/
def saveFile (file : FileRef) : App PUnit := do
  let w ← get
  if (w.window.heap file).content ≠ w.window.text then
    modify fun w => { w with savedEvents := w.savedEvents ++ [file] }
  modifyWindow fun m => m.assign file fun o => { o with content := m.text, isSaved := true }
  saveFileTree refuses

/-- The save shortcut: `saveFile` of the selected file, a member of which
is read at once. -/
def saveSelectedFile : App PUnit := do
  let w ← get
  match w.window.selectedFile with
  | none => throw .typeError
  | some file => saveFile refuses file

/-- `sortedFiles`: the getter sorts the list in place, by the names, as the
user's locale compares them. -/
def sortedFiles (le : String → String → Bool) : App PUnit :=
  modifyWindow fun m =>
    { m with files := m.files.mergeSort fun a b => le (m.heap a).name (m.heap b).name }

/-- `loadFileTree`, run by the constructor of a page that has just been
opened. -/
def loadFileTree : App PUnit := do
  let w ← get
  modifyWindow fun _ => Window.blank
  match storedTree w.storage with
  | none => throw .typeError
  | some objects => modifyWindow fun _ => Window.ofTree objects

/-- `loadSelectedFile`. For an id no file has, `find` returns `undefined`,
and `selectFile` asks it for `isOpen`. -/
def loadSelectedFile : App PUnit := do
  let w ← get
  match selectedFileId w.storage with
  | none => pure ⟨⟩
  | some id =>
    match w.window.files.find? fun f => (w.window.heap f).id == id with
    | none => throw .typeError
    | some file => selectFile ace refuses file

/-- `initShortcuts`. -/
def initShortcuts : App PUnit := modifyWindow fun m => { m with shortcuts := true }

/-- `initSaveCheck`. -/
def initSaveCheck : App PUnit := modifyWindow fun m => { m with saveCheck := true }

/-- `EditorComponent.ngAfterViewInit`. `initEditor` ends by loading the
selected file; what that throws ends the start-up there. -/
def ngAfterViewInit : App PUnit := do
  loadSelectedFile ace refuses
  initShortcuts
  initSaveCheck

/-- **A reload**: the service is constructed and the editor started. -/
def reload : App PUnit := do
  loadFileTree
  ngAfterViewInit ace refuses

/-- `openFile` as the source has it. -/
theorem openFile_eq (file : FileRef) : openFile ace refuses file = (do
    modifyWindow fun m => m.assign file fun o => { o with isOpen := true }
    selectFile ace refuses file
    saveFileTree refuses) := by
  funext w
  set opened : World := { w with
    window := w.window.assign file fun o => { o with isOpen := true } } with hopened
  have hopen : (opened.window.heap file).isOpen = true := by simp [hopened]
  have hselect : selectFile ace refuses file opened = showFile ace refuses file opened := by
    change (if (opened.window.heap file).isOpen then showFile ace refuses file
      else do openFile ace refuses file; showFile ace refuses file) opened = _
    rw [if_pos hopen]
  change (showFile ace refuses file >>= fun _ => saveFileTree refuses) opened =
    (selectFile ace refuses file >>= fun _ => saveFileTree refuses) opened
  simp only [bind, EStateM.bind, hselect]

end Operations

end Hmix
