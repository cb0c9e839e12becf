import Hmix.Model.Storage
import Mathlib.Logic.Function.Basic

/-!
# Files, and a window's memory of them

A `File` is an object: the service, the tabs and the editor hold it by
reference, and compare it by reference. The memory of a window is
therefore a heap of files with a list of references to those that exist,
a reference to the selected one, and the one text buffer they all share.
What is persisted of a file is its `IFileObject`.
-/

namespace Hmix

/-- What storage keeps of a file. -/
structure IFileObject where
  id : String
  name : String
  content : String
  isOpen : Bool
  deriving DecidableEq

/-- A file as the page has it: `content` is what was last saved,
`tempContent` what was last typed. -/
structure File where
  id : String
  name : String
  content : String
  tempContent : String
  isSaved : Bool
  isOpen : Bool
  deriving DecidableEq

/-- The constructor: a file begins saved. -/
def File.new (fileObject : IFileObject) : File where
  id := fileObject.id
  name := fileObject.name
  content := fileObject.content
  tempContent := fileObject.content
  isSaved := true
  isOpen := fileObject.isOpen

/-- Stands where no object was made yet. -/
instance : Inhabited File := ⟨File.new ⟨"", "", "", false⟩⟩

/-- `toObject`. -/
def File.toObject (file : File) : IFileObject where
  id := file.id
  name := file.name
  content := file.content
  isOpen := file.isOpen

@[simp] theorem File.toObject_new (o : IFileObject) : (File.new o).toObject = o := rfl

/-! ## The tree as JSON -/

/-- The object literal `JSON.stringify` is given. -/
def IFileObject.toJson (o : IFileObject) : Json :=
  .obj [("id", .str o.id), ("name", .str o.name), ("content", .str o.content),
    ("isOpen", .bool o.isOpen)]

/-- The members the `File` constructor reads. A value that lacks one is
none this program wrote. -/
def IFileObject.ofJson (value : Json) : Option IFileObject :=
  match value.field "id", value.field "name", value.field "content", value.field "isOpen" with
  | some (.str id), some (.str name), some (.str content), some (.bool isOpen) =>
    some ⟨id, name, content, isOpen⟩
  | _, _, _, _ => none

@[simp] theorem IFileObject.ofJson_toJson (o : IFileObject) : ofJson o.toJson = some o := rfl

/-- The tree, as `saveFileTree` stores it. -/
def treeToJson (objects : List IFileObject) : Json := .arr (objects.map IFileObject.toJson)

/-- The tree, as `loadFileTree` reads it: nothing stored is the empty
tree. -/
def treeOfJson : Json → Option (List IFileObject)
  | .arr items => items.mapM IFileObject.ofJson
  | value => if value.truthy then none else some []

@[simp] theorem treeOfJson_treeToJson (objects : List IFileObject) :
    treeOfJson (treeToJson objects) = some objects := by
  simp only [treeToJson, treeOfJson]
  induction objects with
  | nil => rfl
  | cons o objects ih => simp [List.mapM_cons, ih]

/-- **The tree storage holds.** -/
def storedTree (storage : LocalStorage) : Option (List IFileObject) :=
  treeOfJson (StorageService.get storage .files)

/-- **`selectedFileId`**, where it is a string that is not empty. Whatever
else is stored, the word `undefined` included, is no selection. -/
def selectedFileId (storage : LocalStorage) : Option String :=
  match StorageService.get storage .selectedFile with
  | .str id => if id = "" then none else some id
  | _ => none

@[simp] theorem storedTree_empty : storedTree LocalStorage.empty = some [] := rfl

@[simp] theorem selectedFileId_empty : selectedFileId LocalStorage.empty = none := rfl

@[simp] theorem storedTree_set_files (storage : LocalStorage) (objects : List IFileObject) :
    storedTree (storage.setItem .files (Json.stringify (some (treeToJson objects))))
      = some objects := by
  simp [storedTree]

@[simp] theorem storedTree_set_selectedFile (storage : LocalStorage) (text : Text) :
    storedTree (storage.setItem .selectedFile text) = storedTree storage := by
  simp [storedTree]

@[simp] theorem selectedFileId_set_files (storage : LocalStorage) (text : Text) :
    selectedFileId (storage.setItem .files text) = selectedFileId storage := by
  simp [selectedFileId]

@[simp] theorem selectedFileId_set_none (storage : LocalStorage) :
    selectedFileId (storage.setItem .selectedFile (Json.stringify none)) = none := by
  simp [selectedFileId]

theorem selectedFileId_set_some (storage : LocalStorage) {id : String} (h : id ≠ "") :
    selectedFileId (storage.setItem .selectedFile (Json.stringify (some (.str id))))
      = some id := by
  simp [selectedFileId, h]

/-! ## The memory of a window -/

/-- A reference to a `File` object. -/
abbrev FileRef := ℕ

/-- **A window's memory**, and how far its editor component has started
up. `text` is what the Ace editor holds. -/
structure Window where
  /-- The objects. -/
  heap : FileRef → File
  /-- The reference the next object gets. -/
  next : FileRef
  /-- `_files`. -/
  files : List FileRef
  /-- `_selectedFile`; `null` and `undefined` are both `none`. -/
  selectedFile : Option FileRef
  text : String
  /-- `initShortcuts` has run, so the save shortcut works. -/
  shortcuts : Bool
  /-- `initSaveCheck` has run, so closing the window may warn. -/
  saveCheck : Bool

namespace Window

/-- A window that has just been opened, with nothing loaded. -/
def blank : Window := ⟨fun _ => default, 0, [], none, "", false, false⟩

/-- The window `loadFileTree` leaves: one new object for each stored one,
in the order they are stored. -/
def ofTree (objects : List IFileObject) : Window where
  heap := fun f => ((objects[f]?).map File.new).getD default
  next := objects.length
  files := List.range objects.length
  selectedFile := none
  text := ""
  shortcuts := false
  saveCheck := false

/-- Assignments to the members of one object. -/
def assign (w : Window) (f : FileRef) (g : File → File) : Window :=
  { w with heap := Function.update w.heap f (g (w.heap f)) }

variable (w : Window) (f : FileRef) (g : File → File)

@[simp] theorem assign_next : (w.assign f g).next = w.next := rfl
@[simp] theorem assign_files : (w.assign f g).files = w.files := rfl
@[simp] theorem assign_selectedFile : (w.assign f g).selectedFile = w.selectedFile := rfl
@[simp] theorem assign_text : (w.assign f g).text = w.text := rfl

@[simp] theorem assign_heap_self : (w.assign f g).heap f = g (w.heap f) := by
  simp [assign]

@[simp] theorem assign_heap_of_ne {f' : FileRef} (h : f' ≠ f) :
    (w.assign f g).heap f' = w.heap f' := by
  simp [assign, h]

/-- What `saveFileTree` writes. -/
def objects : List IFileObject := w.files.map fun f => (w.heap f).toObject

/-- `openFiles`. -/
def openFiles : List FileRef := w.files.filter fun f => (w.heap f).isOpen

/-- `hasUnsavedFiles`. -/
def hasUnsavedFiles : Bool := w.files.any fun f => !(w.heap f).isSaved

/-- `getFileByName`. -/
def getFileByName (fileName : String) : Option FileRef :=
  w.files.find? fun f => (w.heap f).name == fileName

end Window

end Hmix
