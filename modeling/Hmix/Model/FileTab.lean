import Hmix.Model.Desk
import Hmix.Model.Imports
import Mathlib.Data.List.DropRight

/-!
# The file tab

The list of files, with an input in it while a file is created or renamed. The two inputs
have one id, and what the tab finishes is what the first of them says. Finishing asks the
file service, and then resets the tab, unless the service threw.

A step is the call of a listener, and the change detection after it. The tab listens
to the whole document, so that a click elsewhere finishes as well.
-/

namespace Hmix

/-- The inputs of the tab, each with the id `new-file-input`. -/
inductive NameInput where
  /-- Above the list. -/
  | newFile
  /-- In the place of a name. -/
  | rename
  deriving DecidableEq

/-- The menus of the tab. -/
inductive FileMenu where
  | fileMenu (file : FileRef)
  | fileCreationMenu
  deriving DecidableEq

/-- The file the menu is of. -/
def FileMenu.file : FileMenu → Option FileRef
  | .fileMenu file => some file
  | .fileCreationMenu => none

/-- **The file tab**, and the files. -/
structure FileTab where
  files : World
  isCreatingNewFile : Bool
  isRenamingFile : Bool
  fileToBeRenamed : Option FileRef
  /-- What the input for a new file has, if it is shown. -/
  newFileText : Option String
  /-- The file in whose place an input is shown, and what that has. -/
  renameText : Option (FileRef × String)
  menu : Option FileMenu

namespace FileTab

/-- `trim`. -/
def trim (text : String) : String :=
  .ofList ((text.toList.dropWhile whiteSpace).rdropWhile whiteSpace)

/-- A tab that was just constructed. -/
def new (files : World) : FileTab := ⟨files, false, false, none, none, none, none⟩

section

variable (ace : Ace) (le : String → String → Bool) (t : FileTab)

/-- A call of the file service, however it ends. -/
def call (op : Op) (refuses : Refusals) : FileTab := { t with files := t.files.step ace op refuses }

/-- `createFile`. -/
def createFile : FileTab := { t with isCreatingNewFile := true }

/-- `renameFile`. -/
def renameFile (file : FileRef) : FileTab :=
  { t with isRenamingFile := true, fileToBeRenamed := some file }

/-- `document.getElementById('new-file-input')`: the first of the page. -/
def newFileInput : Option (NameInput × String) :=
  match t.newFileText with
  | some value => some (.newFile, value)
  | none => t.renameText.map fun (_, value) => (.rename, value)

/-- The last lines of `finishEditingFile`. -/
def reset : FileTab :=
  { t with isCreatingNewFile := false, isRenamingFile := false, fileToBeRenamed := none }

/-- A call of the file service, and the reset if it returns. -/
def callAndReset (op : Op) (refuses : Refusals) : FileTab :=
  match op.exec ace refuses t.files.begin with
  | .ok _ files => { t with files := files }.reset
  | .error _ files => { t with files := files }

/-- **`finishEditingFile`.** Of an event it asks whether its target is the input. -/
def finishEditingFile (event : Option (Option NameInput)) (uuid : String) (refuses : Refusals) :
    FileTab :=
  if !t.isCreatingNewFile && !t.isRenamingFile then t
  else
    match t.newFileInput with
    | none => t
    | some (newFileInput, value) =>
      if event = some (some newFileInput) then t
      else
        let newFileName := trim value
        if newFileName = "" then t.reset
        else if t.isCreatingNewFile then
          t.callAndReset ace (.createFile uuid newFileName) refuses
        else
          match t.fileToBeRenamed with
          | some file => t.callAndReset ace (.renameFile file newFileName) refuses
          -- the name of `undefined` is assigned, which throws
          | none => t

/-- **Change detection.** The getter `files` sorts the list. An input that is not there yet
is empty. -/
def render : FileTab :=
  let t := t.call ace (.sortedFiles le) Refusals.nothing
  { t with
    newFileText := if t.isCreatingNewFile then some (t.newFileText.getD "") else none
    renameText := (t.fileToBeRenamed.filter (· ∈ t.files.window.files)).map fun file =>
      (file, ((t.renameText.filter (·.1 = file)).map Prod.snd).getD "") }

end

end FileTab

/-! ## Runs -/

/-- The calls of the tab's listeners, and what else happens to the page. -/
inductive FileTabEvent where
  /-- The button for a new file, on which the document's listener does nothing. -/
  | clickNewFile
  /-- The listener of a file in the list. -/
  | clickFile (file : FileRef) (refuses : Refusals)
  /-- The listeners of the document, of a click or a right click, and in which input it was. -/
  | click (target : Option NameInput) (uuid : String) (refuses : Refusals)
  /-- A right click in the list. It does not reach the document. -/
  | openMenu (menu : FileMenu) (uuid : String) (refuses : Refusals)
  /-- Enter, in an input. -/
  | enter (uuid : String) (refuses : Refusals)
  | input (field : NameInput) (text : String)
  /-- The items of the menu that is open. They let no click through. -/
  | executeNewFile
  | executeRename
  | executeDelete (refuses : Refusals)
  /-- Escape, another menu or a scroll. -/
  | closeMenu
  /-- What the rest of the page does to the files. -/
  | other (op : Op) (refuses : Refusals)
  | reload (refuses : Refusals)

namespace FileTab

/-- The rest of the page neither creates a file nor deletes nor renames one. -/
def Elsewhere : Op → Prop
  | .createFile _ _ | .deleteFile _ | .renameFile _ _ | .reload => False
  | _ => True

instance : ∀ op, Decidable (Elsewhere op)
  | .createFile _ _ | .deleteFile _ | .renameFile _ _ | .reload => isFalse id
  | .openFile _ | .selectFile _ | .closeFile _ | .closeAll | .saveFile | .edit _
  | .sortedFiles _ => isTrue trivial

/-- The input is shown. -/
def shows (t : FileTab) : NameInput → Bool
  | .newFile => t.newFileText.isSome
  | .rename => t.renameText.isSome

/-- The file of the menu that is open. -/
def menuFile (t : FileTab) : Option FileRef := t.menu.bind FileMenu.file

/-- What the page offers. -/
def Enabled (t : FileTab) : FileTabEvent → Prop
  | .clickNewFile | .closeMenu | .reload _ => True
  | .clickFile file _ => file ∈ t.files.window.files
  | .click target uuid _ => (∀ field ∈ target, t.shows field) ∧ Op.FreshId t.files uuid
  | .openMenu menu uuid _ =>
    (∀ file ∈ menu.file, file ∈ t.files.window.files) ∧ Op.FreshId t.files uuid
  | .enter uuid _ => t.newFileInput.isSome ∧ Op.FreshId t.files uuid
  | .input field _ => t.shows field
  | .executeNewFile => t.menu = some .fileCreationMenu
  | .executeRename | .executeDelete _ => t.menuFile.isSome
  | .other op _ => Elsewhere op ∧ op.Offered t.files

instance (t : FileTab) : ∀ e, Decidable (t.Enabled e)
  | .clickNewFile | .closeMenu | .reload _ => isTrue trivial
  | .clickFile file _ => inferInstanceAs (Decidable (file ∈ t.files.window.files))
  | .click _ _ _ | .openMenu _ _ _ | .enter _ _ | .other _ _ =>
    inferInstanceAs (Decidable (_ ∧ _))
  | .input field _ => inferInstanceAs (Decidable (t.shows field))
  | .executeNewFile => inferInstanceAs (Decidable (_ = _))
  | .executeRename | .executeDelete _ => inferInstanceAs (Decidable (t.menuFile.isSome))

/-- What an event does, before change detection. -/
def handle (ace : Ace) (t : FileTab) : FileTabEvent → FileTab
  | .clickNewFile => { t.createFile with menu := none }
  | .clickFile file refuses => t.call ace (.openFile file) refuses
  | .click target uuid refuses =>
    { t.finishEditingFile ace (some target) uuid refuses with menu := none }
  | .openMenu menu uuid refuses =>
    { t with menu := some menu }.finishEditingFile ace none uuid refuses
  | .enter uuid refuses => t.finishEditingFile ace none uuid refuses
  | .input .newFile text => { t with newFileText := some text }
  | .input .rename text =>
    { t with renameText := t.renameText.map fun (file, _) => (file, text) }
  | .executeNewFile => { t.createFile with menu := none }
  | .executeRename =>
    match t.menuFile with
    | some file => { t.renameFile file with menu := none }
    | none => t
  | .executeDelete refuses =>
    match t.menuFile with
    | some file => { t.call ace (.deleteFile file) refuses with menu := none }
    | none => t
  | .closeMenu => { t with menu := none }
  | .other op refuses => t.call ace op refuses
  | .reload refuses => .new (t.files.step ace .reload refuses)

end FileTab

/-- **The file tab of a page**, from when it is opened over a storage that `opens` admits, where
names are compared by `le`. -/
def fileTab (ace : Ace) (le : String → String → Bool) (opens : LocalStorage → Refusals → Prop) :
    Machine FileTab FileTabEvent where
  start := fun t => ∃ storage refuses, opens storage refuses ∧
    t = (FileTab.new ((World.opening storage).step ace .reload refuses)).render ace le
  enabled := FileTab.Enabled
  step := fun t e => (t.handle ace e).render ace le

instance (ace : Ace) (le : String → String → Bool) (opens : LocalStorage → Refusals → Prop)
    (t : FileTab) (e : FileTabEvent) : Decidable ((fileTab ace le opens).enabled t e) :=
  inferInstanceAs (Decidable (t.Enabled e))

end Hmix
