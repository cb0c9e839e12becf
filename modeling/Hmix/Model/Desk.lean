import Hmix.Common.Machine
import Hmix.Model.FileService

/-!
# Runs of one window

A run of a window is a list of operations, each with the writes it is
refused. What the view offers is what a run may do: the files it names are
the files of the list, and a new file gets an id no file has.
-/

namespace Hmix

/-- What a user, or the view on their behalf, does to the files. -/
inductive Op where
  | createFile (uuid name : String)
  | openFile (file : FileRef)
  | selectFile (file : FileRef)
  | closeFile (file : FileRef)
  | closeAll
  | deleteFile (file : FileRef)
  | renameFile (file : FileRef) (newName : String)
  /-- The save shortcut. -/
  | saveFile
  /-- Typing, which leaves the editor with `text`. -/
  | edit (text : String)
  /-- The file list is displayed, under some locale's order. -/
  | sortedFiles (le : String → String → Bool)
  | reload

namespace Op

/-- The program an operation runs. -/
def exec (ace : Ace) (refuses : Refusals) : Op → App PUnit
  | .createFile uuid name => Hmix.createFile ace refuses uuid name
  | .openFile file => Hmix.openFile ace refuses file
  | .selectFile file => Hmix.selectFile ace refuses file
  | .closeFile file => Hmix.closeFile ace refuses file
  | .closeAll => Hmix.closeAll ace refuses
  | .deleteFile file => Hmix.deleteFile ace refuses file
  | .renameFile file newName => Hmix.renameFile refuses file newName
  | .saveFile => saveSelectedFile refuses
  | .edit text => change text
  | .sortedFiles le => Hmix.sortedFiles le
  | .reload => Hmix.reload ace refuses

/-- An id `UUID.UUID()` may return: none that a file has, here or in
storage. -/
def FreshId (w : World) (uuid : String) : Prop :=
  uuid ≠ "" ∧ (∀ f ∈ w.window.files, (w.window.heap f).id ≠ uuid) ∧
    ∀ o ∈ (storedTree w.storage).getD [], o.id ≠ uuid

instance (w : World) (uuid : String) : Decidable (FreshId w uuid) :=
  inferInstanceAs (Decidable (_ ∧ _ ∧ _))

/-- **What the view offers**: operations on the files of the list, and new
files under fresh ids. -/
def Offered (op : Op) (w : World) : Prop :=
  match op with
  | .createFile uuid _ => FreshId w uuid
  | .openFile file => file ∈ w.window.files
  | .selectFile file => file ∈ w.window.files
  | .closeFile file => file ∈ w.window.files
  | .deleteFile file => file ∈ w.window.files
  | .renameFile file _ => file ∈ w.window.files
  | .closeAll | .saveFile | .edit _ | .sortedFiles _ | .reload => True

instance (w : World) : ∀ op : Op, Decidable (op.Offered w)
  | .createFile uuid _ => inferInstanceAs (Decidable (FreshId w uuid))
  | .openFile file => inferInstanceAs (Decidable (file ∈ w.window.files))
  | .selectFile file => inferInstanceAs (Decidable (file ∈ w.window.files))
  | .closeFile file => inferInstanceAs (Decidable (file ∈ w.window.files))
  | .deleteFile file => inferInstanceAs (Decidable (file ∈ w.window.files))
  | .renameFile file _ => inferInstanceAs (Decidable (file ∈ w.window.files))
  | .closeAll | .saveFile | .edit _ | .sortedFiles _ | .reload => isTrue trivial

end Op

/-- A page that is about to load, over a storage. -/
def World.opening (storage : LocalStorage) : World := ⟨Window.blank, storage, 0, []⟩

/-- A world as an operation finds it: it has made no write yet. -/
def World.begin (w : World) : World := { w with writes := 0 }

/-- **What a window's operation does**, returned or thrown. -/
def World.step (ace : Ace) (w : World) (op : Op) (refuses : Refusals) : World :=
  after (op.exec ace refuses) w.begin

/-- **One window.** A run begins with a page loading over a storage that
`opens` admits. -/
def desk (ace : Ace) (opens : LocalStorage → Refusals → Prop) : Machine World (Op × Refusals) where
  start := fun w => ∃ storage refuses, opens storage refuses ∧
    w = (World.opening storage).step ace .reload refuses
  enabled := fun w e => e.1.Offered w
  step := fun w e => w.step ace e.1 e.2

instance (ace : Ace) (opens : LocalStorage → Refusals → Prop) (w : World) (e : Op × Refusals) :
    Decidable ((desk ace opens).enabled w e) :=
  inferInstanceAs (Decidable (e.1.Offered w))

/-- A window that was opened over an empty storage. -/
def World.fresh (ace : Ace) : World :=
  (World.opening LocalStorage.empty).step ace .reload Refusals.nothing

end Hmix
