import Hmix.Model.Desk

/-!
# Two windows over one storage

Each window has a memory of its own, loaded once, and writes the whole tree
and the selected id to the storage both share. Nothing tells a window what
the other wrote. Beside the two windows a ledger keeps what a user would
say was done to the files, and `overtaken` whether the other window has
written since a window last loaded.
-/

namespace Hmix

/-- The two windows. -/
inductive Side where
  | left
  | right
  deriving DecidableEq

/-- **What was done to the files**, in either window. -/
structure Ledger where
  /-- The ids of the files created, or there from the start. -/
  created : List String
  /-- The ids of the files deleted. -/
  deleted : List String
  /-- The content of a file's latest save. -/
  latest : String → String

/-- What a stored tree has from the start. -/
def Ledger.ofTree (objects : List IFileObject) : Ledger where
  created := objects.map IFileObject.id
  deleted := []
  latest := fun id => ((objects.find? fun o => o.id == id).map IFileObject.content).getD ""

/-- An operation is entered, as the window that runs it has the files. -/
def Ledger.record (ledger : Ledger) (w : World) : Op → Ledger
  | .createFile uuid _ => { ledger with
      created := uuid :: ledger.created, latest := Function.update ledger.latest uuid "" }
  | .deleteFile file => { ledger with
      deleted := (w.window.heap file).id :: ledger.deleted }
  | .saveFile =>
    match w.window.selectedFile with
    | some file => { ledger with
        latest := Function.update ledger.latest (w.window.heap file).id w.window.text }
    | none => ledger
  | _ => ledger

/-- The operations that write. Typing and the list's display do not, and
what loading writes is what it read. -/
def Op.writes : Op → Bool
  | .edit _ | .sortedFiles _ | .reload => false
  | _ => true

/-- Loading. -/
def Op.loads : Op → Bool
  | .reload => true
  | _ => false

/-- Two windows, the storage they share, and what is known of their
history. -/
structure Pair where
  windows : Side → Window
  storage : LocalStorage
  ledger : Ledger
  /-- The other window has written since this one last loaded. -/
  overtaken : Side → Bool

namespace Pair

/-- What one of the windows sees. -/
def world (p : Pair) (side : Side) : World := ⟨p.windows side, p.storage, 0, []⟩

/-- Both windows are opened, one after the other. -/
def opened (ace : Ace) (storage : LocalStorage) : Pair :=
  let left := (World.opening storage).step ace .reload Refusals.nothing
  let right := (World.opening left.storage).step ace .reload Refusals.nothing
  { windows := fun side => match side with
      | .left => left.window
      | .right => right.window
    storage := right.storage
    ledger := .ofTree ((storedTree storage).getD [])
    overtaken := fun _ => false }

/-- **An operation of one window.** There is room for its writes. -/
def step (ace : Ace) (p : Pair) (side : Side) (op : Op) : Pair :=
  let w := (p.world side).step ace op Refusals.nothing
  { windows := Function.update p.windows side w.window
    storage := w.storage
    ledger := p.ledger.record (p.world side) op
    overtaken := fun s =>
      if s = side then p.overtaken s && !op.loads else p.overtaken s || op.writes }

/-- What the view of a window offers; no id is given out twice. -/
def Offers (p : Pair) (side : Side) (op : Op) : Prop :=
  op.Offered (p.world side) ∧ ∀ uuid name, op = .createFile uuid name → uuid ∉ p.ledger.created

end Pair

/-- **Two windows**, in any interleaving of their operations. -/
def twoWindows (ace : Ace) (opens : LocalStorage → Prop) : Machine Pair (Side × Op) where
  start := fun p => ∃ storage, opens storage ∧ p = Pair.opened ace storage
  enabled := fun p e => p.Offers e.1 e.2
  step := fun p e => p.step ace e.1 e.2

end Hmix
