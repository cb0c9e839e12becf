import Hmix.Model.Json

/-!
# The storage service

`localStorage` maps the program's keys to texts. `StorageService.get`
answers `null` for a key that is absent and for a text that does not
parse. `StorageService.set` does not catch: what `setItem` throws reaches
whoever is writing.
-/

namespace Hmix

/-- The keys the program writes. -/
inductive StorageKey where
  | files
  | selectedFile
  | compilerSettings
  | rpcUrl
  | sidebarWidth
  | terminalHeight
  deriving DecidableEq

/-- The key as `localStorage` has it. -/
def StorageKey.text : StorageKey → String
  | files => "hmix-files"
  | selectedFile => "hmix-selected-file"
  | compilerSettings => "hmix-compiler-settings"
  | rpcUrl => "hmix-rpc-url"
  | sidebarWidth => "hmix-sidebar-width"
  | terminalHeight => "hmix-terminal-height"

/-- No two services share a key. -/
theorem StorageKey.text_injective : Function.Injective StorageKey.text := by
  intro a b h
  cases a <;> cases b <;> first | rfl | exact absurd h (by decide)

/-- What a browser keeps for the program's origin. -/
abbrev LocalStorage := StorageKey → Option Text

namespace LocalStorage

/-- Storage nothing was written to. -/
def empty : LocalStorage := fun _ => none

/-- `localStorage.setItem`, when there is room. -/
def setItem (storage : LocalStorage) (key : StorageKey) (text : Text) : LocalStorage :=
  fun k => if k = key then some text else storage k

end LocalStorage

/-- **`StorageService.get`.** `JSON.parse(null)` is `null`, and a
`SyntaxError` is caught. -/
def StorageService.get (storage : LocalStorage) (key : StorageKey) : Json :=
  match storage key with
  | none => .null
  | some text => (Json.parse text).getD .null

@[simp] theorem get_setItem (storage : LocalStorage) (key : StorageKey) (value : Option Json) :
    StorageService.get (storage.setItem key (Json.stringify value)) key = value.getD .null := by
  cases value <;> simp [StorageService.get, LocalStorage.setItem]

@[simp] theorem get_setItem_of_ne (storage : LocalStorage) {key key' : StorageKey} (text : Text)
    (h : key' ≠ key) :
    StorageService.get (storage.setItem key text) key' = StorageService.get storage key' := by
  simp [StorageService.get, LocalStorage.setItem, h]

/-- What a step of the page can throw. -/
inductive Thrown where
  /-- A `TypeError`: a member of `undefined` or `null` was asked for. -/
  | typeError
  /-- A `SyntaxError`, from `JSON.parse`. -/
  | syntaxError
  /-- `setItem` found no room. -/
  | quotaExceeded
  deriving DecidableEq

/-- **Which writes are refused.** A write is named by how many writes the
running operation made before it and by its key; a refused write throws
and leaves the old value. -/
abbrev Refusals := ℕ → StorageKey → Bool

/-- There is room for everything. -/
def Refusals.nothing : Refusals := fun _ _ => false

/-- There is room for nothing under `key`. -/
def Refusals.only (key : StorageKey) : Refusals := fun _ k => decide (k = key)

/-- Every write from the `k`-th on is refused: an operation that is cut
off after its first `k` writes. -/
def Refusals.cutAfter (k : ℕ) : Refusals := fun n _ => decide (k ≤ n)

end Hmix
