import Hmix.Files.Names
import Hmix.Model.Undo

/-!
# Undo across a switch

A switch of the editor is itself a change of the session's text, so the text it
replaced, which is another file's, is next to be put back. Every text in the
history is one its own file has had (`Own`), in any run at all; an undo is
therefore right exactly if what it takes back replaced a text of the file that
is selected.
-/

namespace Hmix

open Window

variable {ace : Ace} {refuses : Refusals}

namespace EditSession

/-! ## The files of the session -/

/-- What a run leaves, without the history. -/
def forget {α : Type} : EStateM.Result Thrown EditSession α → EStateM.Result Thrown World α
  | .ok a x => .ok a x.files
  | .error e x => .error e x.files

/-- **Without the history** the one program is the other. -/
def Erases {α : Type} (p : Editing α) (m : App α) : Prop := ∀ x, forget (p x) = m x.files

namespace Erases

variable {α β : Type}

theorem onFiles (m : App α) : Erases (onFiles m) m := by
  intro x
  unfold EditSession.onFiles
  cases m x.files <;> rfl

theorem bind {p : Editing α} {m : App α} {p' : α → Editing β} {m' : α → App β}
    (h : Erases p m) (h' : ∀ a, Erases (p' a) (m' a)) : Erases (p >>= p') (m >>= m') := by
  intro x
  have hx := h x
  change forget (EStateM.bind p p' x) = EStateM.bind m m' x.files
  unfold EStateM.bind
  cases hp : p x with
  | ok a x' =>
    rw [hp] at hx
    rw [← hx]
    exact h' a x'
  | error e x' =>
    rw [hp] at hx
    rw [← hx]
    rfl

/-- Of the session, a program reads the files. -/
theorem get {p' : EditSession → Editing β} {m' : World → App β}
    (h : ∀ x, Erases (p' x) (m' x.files)) :
    Erases (MonadState.get >>= p') (MonadState.get >>= m') := fun x => h x x

/-- What is kept of the history is no matter of the files. -/
theorem silent {p₀ : Editing PUnit} {p : Editing β} {m : App β}
    (h₀ : ∀ x, forget (p₀ x) = .ok ⟨⟩ x.files) (h : Erases p m) :
    Erases (p₀ >>= fun _ => p) m := by
  intro x
  have hx := h₀ x
  change forget (EStateM.bind p₀ (fun _ => p) x) = m x.files
  unfold EStateM.bind
  cases hp : p₀ x with
  | ok a x' =>
    rw [hp] at hx
    rw [← (EStateM.Result.ok.inj hx).2]
    exact h x'
  | error e x' =>
    rw [hp] at hx
    cases hx

theorem ite {c : Prop} [Decidable c] {p p' : Editing α} {m m' : App α} (h : Erases p m)
    (h' : Erases p' m') : Erases (if c then p else p') (if c then m else m') := by
  split_ifs
  · exact h
  · exact h'

theorem pure (a : α) : Erases (Pure.pure a) (Pure.pure a) := fun _ => rfl

theorem forM {γ : Type} {p : γ → Editing PUnit} {m : γ → App PUnit}
    (h : ∀ c, Erases (p c) (m c)) : ∀ cs : List γ, Erases (cs.forM p) (cs.forM m)
  | [] => pure PUnit.unit
  | c :: cs => (h c).bind fun _ => forM h cs

end Erases

section

variable {f : FileRef}

theorem erases_setContent (content : String) :
    Erases (setContent ace content) (Hmix.setContent ace content) :=
  .silent (fun _ => rfl) (.onFiles _)

theorem erases_edit (text : String) : Erases (edit text) (change text) :=
  .silent (fun _ => rfl) (.onFiles _)

theorem erases_showFile : Erases (showFile ace refuses f) (Hmix.showFile ace refuses f) :=
  (Erases.onFiles _).bind fun _ => .get fun _ => erases_setContent _

theorem erases_openFile : Erases (openFile ace refuses f) (Hmix.openFile ace refuses f) :=
  (Erases.onFiles _).bind fun _ => erases_showFile.bind fun _ => .onFiles _

theorem erases_selectFile : Erases (selectFile ace refuses f) (Hmix.selectFile ace refuses f) :=
  .get fun _ => .ite erases_showFile (erases_openFile.bind fun _ => erases_showFile)

theorem erases_createFile {uuid name : String} :
    Erases (createFile ace refuses uuid name) (Hmix.createFile ace refuses uuid name) :=
  (Erases.onFiles _).bind fun _ => (Erases.onFiles _).bind fun _ => erases_openFile

theorem erases_findFileToSelect :
    Erases (findFileToSelect ace refuses f) (Hmix.findFileToSelect ace refuses f) := by
  refine .get fun x => .ite ((Erases.onFiles _).bind fun _ => ?_) (.pure _)
  cases neighbour x.files.window.openFiles f with
  | none => exact .pure _
  | some g => exact erases_selectFile

theorem erases_closeFile : Erases (closeFile ace refuses f) (Hmix.closeFile ace refuses f) :=
  erases_findFileToSelect.bind fun _ => (Erases.onFiles _).bind fun _ => .onFiles _

theorem erases_deleteFile : Erases (deleteFile ace refuses f) (Hmix.deleteFile ace refuses f) :=
  erases_findFileToSelect.bind fun _ => (Erases.onFiles _).bind fun _ => .onFiles _

theorem erases_loadSelectedFile :
    Erases (loadSelectedFile ace refuses) (Hmix.loadSelectedFile ace refuses) := by
  refine .get fun x => ?_
  cases selectedFileId x.files.storage with
  | none => exact .pure _
  | some id =>
    dsimp only
    cases x.files.window.files.find? fun f => (x.files.window.heap f).id == id with
    | none => exact fun _ => rfl
    | some file => exact erases_selectFile

theorem erases_reload : Erases (reload ace refuses) (Hmix.reload ace refuses) :=
  .silent (fun _ => rfl) <| (Erases.onFiles _).bind fun _ =>
    erases_loadSelectedFile.bind fun _ => (Erases.onFiles _).bind fun _ => .onFiles _

theorem erases_exec (op : Op) : Erases (exec ace refuses op) (op.exec ace refuses) := by
  cases op with
  | createFile uuid name => exact erases_createFile
  | openFile f => exact erases_openFile
  | selectFile f => exact erases_selectFile
  | closeFile f => exact erases_closeFile
  | closeAll => exact .get fun _ => .forM (fun _ => erases_closeFile) _
  | deleteFile f => exact erases_deleteFile
  | edit text => exact erases_edit text
  | reload => exact erases_reload
  | renameFile f newName => exact .onFiles _
  | saveFile => exact .onFiles _
  | sortedFiles le => exact .onFiles (Hmix.sortedFiles le)

/-- **What an operation does to the files**, it does with the history as
without. -/
theorem files_after_exec (op : Op) (x : EditSession) :
    (after (exec ace refuses op) x).files = after (op.exec ace refuses) x.files := by
  have h := @erases_exec ace refuses op x
  unfold after
  rw [← h]
  cases exec ace refuses op x <;> rfl

end

variable {x : EditSession}

theorem wp_onFiles {α : Type} {m : App α} {Q : α → EditSession → Prop}
    {E : Thrown → EditSession → Prop} :
    wp (onFiles m) Q E x ↔ wp m (fun a files => Q a { x with files := files })
      (fun e files => E e { x with files := files }) x.files := by
  unfold wp onFiles
  cases m x.files <;> rfl

theorem after_undo_nil (h : x.undoStack = []) : after undo x = x := by
  refine (wp_iff_after (I := fun x' => x' = x)).1 ?_
  simp only [undo, wp_bind, wp_get, h, wp_pure]

/-- **An undo is an edit**, and one change less is recorded. -/
theorem after_undo_cons {last : Replaced} {undoStack : List Replaced}
    (h : x.undoStack = last :: undoStack) : after undo x = { x with
      files := after (change last.text) x.files
      undoStack := undoStack
      owner := x.files.window.selectedFile } := by
  refine (wp_iff_after (I := fun x' => x' = _)).1 ?_
  simp only [undo, wp_bind, wp_get, h, wp_set, wp_onFiles]
  exact wp_iff_after.2 rfl

end EditSession

theorem offered_begin {op : Op} {w : World} : op.Offered w.begin ↔ op.Offered w := by
  cases op <;> exact Iff.rfl

open EditSession in
/-- **Every run is a run of the window**, up to how many writes were made last:
an undo is an edit. -/
theorem files_of_reachable {x : EditSession} (h : (undoDesk ace).Reachable x) :
    ∃ w, (desk ace fun _ _ => True).Reachable w ∧ x.files.begin = w.begin := by
  refine h.invariant
    (I := fun x => ∃ w, (desk ace fun _ _ => True).Reachable w ∧ x.files.begin = w.begin) ?_ ?_
  · rintro _ ⟨storage, refuses, rfl⟩
    rw [files_after_exec]
    exact ⟨_, .start ⟨storage, refuses, trivial, rfl⟩, rfl⟩
  · rintro x e ⟨w, hw, hbegin⟩ he
    cases e with
    | files op refuses =>
      have hop : op.Offered w := offered_begin.1 (hbegin ▸ offered_begin.2 he)
      refine ⟨_, hw.step (e := (op, refuses)) hop, ?_⟩
      change (after (exec ace refuses op) x.begin).files.begin = (w.step ace op refuses).begin
      rw [files_after_exec, World.step, ← hbegin]
      rfl
    | undo =>
      change ∃ w' : World, _ ∧ (after undo x.begin).files.begin = w'.begin
      rcases hstack : x.undoStack with - | ⟨last, undoStack⟩
      · rw [@after_undo_nil x.begin hstack]
        exact ⟨w, hw, hbegin⟩
      · have hedit : (desk ace fun _ _ => True).enabled w (.edit last.text, Refusals.nothing) :=
          trivial
        refine ⟨_, hw.step hedit, ?_⟩
        change _ = (w.step ace (.edit last.text) Refusals.nothing).begin
        rw [@after_undo_cons x.begin last undoStack hstack, World.step, ← hbegin]
        rfl

/-! ## Whose text is whose -/

/-- **The text was its owner's once.** -/
def Replaced.Of (texts : FileRef → List String) (next : FileRef) (c : Replaced) : Prop :=
  ∀ f, c.owner = some f → f < next ∧ c.text ∈ texts f

/-- No text that the session may hold has changed. -/
structure Window.Undisturbed (m m' : Window) : Prop where
  next : m.next ≤ m'.next
  below : m.Below → m'.Below
  text : m'.text = m.text
  tempContent : ∀ f < m.next, (m'.heap f).tempContent = (m.heap f).tempContent

theorem Window.SameFiles.undisturbed {m m' : Window} (h : SameFiles m m') (htext : m'.text = m.text)
    (htemp : ∀ f, (m'.heap f).tempContent = (m.heap f).tempContent) : Undisturbed m m' where
  next := h.next.ge
  below := fun hm f hf => h.next ▸ hm f (h.files ▸ hf)
  text := htext
  tempContent := fun f _ => htemp f

theorem Window.undisturbed_assign (m : Window) (f : FileRef) {g : File → File}
    (hg : ∀ o, (g o).tempContent = o.tempContent) : Undisturbed m (m.assign f g) where
  next := le_rfl
  below := id
  text := rfl
  tempContent := fun f' _ => by
    by_cases hf : f' = f
    · subst hf
      rw [assign_heap_self, hg]
    · rw [assign_heap_of_ne _ _ _ hf]

namespace EditSession

/-- **Every text is its owner's**: what the session holds, and what is recorded.
At least the first `n` objects are made. -/
structure Own (n : FileRef) (x : EditSession) : Prop where
  made : n ≤ x.files.window.next
  below : x.files.window.Below
  selected : ∀ f, x.files.window.selectedFile = some f → f < x.files.window.next
  held : Replaced.Of x.texts x.files.window.next ⟨x.files.window.text, x.owner⟩
  replaced : ∀ c ∈ x.undoStack, c.Of x.texts x.files.window.next

section

variable {x : EditSession} {f n : FileRef}

theorem of_undisturbed {c : Replaced} {files : World} (h : c.Of x.texts x.files.window.next)
    (hq : Undisturbed x.files.window files.window) :
    c.Of ({ x with files := files } : EditSession).texts files.window.next := fun f hf => by
  obtain ⟨hmade, hmem⟩ := h f hf
  refine ⟨hmade.trans_le hq.next, ?_⟩
  simpa only [texts, hq.tempContent f hmade] using hmem

theorem Own.mono {n' : FileRef} (h : Own n x) (hn : n' ≤ n) : Own n' x :=
  ⟨hn.trans h.made, h.below, h.selected, h.held, h.replaced⟩

/-- Nothing the session may hold has changed; another file may be selected. -/
theorem Own.undisturbed {files : World} (h : Own n x) (hq : Undisturbed x.files.window files.window)
    (hselected : ∀ f, files.window.selectedFile = some f → f < files.window.next) :
    Own n { x with files := files } where
  made := h.made.trans hq.next
  below := hq.below h.below
  selected := hselected
  held := by
    have := of_undisturbed h.held hq
    rwa [← hq.text] at this
  replaced := fun c hc => of_undisturbed (h.replaced c hc) hq

/-- The same window. -/
theorem Own.same {files : World} (h : Own n x) (hw : files.window = x.files.window) :
    Own n { x with files := files } := by
  refine h.undisturbed ?_ (hw ▸ h.selected)
  rw [hw]
  exact (SameFiles.refl _).undisturbed rfl fun _ => rfl

/-! ## The operations -/

theorem own_saveFileTree : Preserves (Own n) (onFiles (saveFileTree refuses)) := fun _ h =>
  wp_onFiles.2 (wp_saveFileTree (fun _ => h.same rfl) fun _ => h.same rfl)

theorem own_assign {g : File → File} (hg : ∀ o, (g o).tempContent = o.tempContent) :
    Preserves (Own n) (onFiles (modifyWindow fun m => m.assign f g)) := fun x h =>
  wp_onFiles.2 (h.undisturbed (undisturbed_assign x.files.window f hg) h.selected)

theorem own_setSelectedFile {file : Option FileRef} (hf : ∀ g, file = some g → g < n) :
    Preserves (Own n) (onFiles (setSelectedFile refuses file)) := fun x h => by
  have hselected : ∀ g, file = some g → g < x.files.window.next := fun g hg =>
    (hf g hg).trans_le h.made
  have hkept : Undisturbed x.files.window { x.files.window with selectedFile := file } :=
    (sameFiles_select x.files.window file).undisturbed rfl fun _ => rfl
  exact wp_onFiles.2 (wp_setSelectedFile (fun _ => h.undisturbed hkept hselected)
    fun _ => h.undisturbed hkept hselected)

/-- **A switch** is recorded with the text it replaces, and leaves the session
with the text of the file that is selected. -/
theorem own_showFile (hf : f < n) : Preserves (Own n) (showFile ace refuses f) := fun x h => by
  have hselected : Own n { x with files := { x.files with
      window := { x.files.window with selectedFile := some f } } } :=
    h.undisturbed ((sameFiles_select x.files.window (some f)).undisturbed rfl fun _ => rfl)
      fun g hg => Option.some.inj hg ▸ hf.trans_le h.made
  simp only [showFile, wp_bind, wp_onFiles]
  refine wp_setSelectedFile (fun _ => hselected.same rfl) fun _ => ?_
  simp only [wp_get, setContent, record, wp_bind, wp_modify, wp_onFiles]
  refine wp_setContent (f := f) rfl fun m hm => ?_
  have hkept : ∀ c : Replaced, c.Of x.texts x.files.window.next → c.Of
      (fun g => (m.heap g).tempContent :: x.past g) m.next := fun c hc g hg => by
    obtain ⟨hmade, hmem⟩ := hc g hg
    refine ⟨hmade.trans_eq hm.next.symm, ?_⟩
    change c.text ∈ (m.heap g).tempContent :: x.past g
    rw [hm.tempContent g]
    exact hmem
  refine ⟨h.made.trans_eq hm.next.symm, ?_, fun g hg => ?_, fun g hg => ?_, ?_⟩
  · exact fun g hg => hm.next ▸ h.below g (hm.files ▸ hg)
  · obtain rfl : f = g := Option.some.inj (hm.selectedFile.symm.trans hg)
    exact (hf.trans_le h.made).trans_eq hm.next.symm
  · obtain rfl : f = g := Option.some.inj hg
    refine ⟨(hf.trans_le h.made).trans_eq hm.next.symm, ?_⟩
    exact List.mem_cons.2 (.inl (hm.synced f hm.selectedFile))
  · exact List.forall_mem_cons.2 ⟨hkept _ h.held, fun c hc => hkept c (h.replaced c hc)⟩

/-- The file is marked open, or closed. -/
theorem own_setOpen {isOpen : Bool} : Preserves (Own n)
    (onFiles (modifyWindow fun m => m.assign f fun o => { o with isOpen := isOpen })) :=
  own_assign fun _ => rfl

theorem own_openFile (hf : f < n) : Preserves (Own n) (openFile ace refuses f) :=
  own_setOpen.bind fun _ => (own_showFile hf).bind fun _ => own_saveFileTree

theorem own_selectFile (hf : f < n) : Preserves (Own n) (selectFile ace refuses f) := fun x h => by
  simp only [selectFile, wp_bind, wp_get, wp_ite]
  refine ⟨fun _ => own_showFile hf x h, fun _ => ?_⟩
  exact (own_openFile hf x h).imp fun _ x' h' => own_showFile hf x' h'

theorem own_createFile {uuid name : String} :
    Preserves (Own n) (createFile ace refuses uuid name) := fun x h => by
  simp only [createFile, newFile, wp_bind, wp_onFiles, wp_get, wp_modifyWindow, wp_pure]
  set m := x.files.window with hm
  have hkept : Undisturbed m (m.withNew uuid name) := by
    refine ⟨Nat.le_succ _, fun hb g hg => ?_, rfl, fun g hg => ?_⟩
    · rcases mem_withNew_files.1 hg with hg | rfl
      · exact Nat.lt_succ_of_lt (hb g hg)
      · exact Nat.lt_succ_self _
    · rw [withNew_heap_of_ne (Nat.ne_of_lt hg)]
  have hadded : Own n { x with files := { x.files with window := m.withNew uuid name } } :=
    h.undisturbed hkept fun g hg => Nat.lt_succ_of_lt (h.selected g hg)
  have hnew : Own (m.next + 1) { x with files := { x.files with window := m.withNew uuid name } } :=
    ⟨le_rfl, hadded.below, hadded.selected, hadded.held, hadded.replaced⟩
  refine (own_openFile (Nat.lt_succ_self m.next) _ hnew).mono (fun _ x' h' => ?_) fun _ x' h' => ?_
  · exact h'.mono (Nat.le_succ_of_le h.made)
  · exact h'.mono (Nat.le_succ_of_le h.made)

theorem mem_of_neighbour {l : List FileRef} {g : FileRef} (h : neighbour l f = some g) : g ∈ l := by
  simp only [neighbour, elementAt] at h
  split_ifs at h
  all_goals exact List.mem_of_getElem? h

/-- The neighbour that is shown is a file of the list. -/
theorem own_findFileToSelect : Preserves (Own n) (findFileToSelect ace refuses f) := fun x h => by
  simp only [findFileToSelect, wp_bind, wp_get, wp_ite]
  refine ⟨fun _ => ?_, fun _ => h⟩
  have hnow : Own x.files.window.next x := { h with made := le_rfl }
  have hneighbour : ∀ g, neighbour x.files.window.openFiles f = some g →
      g < x.files.window.next := fun g hg =>
    h.below g (List.mem_of_mem_filter (mem_of_neighbour hg))
  refine ((own_setSelectedFile hneighbour x hnow).mono (fun _ x₁ h₁ => ?_) fun _ x₁ h₁ =>
    h₁.mono h.made)
  rcases hg : neighbour x.files.window.openFiles f with - | g
  · exact h₁.mono h.made
  · exact (own_selectFile (hneighbour g hg) x₁ h₁).mono (fun _ _ h₂ => h₂.mono h.made)
      fun _ _ h₂ => h₂.mono h.made

theorem own_closeFile : Preserves (Own n) (closeFile ace refuses f) :=
  own_findFileToSelect.bind fun _ => own_setOpen.bind fun _ => own_saveFileTree

theorem own_deleteFile : Preserves (Own n) (deleteFile ace refuses f) := by
  refine own_findFileToSelect.bind fun _ => Preserves.bind (fun x h => ?_) fun _ => own_saveFileTree
  refine wp_onFiles.2 (h.undisturbed ⟨le_rfl, fun hb g hg => ?_, rfl, fun _ _ => rfl⟩ h.selected)
  exact hb g (List.mem_of_mem_filter hg)

theorem own_closeAll : Preserves (Own n) (closeAll ace refuses) := fun x h => by
  simp only [closeAll, wp_bind, wp_get]
  exact preserves_forM (fun _ => own_closeFile) _ x h

theorem own_saveSelectedFile : Preserves (Own n) (onFiles (saveSelectedFile refuses)) :=
  fun x h => wp_onFiles.2 <| wp_saveSelectedFile (fun _ => h) fun f _ =>
      wp_saveFile fun events => by
    have hkept : Undisturbed x.files.window (x.files.window.saved f) :=
      undisturbed_assign _ _ fun _ => rfl
    have hsaved : Own n { x with files := { x.files with
        window := x.files.window.saved f, savedEvents := events } } :=
      h.undisturbed hkept h.selected
    exact wp_saveFileTree (fun _ => hsaved.same rfl) fun _ => hsaved.same rfl

theorem own_renameFile {newName : String} :
    Preserves (Own n) (onFiles (renameFile refuses f newName)) := fun x h => by
  rw [wp_onFiles, wp_renameFile_iff]
  have hkept : Undisturbed x.files.window (x.files.window.renamed f newName) :=
    undisturbed_assign _ _ fun _ => rfl
  have hrenamed : Own n { x with files := { x.files with
      window := x.files.window.renamed f newName } } := h.undisturbed hkept h.selected
  exact wp_saveFileTree (fun _ => hrenamed.same rfl) fun _ => hrenamed.same rfl

theorem own_sortedFiles {le : String → String → Bool} :
    Preserves (Own n) (onFiles (sortedFiles le)) := fun x h => by
  refine wp_onFiles.2 (h.undisturbed ⟨le_rfl, fun hb g hg => ?_, rfl, fun _ _ => rfl⟩ h.selected)
  exact hb g (List.mem_mergeSort.1 hg)

theorem own_loadSelectedFile : Preserves (Own n) (loadSelectedFile ace refuses) := fun x h => by
  simp only [loadSelectedFile, wp_bind, wp_get]
  cases selectedFileId x.files.storage with
  | none => exact h
  | some id =>
    dsimp only
    rcases hfound : x.files.window.files.find? fun f => (x.files.window.heap f).id == id with - | g
    · exact h
    · have hnow : Own x.files.window.next x := { h with made := le_rfl }
      have hg : g < x.files.window.next := h.below g (List.mem_of_find?_eq_some hfound)
      exact (own_selectFile hg x hnow).mono (fun _ _ h' => h'.mono h.made)
        fun _ _ h' => h'.mono h.made

/-- A page that loads has a session of its own. -/
theorem own_reload : wp (reload ace refuses) (fun _ => Own 0) (fun _ => Own 0) x := by
  have hloaded : ∀ objects (w : World), Own 0
      ⟨{ w with window := ofTree objects }, [], none, fun _ => []⟩ := fun objects w =>
    ⟨Nat.zero_le _, fun f hf => mem_ofTree_files.1 hf, (fun f hf => by cases hf),
      (fun f hf => by cases hf), fun c hc => absurd hc List.not_mem_nil⟩
  simp only [reload, loadFileTree, wp_bind, wp_modify, wp_onFiles, wp_get, wp_modifyWindow]
  rcases storedTree x.files.storage with - | objects
  · exact hloaded [] x.files
  · refine (own_loadSelectedFile _ (hloaded objects x.files)).imp fun _ x' h' => ?_
    simp only [initShortcuts, initSaveCheck]
    exact h'.undisturbed ⟨le_rfl, id, rfl, fun _ _ => rfl⟩ h'.selected

/-! ## One step, and every run -/

/-- Before an operation every text a file has had is noted. -/
theorem of_begin {c : Replaced} (h : c.Of x.texts x.files.window.next) :
    c.Of x.begin.past x.begin.files.window.next := fun f hf => by
  obtain ⟨hmade, hmem⟩ := h f hf
  refine ⟨hmade, ?_⟩
  change c.text ∈ if f < x.files.window.next then _ else _
  rw [if_pos hmade]
  exact hmem

theorem Own.begin (h : Own n x) : Own n x.begin where
  made := h.made
  below := h.below
  selected := h.selected
  held := fun f hf => (of_begin h.held f hf).imp_right (List.mem_cons_of_mem _)
  replaced := fun c hc f hf =>
    (of_begin (h.replaced c hc) f hf).imp_right (List.mem_cons_of_mem _)

/-- **The text changes**, and it is the selected file's from then on. -/
theorem own_change {text : String} {undoStack : List Replaced} (h : Own n x)
    (hstack : ∀ c ∈ undoStack, c.Of x.past x.files.window.next) :
    wp (onFiles (change text)) (fun _ => Own n) (fun _ => Own n)
      { x with undoStack := undoStack, owner := x.files.window.selectedFile } := by
  have hreplaced : ∀ c ∈ undoStack, ∀ heap : FileRef → File,
      c.Of (fun g => (heap g).tempContent :: x.past g) x.files.window.next :=
    fun c hc _ f hf => (hstack c hc f hf).imp_right (List.mem_cons_of_mem _)
  rw [wp_onFiles]
  rcases hf : x.files.window.selectedFile with - | f
  · rw [wp_change_none (by exact hf)]
    exact ⟨h.made, h.below, h.selected, fun g hg => (by cases hg), fun c hc => hreplaced c hc _⟩
  · rw [wp_change (by exact hf)]
    refine ⟨h.made, h.below, h.selected, fun g hg => ⟨?_, ?_⟩, fun c hc => hreplaced c hc _⟩
    · exact h.selected g (hf.trans hg)
    · obtain rfl : f = g := Option.some.inj hg
      simp [texts]

theorem own_step {e : EditEvent} (h : Own 0 x) (he : (undoDesk ace).enabled x e) :
    Own 0 ((undoDesk ace).step x e) := by
  have hb := h.begin
  have hpast : ∀ c ∈ x.begin.undoStack, c.Of x.begin.past x.begin.files.window.next :=
    fun c hc => of_begin (h.replaced c hc)
  refine wp_iff_after.1 ?_
  cases e with
  | undo =>
    rcases hstack : x.begin.undoStack with - | ⟨last, undoStack⟩
    · simp only [EditEvent.exec, undo, wp_bind, wp_get, hstack, wp_pure]
      exact hb
    · simp only [EditEvent.exec, undo, wp_bind, wp_get, hstack, wp_set]
      exact own_change hb fun c hc => hpast c (hstack ▸ List.mem_cons_of_mem _ hc)
  | files op refuses =>
    have hlisted : ∀ f ∈ x.files.window.files, Own (f + 1) x.begin := fun f hf =>
      ⟨h.below f hf, hb.below, hb.selected, hb.held, hb.replaced⟩
    cases op with
    | createFile uuid name => exact own_createFile _ hb
    | openFile f =>
      exact (own_openFile (Nat.lt_succ_self f) _ (hlisted f he)).mono
        (fun _ _ h' => h'.mono (Nat.zero_le _)) fun _ _ h' => h'.mono (Nat.zero_le _)
    | selectFile f =>
      exact (own_selectFile (Nat.lt_succ_self f) _ (hlisted f he)).mono
        (fun _ _ h' => h'.mono (Nat.zero_le _)) fun _ _ h' => h'.mono (Nat.zero_le _)
    | closeFile f => exact own_closeFile _ hb
    | closeAll => exact own_closeAll _ hb
    | deleteFile f => exact own_deleteFile _ hb
    | renameFile f newName => exact own_renameFile _ hb
    | saveFile => exact own_saveSelectedFile _ hb
    | sortedFiles le => exact own_sortedFiles _ hb
    | reload => exact own_reload
    | edit text =>
      simp only [EditEvent.exec, exec, edit, record, wp_bind, wp_modify]
      exact own_change hb (List.forall_mem_cons.2 ⟨of_begin h.held, hpast⟩)

theorem own_of_reachable (h : (undoDesk ace).Reachable x) : Own 0 x := by
  refine h.invariant (I := Own 0) ?_ fun _ _ hx he => own_step hx he
  rintro _ ⟨storage, refuses, rfl⟩
  exact wp_iff_after.1 own_reload

/-- The latest change that is recorded, if there is one, replaced a text of the
file. -/
def LastOf (x : EditSession) (f : FileRef) : Prop := ∀ c ∈ x.undoStack.head?, c.owner = some f

/-- **Where an undo takes its text from.** In any run, with `f` selected, an
undo whose change replaced a text of `f` gives `f` a text it has had. Any other
gives it the text that was replaced, which its own file has had. -/
theorem undo_restores (h : (undoDesk ace).Reachable x)
    (hf : x.files.window.selectedFile = some f) :
    let x' := (undoDesk ace).step x .undo
    (x.LastOf f → (x'.files.window.heap f).tempContent ∈ x.texts f) ∧
      ∀ c ∈ x.undoStack.head?, (x'.files.window.heap f).tempContent = c.text ∧
        ∀ g, c.owner = some g → c.text ∈ x.texts g := by
  intro x'
  have hown := own_of_reachable h
  rcases hstack : x.undoStack with - | ⟨last, undoStack⟩
  · have hsame : x' = x.begin := @after_undo_nil x.begin hstack
    refine ⟨fun _ => ?_, fun c hc => by cases hc⟩
    rw [hsame]
    exact List.mem_cons_self
  · have hlast := hown.replaced last (hstack ▸ List.mem_cons_self)
    have htext : (x'.files.window.heap f).tempContent = last.text := by
      have hx' : x' = _ := @after_undo_cons x.begin last undoStack hstack
      rw [hx']
      refine (wp_iff_after (I := fun w : World => (w.window.heap f).tempContent = last.text)).1 ?_
      rw [wp_change (by exact hf)]
      simp
    refine ⟨fun hmine => ?_, fun c hc => ?_⟩
    · rw [htext]
      exact (hlast f (hmine last (by simp [hstack]))).2
    · obtain rfl : last = c := by simpa using hc
      exact ⟨htext, fun g hg => (hlast g hg).2⟩

/-- The page over an empty storage. -/
def fresh : EditSession :=
  after (exec Ace.brace Refusals.nothing .reload) (opening LocalStorage.empty).begin

theorem fresh_reachable : (undoDesk Ace.brace).Reachable fresh :=
  .start ⟨LocalStorage.empty, Refusals.nothing, rfl⟩

/-- A file is created and typed into. -/
def typed : List EditEvent :=
  [.files (.createFile "u1" "A.sol") Refusals.nothing, .files (.edit "x") Refusals.nothing]

/-- Taking the typing back leaves the file as it was created. -/
theorem undo_typed : (((undoDesk Ace.brace).step ((undoDesk Ace.brace).run fresh typed)
    .undo).files.window.heap 0).tempContent ∈ ((undoDesk Ace.brace).run fresh typed).texts 0 := by
  have hadmits : (undoDesk Ace.brace).Admits fresh typed := by decide
  refine (undo_restores (fresh_reachable.run hadmits) (by decide)).1 fun c hc => ?_
  obtain rfl : c = ⟨"", some 0⟩ := (Option.mem_unique hc (by decide))
  rfl

/-- Another file is created. -/
def typedAndSwitched : List EditEvent :=
  typed ++ [.files (.createFile "u2" "B.sol") Refusals.nothing]

/-- **After a switch an undo brings the text of the other file**: the new file
gets what was typed into the one before. -/
theorem undo_after_switch : ¬ ∀ x, (undoDesk Ace.brace).Reachable x → ∀ f,
    x.files.window.selectedFile = some f →
      (((undoDesk Ace.brace).step x .undo).files.window.heap f).tempContent ∈ x.texts f := by
  intro h
  have hadmits : (undoDesk Ace.brace).Admits fresh typedAndSwitched := by decide
  exact absurd (h _ (fresh_reachable.run hadmits) 1 (by decide)) (by decide)

end

end EditSession

end Hmix
