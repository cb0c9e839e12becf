import Hmix.Files.Names

/-!
# What every name satisfies

A name is given by whoever creates or renames a file; every other operation moves names between
the list and the stored tree. So what the given names satisfy, all do, whatever is refused.
-/

namespace Hmix

open Window

variable {ace : Ace} {refuses : Refusals}

/-- **The names of the list and of the stored tree** satisfy `P`. -/
structure AllNamed (P : String → Prop) (w : World) : Prop where
  files : ∀ f ∈ w.window.files, P (w.window.heap f).name
  tree : ∀ objects, storedTree w.storage = some objects → ∀ o ∈ objects, P o.name

section

variable {P : String → Prop} {w w' : World} {f : FileRef}

theorem AllNamed.same (h : AllNamed P w) (hnames : SameNames w.window w'.window)
    (htree : storedTree w'.storage = storedTree w.storage) : AllNamed P w' where
  files := fun f hf => by
    rw [hnames.name]
    exact h.files f (hnames.files ▸ hf)
  tree := fun objects hobjects => h.tree objects (htree ▸ hobjects)

theorem AllNamed.assign {g : File → File} (h : AllNamed P w) (f : FileRef)
    (hg : ∀ o, (g o).name = o.name) : AllNamed P { w with window := w.window.assign f g } :=
  h.same (sameNames_assign w.window f hg) rfl

theorem named_saveFileTree : Preserves (AllNamed P) (saveFileTree refuses) := fun w h =>
  wp_saveFileTree (fun _ => h.same (.refl _) rfl) fun _ => {
    files := h.files
    tree := fun objects hobjects o ho => by
      rw [storedTree_set_files, Option.some.injEq] at hobjects
      subst hobjects
      obtain ⟨f, hf, rfl⟩ := List.mem_map.1 ho
      exact h.files f hf }

theorem named_setSelectedFile {file : Option FileRef} :
    Preserves (AllNamed P) (setSelectedFile refuses file) := fun w h =>
  have hmoved := (sameFiles_select w.window file).sameNames
  wp_setSelectedFile (fun _ => h.same hmoved rfl) fun _ => h.same hmoved (by simp)

theorem named_showFile : Preserves (AllNamed P) (showFile ace refuses f) := fun w h =>
  wp_showFile (fun _ => h.same (sameFiles_select w.window (some f)).sameNames rfl)
    fun _ _ hm => h.same hm.sameFiles.sameNames (by simp)

theorem named_openFile : Preserves (AllNamed P) (openFile ace refuses f) := fun w h => by
  rw [wp_openFile_iff]
  have hopened : AllNamed P { w with window := w.window.opened f } := h.assign f fun _ => rfl
  exact (named_showFile _ hopened).imp fun _ w' h' => named_saveFileTree w' h'

theorem named_selectFile : Preserves (AllNamed P) (selectFile ace refuses f) := fun w h => by
  rw [wp_selectFile_iff]
  refine ⟨fun _ => named_showFile w h, fun _ => ?_⟩
  exact (named_openFile w h).imp fun _ w' h' => named_showFile w' h'

theorem named_findFileToSelect :
    Preserves (AllNamed P) (findFileToSelect ace refuses f) := fun w h =>
  wp_findFileToSelect (fun _ => h) (fun _ _ => named_setSelectedFile w h) fun _ _ _ =>
    (named_setSelectedFile w h).imp fun _ w' h' => named_selectFile w' h'

theorem named_closeFile : Preserves (AllNamed P) (closeFile ace refuses f) := fun w h => by
  rw [wp_closeFile_iff]
  refine (named_findFileToSelect w h).imp fun _ w' h' => ?_
  have hclosed : AllNamed P { w' with window := w'.window.closed f } := h'.assign f fun _ => rfl
  exact named_saveFileTree _ hclosed

theorem named_deleteFile : Preserves (AllNamed P) (deleteFile ace refuses f) := fun w h => by
  rw [wp_deleteFile_iff]
  refine (named_findFileToSelect w h).imp fun _ w' h' => ?_
  have hwithout : AllNamed P { w' with window := w'.window.without f } :=
    ⟨fun g hg => h'.files g (mem_without_files.1 hg).1, h'.tree⟩
  exact named_saveFileTree _ hwithout

theorem named_saveSelectedFile : Preserves (AllNamed P) (saveSelectedFile refuses) := fun w h =>
  wp_saveSelectedFile (fun _ => h) fun f _ => wp_saveFile fun events =>
    have hsaved := sameNames_assign w.window f (g := fun o =>
      { o with content := w.window.text, isSaved := true }) fun _ => rfl
    named_saveFileTree { w with window := w.window.saved f, savedEvents := events }
      (h.same hsaved rfl)

theorem named_change {text : String} : Preserves (AllNamed P) (change text) := fun w h => by
  rcases hf : w.window.selectedFile with - | f
  · exact (wp_change_none hf).2 (h.same (sameFiles_text w.window text).sameNames rfl)
  · have htext : AllNamed P { w with window := { w.window with text := text } } :=
      h.same (sameFiles_text w.window text).sameNames rfl
    exact (wp_change hf).2 (htext.assign f fun _ => rfl)

theorem named_createFile {uuid name : String} (hname : P name) :
    Preserves (AllNamed P) (createFile ace refuses uuid name) := fun w h => by
  rw [wp_createFile_iff]
  have hcreated : AllNamed P { w with window := w.window.withNew uuid name } := by
    refine ⟨fun f hf => ?_, h.tree⟩
    rcases eq_or_ne f w.window.next with rfl | hold
    · rw [withNew_heap_next]
      exact hname
    · rw [withNew_heap_of_ne hold]
      exact h.files f ((mem_withNew_files.1 hf).resolve_right hold)
  exact named_openFile _ hcreated

theorem named_renameFile {name : String} (hname : P name) :
    Preserves (AllNamed P) (renameFile refuses f name) := fun w h => by
  rw [wp_renameFile_iff]
  have hrenamed : AllNamed P { w with window := w.window.renamed f name } := by
    refine ⟨fun g hg => ?_, h.tree⟩
    rcases eq_or_ne g f with rfl | hgf
    · simpa [Window.renamed] using hname
    · simpa [Window.renamed, hgf] using h.files g hg
  exact named_saveFileTree _ hrenamed

theorem named_reload : Preserves (AllNamed P) (reload ace refuses) := fun w h => by
  rcases htree : storedTree w.storage with - | objects
  · simp only [reload, loadFileTree, wp_bind, wp_get, wp_modifyWindow, htree, wp_throw]
    exact ⟨fun _ hf => absurd hf List.not_mem_nil, h.tree⟩
  · have hloaded : AllNamed P { w with window := ofTree objects } := by
      refine ⟨fun f hf => ?_, h.tree⟩
      have hlt := mem_ofTree_files.1 hf
      rw [ofTree_heap hlt]
      exact h.tree objects htree _ (List.getElem_mem hlt)
    refine wp_reload htree (fun _ => hloaded.same ⟨rfl, rfl, fun _ => rfl⟩ rfl) (fun f _ _ => ?_)
      fun _ _ _ => hloaded
    exact (named_selectFile _ hloaded).imp fun _ w' h' => h'.same ⟨rfl, rfl, fun _ => rfl⟩ rfl

/-- How many files an operation makes. -/
def Op.makes : Op → ℕ
  | .createFile _ _ => 1
  | _ => 0

/-- The name an operation gives satisfies `P`. -/
def Op.Names (P : String → Prop) : Op → Prop
  | .createFile _ name | .renameFile _ name => P name
  | _ => True

/-- **Every operation keeps what the names satisfy**, if the name it gives does, whatever is
refused. -/
theorem AllNamed.step {op : Op} (h : AllNamed P w) (hop : op.Names P) :
    AllNamed P (w.step ace op refuses) := by
  refine wp_iff_after.1 ?_
  have hbegin : AllNamed P w.begin := h.same (.refl _) rfl
  cases op with
  | createFile uuid name => exact named_createFile hop _ hbegin
  | openFile f => exact named_openFile _ hbegin
  | selectFile f => exact named_selectFile _ hbegin
  | closeFile f => exact named_closeFile _ hbegin
  | closeAll => exact wp_closeAll (fun _ w' h' => named_closeFile w' h') hbegin
  | deleteFile f => exact named_deleteFile _ hbegin
  | renameFile f name => exact named_renameFile hop _ hbegin
  | saveFile => exact named_saveSelectedFile _ hbegin
  | edit text => exact named_change _ hbegin
  | sortedFiles le =>
    exact ⟨fun f hf => hbegin.files f (List.mem_mergeSort.1 hf), hbegin.tree⟩
  | reload => exact named_reload _ hbegin

end

/-- **What an operation other than a reload does to the list**: it has the files there were,
but for one that is deleted, and one file more was made if it creates one. -/
theorem step_files {w : World} {op : Op} (hop : op ≠ .reload) :
    (w.step ace op refuses).window.next = w.window.next + op.makes ∧
      ∀ f ∈ w.window.files, op ≠ .deleteFile f → f ∈ (w.step ace op refuses).window.files := by
  have quiet (hop : Preserves (NamedAs w.window) (op.exec ace refuses)) (hmakes : op.makes = 0) :
      (w.step ace op refuses).window.next = w.window.next + op.makes ∧
        ∀ f ∈ w.window.files, op ≠ .deleteFile f → f ∈ (w.step ace op refuses).window.files := by
    have hnames : NamedAs w.window (w.step ace op refuses) :=
      wp_iff_after.1 (hop w.begin (.refl w.window))
    rw [hmakes]
    exact ⟨hnames.next, fun f hf _ => hnames.files ▸ hf⟩
  cases op with
  | openFile f => exact quiet preserves_openFile rfl
  | selectFile f => exact quiet preserves_selectFile rfl
  | closeFile f => exact quiet preserves_closeFile rfl
  | closeAll => exact quiet preserves_closeAll rfl
  | saveFile => exact quiet preserves_saveSelectedFile rfl
  | edit text => exact quiet preserves_change rfl
  | reload => exact absurd rfl hop
  | createFile uuid name =>
    have hnames : NamedAs (w.window.withNew uuid name)
        (w.step ace (.createFile uuid name) refuses) :=
      wp_iff_after.1 (createFile_names (w := w.begin))
    exact ⟨hnames.next, fun f hf _ => hnames.files ▸ mem_withNew_files.2 (.inl hf)⟩
  | renameFile g name =>
    have hnames : NamedAs (w.window.renamed g name) (w.step ace (.renameFile g name) refuses) :=
      wp_iff_after.1 (renameFile_names (w := w.begin))
    exact ⟨hnames.next, fun f hf _ => hnames.files ▸ hf⟩
  | sortedFiles le => exact ⟨rfl, fun f hf _ => List.mem_mergeSort.2 hf⟩
  | deleteFile g =>
    have hdeleted : NamedAs w.window (w.step ace (.deleteFile g) refuses) ∨
        NamedAs (w.window.without g) (w.step ace (.deleteFile g) refuses) :=
      (deleteFile_names (w := w.begin)).after (fun _ _ h => .inr h) fun _ _ h => h
    rcases hdeleted with hnames | hnames
    · exact ⟨hnames.next, fun f hf _ => hnames.files ▸ hf⟩
    · refine ⟨hnames.next, fun f hf hne => hnames.files ▸ mem_without_files.2 ⟨hf, ?_⟩⟩
      exact fun he => hne (congrArg _ he.symm)

end Hmix
