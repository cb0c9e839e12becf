import Hmix.Files.Listing

/-!
# The selection is consistent

The list, the selection, the stored id and the stored tree change one
after the other, so an operation breaks what ties them together and puts
it back with its last write. `Ready` is what every operation can rely on,
whatever is selected: storage loads, and knows every file of the list.
`Chosen` is what holds between operations. `LetGo` is how
`findFileToSelect` leaves a file that is about to be closed or deleted.

Any write may be refused. What an operation that throws leaves behind is
`Left`: storage still loads, and unless it was the selected id that was
refused the window is still in order.
-/

namespace Hmix

open Window

variable {ace : Ace} {refuses : Refusals} {tidy : Prop}

/-! ## What storage has to satisfy -/

/-- **Storage that can be loaded**: the selected id, where there is one,
is the id of a stored file. -/
def Loadable (storage : LocalStorage) : Prop :=
  ∃ objects, storedTree storage = some objects ∧ WellNamed objects ∧
    ∀ id, selectedFileId storage = some id → ∃ o ∈ objects, o.id = id

/-- **What an operation begins with**, whatever is selected. -/
structure Ready (w : World) : Prop where
  listed : w.window.Listed
  tree : ∃ objects, storedTree w.storage = some objects ∧ WellNamed objects ∧
    (∀ f ∈ w.window.files, ∃ o ∈ objects, o.id = (w.window.heap f).id) ∧
    ∀ id, selectedFileId w.storage = some id → ∃ o ∈ objects, o.id = id

theorem Ready.loadable {w : World} (h : Ready w) : Loadable w.storage := by
  obtain ⟨objects, hst, hwn, -, hsel⟩ := h.tree
  exact ⟨objects, hst, hwn, hsel⟩

/-- **Between operations.** The selected file is an open file of the list
and storage has its id. A tidy window has nothing open where nothing is
selected. -/
structure Chosen (tidy : Prop) (w : World) : Prop extends Ready w where
  selected : ∀ f, w.window.selectedFile = some f →
    f ∈ w.window.files ∧ (w.window.heap f).isOpen = true
  closed : tidy → w.window.selectedFile = none →
    ∀ f ∈ w.window.files, (w.window.heap f).isOpen = false
  stored : selectedFileId w.storage = w.window.selectedFile.map fun f => (w.window.heap f).id

/-- **A file has been let go of**: it is not selected, and another open file
is, or in a tidy window no other is open. -/
structure LetGo (tidy : Prop) (f : FileRef) (w : World) : Prop extends Ready w where
  selected : ∀ g, w.window.selectedFile = some g →
    g ∈ w.window.files ∧ (w.window.heap g).isOpen = true ∧ g ≠ f
  closed : tidy → w.window.selectedFile = none →
    ∀ g ∈ w.window.files, (w.window.heap g).isOpen = true → g = f
  stored : selectedFileId w.storage = w.window.selectedFile.map fun f => (w.window.heap f).id

/-- **What a throw leaves behind.** -/
structure Left (tidy : Prop) (refuses : Refusals) (w : World) : Prop where
  loadable : Loadable w.storage
  chosen : refuses.Accepts .selectedFile → Chosen tidy w
  refused : ∃ n key, refuses n key = true

/-! ## How they change -/

section

variable {w w' : World} {f : FileRef}

/-- With storage unchanged, fewer files are as ready. -/
theorem Ready.sub (h : Ready w) (hl : w'.window.Listed)
    (hsub : ∀ f ∈ w'.window.files, f ∈ w.window.files)
    (hid : ∀ f, (w'.window.heap f).id = (w.window.heap f).id)
    (hs : w'.storage = w.storage) : Ready w' where
  listed := hl
  tree := by
    obtain ⟨objects, hst, hwn, hcov, hsel⟩ := h.tree
    refine ⟨objects, by rw [hs]; exact hst, hwn, fun f hf => ?_, by rw [hs]; exact hsel⟩
    rw [hid]
    exact hcov f (hsub f hf)

/-- Assignments to members other than the id and the open flag, and
whatever else is not about the list or the selection. -/
theorem Chosen.congr (h : Chosen tidy w) (hl : w'.window.Listed)
    (hfiles : ∀ f, f ∈ w'.window.files ↔ f ∈ w.window.files)
    (hid : ∀ f, (w'.window.heap f).id = (w.window.heap f).id)
    (hopen : ∀ f, (w'.window.heap f).isOpen = (w.window.heap f).isOpen)
    (hsel : w'.window.selectedFile = w.window.selectedFile)
    (hs : w'.storage = w.storage) : Chosen tidy w' where
  toReady := h.toReady.sub hl (fun f => (hfiles f).1) hid hs
  selected := fun f hf => by rw [hfiles, hopen]; exact h.selected f (hsel ▸ hf)
  closed := fun ht hn f hf => by
    rw [hopen]; exact h.closed ht (hsel ▸ hn) f ((hfiles f).1 hf)
  stored := by simp only [hs, hsel, hid, h.stored]

theorem Chosen.same (h : Chosen tidy w) (hm : w'.window = w.window)
    (hs : w'.storage = w.storage) : Chosen tidy w' :=
  h.congr (hm ▸ h.listed) (fun _ => by rw [hm]) (fun _ => by rw [hm]) (fun _ => by rw [hm])
    (by rw [hm]) hs

theorem Chosen.assign {g : File → File} (hg : ∀ o, (g o).id = o.id ∧ (g o).isOpen = o.isOpen)
    (h : Chosen tidy w) : Chosen tidy { w with window := w.window.assign f g } := by
  refine h.congr (h.listed.assign fun o => (hg o).1) (fun _ => Iff.rfl) (fun f' => ?_)
    (fun f' => ?_) rfl rfl
  all_goals
    by_cases hf : f' = f
    · subst hf; simp [hg]
    · simp [hf]

/-- The id of a listed file is written. -/
theorem selectedFileId_selection (hl : w.window.Listed) {file : Option FileRef}
    (hf : ∀ f, file = some f → f ∈ w.window.files) :
    selectedFileId (w.storage.setItem .selectedFile (selectionText w.window file)) =
      file.map fun f => (w.window.heap f).id := by
  cases file with
  | none => exact selectedFileId_set_none w.storage
  | some f => exact selectedFileId_set_some w.storage (hl.named f (hf f rfl))

/-- **The selection moves** to a file of the list, or to none, in memory
and in storage. -/
theorem Ready.select (h : Ready w) {file : Option FileRef}
    (hf : ∀ f, file = some f → f ∈ w.window.files) (hm : w.window.SameFiles w'.window)
    (hs : w'.storage = w.storage.setItem .selectedFile (selectionText w.window file)) :
    Ready w' ∧ selectedFileId w'.storage = file.map fun f => (w'.window.heap f).id := by
  have hstored := selectedFileId_selection h.listed hf
  obtain ⟨objects, hst, hwn, hcov, -⟩ := h.tree
  refine ⟨⟨hm.listed h.listed, objects, by rw [hs]; simpa using hst, hwn, fun g hg => ?_,
    fun id hid => ?_⟩, by simp only [hs, hstored, hm.id]⟩
  · rw [hm.id]; exact hcov g (hm.files ▸ hg)
  · rw [hs, hstored] at hid
    obtain ⟨g, rfl, rfl⟩ := Option.map_eq_some_iff.1 hid
    exact hcov g (hf g rfl)

/-- Storage has the tree of the list. -/
theorem Ready.save (hl : w.window.Listed)
    (hsel : ∀ id, selectedFileId w.storage = some id →
      ∃ f ∈ w.window.files, (w.window.heap f).id = id)
    (hm : w'.window = w.window) (hs : w'.storage = w.storage.setItem .files
      (Json.stringify (some (treeToJson w.window.objects)))) : Ready w' := by
  refine ⟨by rw [hm]; exact hl, w.window.objects, by rw [hs]; simp, hl.wellNamed, ?_, ?_⟩
  · rw [hm]
    exact fun f hf => ⟨_, mem_objects_of_mem hf, rfl⟩
  · intro id hid
    rw [hs, selectedFileId_set_files] at hid
    obtain ⟨f, hf, rfl⟩ := hsel id hid
    exact ⟨_, mem_objects_of_mem hf, rfl⟩

theorem Chosen.save (h : Chosen tidy w) (hm : w'.window = w.window)
    (hs : w'.storage = w.storage.setItem .files
      (Json.stringify (some (treeToJson w.window.objects)))) : Chosen tidy w' where
  toReady := by
    refine Ready.save h.listed (fun id hid => ?_) hm hs
    rw [h.stored] at hid
    obtain ⟨f, hf, rfl⟩ := Option.map_eq_some_iff.1 hid
    exact ⟨f, (h.selected f hf).1, rfl⟩
  selected := by rw [hm]; exact h.selected
  closed := by rw [hm]; exact h.closed
  stored := by rw [hs, selectedFileId_set_files, hm, h.stored]

/-- With another file selected, this one has been let go of. -/
theorem Chosen.letGo {g : FileRef} (h : Chosen tidy w) (hsel : w.window.selectedFile = some g)
    (hgf : g ≠ f) : LetGo tidy f w where
  toReady := h.toReady
  selected := fun g' hg' => by
    obtain rfl : g = g' := Option.some.inj (hsel.symm.trans hg')
    obtain ⟨hg, ho⟩ := h.selected g hsel
    exact ⟨hg, ho, hgf⟩
  closed := fun _ hn => absurd (hsel.symm.trans hn) (Option.some_ne_none _)
  stored := h.stored

/-- **Closing** a file that was let go of. -/
theorem LetGo.close (h : LetGo tidy f w) : Chosen tidy { w with
    window := w.window.assign f fun o => { o with isOpen := false } } := by
  have hl : (w.window.assign f fun o => { o with isOpen := false }).Listed :=
    h.listed.assign fun _ => rfl
  refine ⟨h.toReady.sub hl (fun _ hg => hg) (fun g => ?_) rfl, fun g hg => ?_,
    fun ht hn g hg => ?_, ?_⟩
  · by_cases hgf : g = f
    · subst hgf; simp
    · simp [hgf]
  · obtain ⟨hgf, ho, hne⟩ := h.selected g hg
    exact ⟨hgf, by simpa [hne] using ho⟩
  · by_cases hgf : g = f
    · subst hgf; simp
    · simpa [hgf] using mt (h.closed ht hn g hg) hgf
  · refine h.stored.trans ?_
    cases hs : w.window.selectedFile with
    | none => simp [hs]
    | some g => simp [hs, (h.selected g hs).2.2]

/-- **Deleting** a file that was let go of. -/
theorem LetGo.delete (h : LetGo tidy f w) :
    Chosen tidy { w with window := w.window.without f } where
  toReady := h.toReady.sub h.listed.without (fun _ hg => (mem_without_files.1 hg).1)
    (fun _ => rfl) rfl
  selected := fun g hg => by
    obtain ⟨hgf, ho, hne⟩ := h.selected g hg
    exact ⟨mem_without_files.2 ⟨hgf, hne⟩, ho⟩
  closed := fun ht hn g hg => by
    obtain ⟨hgf, hne⟩ := mem_without_files.1 hg
    exact Bool.not_eq_true _ ▸ mt (h.closed ht hn g hgf) hne
  stored := h.stored

end

/-! ## The operations -/

section

variable {w : World} {f : FileRef}

theorem Left.of_chosen (h : Chosen tidy w) {n : ℕ} {key : StorageKey}
    (hr : refuses n key = true) : Left tidy refuses w :=
  ⟨h.loadable, fun _ => h, n, key, hr⟩

/-- Where the id is refused, nothing is promised of the window. -/
theorem Left.of_refused_id (h : Loadable w.storage) {n : ℕ}
    (hr : refuses n .selectedFile = true) : Left tidy refuses w :=
  ⟨h, fun hid => absurd hr (by simp [hid n]), n, _, hr⟩

theorem chosen_saveFileTree (h : Chosen tidy w) :
    wp (saveFileTree refuses) (fun _ w' => Chosen tidy w' ∧ w'.window = w.window)
      (fun _ => Left tidy refuses) w :=
  wp_saveFileTree
    (fun hr => .of_chosen (h.same rfl rfl) hr) fun _ => ⟨h.save rfl rfl, rfl⟩

/-- Showing an open file of the list selects it, whatever was selected. -/
theorem chosen_showFile (h : Ready w) (hf : f ∈ w.window.files)
    (ho : (w.window.heap f).isOpen = true) :
    wp (showFile ace refuses f)
      (fun _ w' => Chosen tidy w' ∧ w'.window.files = w.window.files ∧
        w'.window.selectedFile = some f)
      (fun _ => Left tidy refuses) w := by
  refine wp_showFile (fun hr => .of_refused_id h.loadable hr) fun _ m hm => ?_
  have hin : ∀ g, some f = some g → g ∈ w.window.files := fun g hg => by cases hg; exact hf
  obtain ⟨hready, hstored⟩ := @Ready.select w ⟨m, _, w.writes + 1, w.savedEvents⟩ h (some f) hin
    hm.sameFiles rfl
  refine ⟨⟨hready, fun g hg => ?_, fun _ hn => ?_, ?_⟩, hm.files, hm.selectedFile⟩
  · have : f = g := Option.some.inj (hm.selectedFile.symm.trans hg)
    subst this
    exact ⟨hm.files ▸ hf, (hm.sameFiles.isOpen f).trans ho⟩
  · exact absurd (hm.selectedFile.symm.trans hn) (by simp)
  · rw [hm.selectedFile]; exact hstored

theorem chosen_openFile (h : Ready w) (hf : f ∈ w.window.files) :
    wp (openFile ace refuses f)
      (fun _ w' => Chosen tidy w' ∧ w'.window.files = w.window.files ∧
        w'.window.selectedFile = some f)
      (fun _ => Left tidy refuses) w := by
  rw [wp_openFile_iff]
  have hid : ∀ g, ((w.window.opened f).heap g).id = (w.window.heap g).id := fun g => by
    by_cases hg : g = f
    · subst hg; simp [opened]
    · simp [opened, hg]
  have hready : Ready { w with window := w.window.opened f } :=
    h.sub h.listed.opened (fun _ hg => hg) hid rfl
  refine (chosen_showFile hready hf (by simp [opened])).imp fun _ w₁ h₁ => ?_
  refine (chosen_saveFileTree h₁.1).imp fun _ w₂ h₂ => ⟨h₂.1, ?_⟩
  rw [h₂.2]
  exact h₁.2

theorem chosen_selectFile (h : Ready w) (hf : f ∈ w.window.files) :
    wp (selectFile ace refuses f)
      (fun _ w' => Chosen tidy w' ∧ w'.window.files = w.window.files ∧
        w'.window.selectedFile = some f)
      (fun _ => Left tidy refuses) w := by
  rw [wp_selectFile_iff]
  refine ⟨fun ho => chosen_showFile h hf ho, fun _ => ?_⟩
  refine (chosen_openFile h hf).imp fun _ w₁ h₁ => ?_
  obtain ⟨hc₁, hfiles, hsel⟩ := h₁
  obtain ⟨hf₁, ho₁⟩ := hc₁.selected f hsel
  exact (chosen_showFile hc₁.toReady hf₁ ho₁).imp fun _ _ h => ⟨h.1, h.2.1.trans hfiles, h.2.2⟩

/-- **`findFileToSelect` lets go of the file.** If it is the selected one, a
neighbour takes its place, or it was the last. -/
theorem chosen_findFileToSelect (h : Chosen tidy w) :
    wp (findFileToSelect ace refuses f) (fun _ => LetGo tidy f) (fun _ => Left tidy refuses)
      w := by
  -- a file that is selected is open, so its index is in range
  have hneighbour : w.window.selectedFile = some f →
      (neighbour w.window.openFiles f = none ∧ ∀ g ∈ w.window.openFiles, g = f) ∨
        ∃ g, neighbour w.window.openFiles f = some g ∧ g ∈ w.window.openFiles ∧ g ≠ f := by
    intro hsel
    obtain ⟨hf, ho⟩ := h.selected f hsel
    exact neighbour_spec (h.listed.nodup.filter _) (List.mem_filter.2 ⟨hf, ho⟩)
  refine wp_findFileToSelect (fun hsel => ?_) (fun hsel hn => ?_) fun hsel g hn => ?_
  · refine ⟨h.toReady, fun g hg => ?_, fun ht hnone g hg ho => ?_, h.stored⟩
    · exact ⟨(h.selected g hg).1, (h.selected g hg).2, fun he => hsel (he ▸ hg)⟩
    · exact absurd ((h.closed ht hnone g hg).symm.trans ho) (by simp)
  · refine wp_setSelectedFile (fun hr => .of_refused_id h.loadable hr) fun _ => ?_
    obtain ⟨-, hall⟩ | ⟨g, hg, -⟩ := hneighbour hsel
    · obtain ⟨hready, hstored⟩ := @Ready.select w
        { w with window := { w.window with selectedFile := none }, writes := _, storage := _ }
        h.toReady none (fun _ hg => by cases hg) (sameFiles_select _ _) rfl
      exact ⟨hready, (fun g hg => by cases hg),
        fun _ _ g hg ho => hall g (List.mem_filter.2 ⟨hg, ho⟩), hstored⟩
    · cases hn.symm.trans hg
  · refine wp_setSelectedFile (fun hr => .of_refused_id h.loadable hr) fun _ => ?_
    obtain ⟨hg, hgf⟩ : g ∈ w.window.openFiles ∧ g ≠ f := by
      obtain ⟨hnone, -⟩ | ⟨g', hg', hmem, hne⟩ := hneighbour hsel
      · cases hn.symm.trans hnone
      · obtain rfl : g = g' := Option.some.inj (hn.symm.trans hg')
        exact ⟨hmem, hne⟩
    obtain ⟨hgl, hgo⟩ := List.mem_filter.1 hg
    have hin : ∀ g', some g = some g' → g' ∈ w.window.files := fun g' h' => by cases h'; exact hgl
    obtain ⟨hready, -⟩ := @Ready.select w
      { w with window := { w.window with selectedFile := some g }, writes := _, storage := _ }
      h.toReady (some g) hin (sameFiles_select _ _) rfl
    exact (chosen_selectFile hready hgl).imp fun _ _ h' => h'.1.letGo h'.2.2 hgf

theorem chosen_closeFile (h : Chosen tidy w) :
    wp (closeFile ace refuses f) (fun _ => Chosen tidy) (fun _ => Left tidy refuses) w := by
  rw [wp_closeFile_iff]
  refine (chosen_findFileToSelect h).imp fun _ w₁ h₁ => ?_
  exact (chosen_saveFileTree h₁.close).imp fun _ _ h₂ => h₂.1

theorem chosen_closeAll (h : Chosen tidy w) :
    wp (closeAll ace refuses) (fun _ => Chosen tidy) (fun _ => Left tidy refuses) w :=
  wp_closeAll (fun _ _ h' => chosen_closeFile h') h

theorem chosen_deleteFile (h : Chosen tidy w) :
    wp (deleteFile ace refuses f) (fun _ => Chosen tidy) (fun _ => Left tidy refuses) w := by
  rw [wp_deleteFile_iff]
  refine (chosen_findFileToSelect h).imp fun _ w₁ h₁ => ?_
  exact (chosen_saveFileTree h₁.delete).imp fun _ _ h₂ => h₂.1

theorem chosen_renameFile {newName : String} (h : Chosen tidy w) :
    wp (renameFile refuses f newName) (fun _ => Chosen tidy) (fun _ => Left tidy refuses) w := by
  have hrenamed : Chosen tidy { w with window := w.window.renamed f newName } :=
    h.assign fun _ => ⟨rfl, rfl⟩
  rw [wp_renameFile_iff]
  exact (chosen_saveFileTree hrenamed).imp fun _ _ h₂ => h₂.1

theorem chosen_saveFile (h : Chosen tidy w) :
    wp (saveFile refuses f) (fun _ => Chosen tidy) (fun _ => Left tidy refuses) w := by
  have hsaved : Chosen tidy { w with window := w.window.saved f } := h.assign fun _ => ⟨rfl, rfl⟩
  refine wp_saveFile fun events => ?_
  have hannounced : Chosen tidy
      { w with window := w.window.saved f, savedEvents := events } := hsaved.same rfl rfl
  exact (chosen_saveFileTree hannounced).imp fun _ _ h₂ => h₂.1

theorem chosen_change {text : String} (h : Chosen tidy w) :
    Chosen tidy (after (change text) w) ∧ (w.window.selectedFile ≠ none →
      wp (change text) (fun _ => Chosen tidy) (fun _ _ => False) w) := by
  have htext : Chosen tidy { w with window := { w.window with text := text } } :=
    h.congr ((sameFiles_text _ _).listed h.listed) (fun _ => Iff.rfl) (fun _ => rfl)
      (fun _ => rfl) rfl rfl
  rcases hf : w.window.selectedFile with - | f
  · refine ⟨wp_iff_after.1 ((wp_change_none hf).2 htext), fun hn => absurd rfl hn⟩
  · have hc := htext.assign (f := f) (g := fun file =>
      { file with tempContent := text, isSaved := text == file.content }) fun _ => ⟨rfl, rfl⟩
    exact ⟨wp_iff_after.1 ((wp_change hf).2 hc), fun _ => (wp_change hf).2 hc⟩

/-- **Creating** a file writes its id before the tree that has it, so the
two have to be written both or neither. -/
theorem chosen_createFile {uuid name : String} (h : Chosen tidy w) (hfresh : Op.FreshId w uuid)
    (hwhole : refuses w.writes .selectedFile = false → refuses (w.writes + 1) .files = false) :
    wp (createFile ace refuses uuid name) (fun _ => Chosen tidy) (fun _ => Left tidy refuses)
      w := by
  rw [wp_createFile_iff]
  obtain ⟨hne, hmem, -⟩ := hfresh
  -- the id is written first: between the two writes no stored file has it
  have hl : ((w.window.withNew uuid name).opened w.window.next).Listed :=
    (h.listed.withNew hne hmem).opened
  have hin : w.window.next ∈ (w.window.withNew uuid name).files := mem_withNew_files.2 (.inr rfl)
  refine wp_openFile (fun hr => .of_refused_id h.loadable hr) (fun hr hr' => ?_)
    fun hr _ m hm => ?_
  · exact absurd (hwhole hr) (by simp [hr'])
  · have hsel : selectedFileId (w.storage.setItem .selectedFile (selectionText
        ((w.window.withNew uuid name).opened w.window.next) (some w.window.next))) =
          some (m.heap w.window.next).id := by
      rw [hm.sameFiles.id]
      exact selectedFileId_selection (w := ⟨_, w.storage, 0, []⟩) hl
        fun g hg => by cases hg; exact hin
    have hin' : w.window.next ∈ m.files := hm.files ▸ hin
    refine ⟨Ready.save (w := ⟨m, _, 0, []⟩) (hm.sameFiles.listed hl) (fun id hid => ?_) rfl rfl,
      fun g hg => ?_, fun _ hn => ?_, ?_⟩
    · exact ⟨_, hin', Option.some.inj (hsel.symm.trans hid)⟩
    · have : w.window.next = g := Option.some.inj (hm.selectedFile.symm.trans hg)
      subst this
      exact ⟨hin', by rw [hm.sameFiles.isOpen]; simp [opened]⟩
    · exact absurd (hm.selectedFile.symm.trans hn) (by simp)
    · rw [selectedFileId_set_files, hm.selectedFile]
      exact hsel

theorem Chosen.started (h : Chosen tidy w) :
    Chosen tidy { w with window := w.window.started } :=
  h.congr (h.listed.sub h.listed.nodup rfl (fun _ hf => hf) fun _ => rfl) (fun _ => Iff.rfl)
    (fun _ => rfl) (fun _ => rfl) rfl rfl

/-- **Loading** what can be loaded. The window is tidy if the stored tree
is. -/
theorem chosen_reload (h : Loadable w.storage)
    (htidy : tidy → selectedFileId w.storage = none →
      ∀ o ∈ (storedTree w.storage).getD [], o.isOpen = false) :
    wp (reload ace refuses)
      (fun _ w' => Chosen tidy w' ∧ w'.window.shortcuts = true ∧ w'.window.saveCheck = true)
      (fun _ => Left tidy refuses) w := by
  obtain ⟨objects, htree, hwn, hsel⟩ := h
  have hcov : ∀ f ∈ (ofTree objects).files, ∃ o ∈ objects, o.id = ((ofTree objects).heap f).id :=
    fun f hf => ⟨_, List.getElem_mem _, by rw [ofTree_heap (mem_ofTree_files.1 hf)]; rfl⟩
  have hready : Ready { w with window := ofTree objects } :=
    ⟨listed_ofTree hwn, objects, htree, hwn, hcov, hsel⟩
  refine wp_reload htree (fun hnone => ⟨?_, rfl, rfl⟩) (fun f hf _ => ?_) fun id hid hlost => ?_
  · have hc : Chosen tidy { w with window := ofTree objects } := by
      refine ⟨hready, (fun _ hn => by cases hn), fun ht _ f hf => ?_, hnone⟩
      have hf' := mem_ofTree_files.1 hf
      rw [htree] at htidy
      rw [ofTree_heap hf']
      exact htidy ht hnone _ (List.getElem_mem hf')
    exact hc.started
  · exact (chosen_selectFile hready hf).imp fun _ _ h => ⟨h.1.started, rfl, rfl⟩
  · obtain ⟨o, ho, he⟩ := hsel id hid
    exact absurd he (hlost o ho)

end

/-! ## One step -/

/-- The view offers saving and typing only where a file is selected. -/
def Op.Shown (op : Op) (w : World) : Prop :=
  match op with
  | .saveFile | .edit _ => w.window.selectedFile ≠ none
  | _ => True

instance (w : World) (op : Op) : Decidable (op.Shown w) := by
  cases op <;> unfold Op.Shown <;> infer_instance

/-- A new file's id is not stored without the file. -/
def Op.Whole (refuses : Refusals) : Op → Prop
  | .createFile _ _ => refuses 0 .selectedFile = false → refuses 1 .files = false
  | _ => True

/-- Storage has nothing open where it has nothing selected. -/
def TidyStorage (storage : LocalStorage) : Prop :=
  selectedFileId storage = none → ∀ o ∈ (storedTree storage).getD [], o.isOpen = false

section

variable {w : World} {op : Op}

theorem Chosen.begin (h : Chosen tidy w) : Chosen tidy w.begin := h.same rfl rfl

theorem Chosen.sortedFiles {le : String → String → Bool} (h : Chosen tidy w) :
    wp (sortedFiles le) (fun _ => Chosen tidy) (fun _ => Left tidy refuses) w := by
  simp only [Hmix.sortedFiles, wp_modifyWindow]
  have hnodup : (w.window.files.mergeSort fun a b =>
      le (w.window.heap a).name (w.window.heap b).name).Nodup :=
    (List.mergeSort_perm _ _).nodup_iff.2 h.listed.nodup
  exact h.congr (h.listed.sub hnodup rfl (fun _ hf => List.mem_mergeSort.1 hf) fun _ => rfl)
    (fun _ => List.mem_mergeSort) (fun _ => rfl) (fun _ => rfl) rfl rfl

/-- **What the view offers, one operation at a time.** It completes and
keeps the selection consistent, or a write was refused. -/
theorem chosen_exec (h : Chosen tidy w) (ho : op.Offered w) (hs : op.Shown w)
    (hwhole : op.Whole refuses) (htidy : tidy → TidyStorage w.storage) :
    wp (op.exec ace refuses) (fun _ => Chosen tidy) (fun _ => Left tidy refuses) w.begin := by
  have hb : Chosen tidy w.begin := h.begin
  cases op with
  | createFile uuid name => exact chosen_createFile hb ho hwhole
  | openFile f => exact (chosen_openFile hb.toReady ho).imp fun _ _ h => h.1
  | selectFile f => exact (chosen_selectFile hb.toReady ho).imp fun _ _ h => h.1
  | closeFile f => exact chosen_closeFile hb
  | closeAll => exact chosen_closeAll hb
  | deleteFile f => exact chosen_deleteFile hb
  | renameFile f newName => exact chosen_renameFile hb
  | saveFile =>
    exact wp_saveSelectedFile (fun hf => absurd hf hs) fun _ _ => chosen_saveFile hb
  | edit text => exact ((chosen_change hb).2 hs).mono (fun _ _ h => h) fun _ _ h => h.elim
  | sortedFiles le => exact hb.sortedFiles
  | reload => exact (chosen_reload hb.loadable htidy).imp fun _ _ h => h.1

/-- **One step.** Whatever was refused, storage can be loaded afterwards,
and unless it was the selected id the selection is consistent. A save or an
edit with nothing selected throws, and leaves it as it was. -/
theorem chosen_step (h : Chosen tidy w) (ho : op.Offered w) (hwhole : op.Whole refuses)
    (htidy : tidy → TidyStorage w.storage) :
    Loadable (w.step ace op refuses).storage ∧
      (refuses.Accepts .selectedFile → Chosen tidy (w.step ace op refuses)) := by
  have hkept : Chosen tidy (w.step ace op refuses) →
      Loadable (w.step ace op refuses).storage ∧
        (refuses.Accepts .selectedFile → Chosen tidy (w.step ace op refuses)) :=
    fun hc => ⟨hc.loadable, fun _ => hc⟩
  by_cases hs : op.Shown w
  · exact (chosen_exec h ho hs hwhole htidy).after
      (I := fun w' => Loadable w'.storage ∧ (refuses.Accepts .selectedFile → Chosen tidy w'))
      (fun _ _ hc => ⟨hc.loadable, fun _ => hc⟩) fun _ _ hl => ⟨hl.loadable, hl.chosen⟩
  · -- what is not shown throws before it assigns or writes anything
    cases op with
    | saveFile =>
      have hf : w.begin.window.selectedFile = none := not_not.1 hs
      refine hkept (wp_iff_after.1 ?_)
      refine wp_saveSelectedFile (fun _ => h.begin) fun f hf' => ?_
      cases hf.symm.trans hf'
    | edit text => exact hkept (chosen_change h.begin).1
    | _ => exact absurd trivial hs

/-- Opening a window over a storage that can be loaded. -/
theorem chosen_opening {storage : LocalStorage} (h : Loadable storage)
    (htidy : tidy → TidyStorage storage) (hid : refuses.Accepts .selectedFile) :
    Chosen tidy ((World.opening storage).step ace .reload refuses) :=
  (chosen_reload (w := (World.opening storage).begin) h htidy).after (fun _ _ h' => h'.1)
    fun _ _ h' => h'.chosen hid

end

end Hmix
