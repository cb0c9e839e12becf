import Hmix.Files.Listing

/-!
# The stored tree backs the list

The tree is written whole, from the window's memory, and by most
operations last. How far it may lag behind is a relation `R` between the
stored objects and the list's: with room for every write they are the same
up to order, and when any write may be refused what can be kept is less.
`Backed R` is proved of every operation for any such `R`. A write of the
tree establishes it; where the write is refused, the operation must not
have changed what `R` looks at.
-/

namespace Hmix

open Window

variable {ace : Ace} {refuses : Refusals} {R : List IFileObject → List IFileObject → Prop}

/-! ## Relations between a stored tree and a list -/

/-- What is stored of a list is related to it, and reordering the list
changes nothing. -/
structure Backing (R : List IFileObject → List IFileObject → Prop) : Prop where
  refl : ∀ objects, R objects objects
  perm : ∀ {stored objects objects'}, R stored objects → objects.Perm objects' →
    R stored objects'

/-- Where a write may be refused, `R` looks at nothing but ids and
contents, and does not mind files that are gone. -/
def Loose (refuses : Refusals) (R : List IFileObject → List IFileObject → Prop) : Prop :=
  (∃ n key, refuses n key = true) → ∀ {stored objects objects' : List IFileObject},
    R stored objects →
    (∀ o ∈ objects', ∃ o' ∈ objects, o'.id = o.id ∧ o'.content = o.content) → R stored objects'

/-- **The stored tree backs the list.** -/
structure Backed (R : List IFileObject → List IFileObject → Prop) (w : World) : Prop where
  listed : w.window.Listed
  tree : ∃ objects, storedTree w.storage = some objects ∧ WellNamed objects ∧
    R objects w.window.objects

/-- The list has changed and the tree is about to be written: it may be
relied on only where that write is refused. -/
structure Unwritten (refuses : Refusals) (R : List IFileObject → List IFileObject → Prop)
    (w : World) : Prop where
  listed : w.window.Listed
  backed : (∃ n key, refuses n key = true) → Backed R w

/-- What neither changes the list nor writes the tree. -/
structure SameTree (w w' : World) : Prop where
  files : w.window.SameFiles w'.window
  tree : storedTree w'.storage = storedTree w.storage

section

variable {w w' : World} {f : FileRef}

theorem Backed.same (h : Backed R w) (hs : SameTree w w') : Backed R w' := by
  obtain ⟨objects, htree, hwn, hR⟩ := h.tree
  exact ⟨hs.files.listed h.listed, objects, hs.tree.trans htree, hwn, hs.files.objects ▸ hR⟩

theorem Unwritten.same (h : Unwritten refuses R w) (hs : SameTree w w') : Unwritten refuses R w' :=
  ⟨hs.files.listed h.listed, fun hr => (h.backed hr).same hs⟩

/-- Some of the files, under the same ids and with the same contents. -/
theorem Backed.unwritten (hloose : Loose refuses R) (h : Backed R w) (hl : w'.window.Listed)
    (hsub : ∀ f ∈ w'.window.files, f ∈ w.window.files ∧
      (w'.window.heap f).id = (w.window.heap f).id ∧
      (w'.window.heap f).content = (w.window.heap f).content)
    (htree : storedTree w'.storage = storedTree w.storage) : Unwritten refuses R w' := by
  obtain ⟨objects, hst, hwn, hR⟩ := h.tree
  refine ⟨hl, fun hr => ⟨hl, objects, htree.trans hst, hwn, hloose hr hR fun o ho => ?_⟩⟩
  obtain ⟨f, hf, rfl⟩ := List.mem_map.1 ho
  obtain ⟨hfw, hid, hcontent⟩ := hsub f hf
  exact ⟨_, mem_objects_of_mem hfw, hid.symm, hcontent.symm⟩

/-- The case of one object assigned. -/
theorem Backed.unwritten_assign {g : File → File} (hloose : Loose refuses R) (h : Backed R w)
    (hid : ∀ o, (g o).id = o.id) (hcontent : (g (w.window.heap f)).content =
      (w.window.heap f).content) :
    Unwritten refuses R { w with window := w.window.assign f g } := by
  refine h.unwritten hloose (h.listed.assign hid) (fun f' hf' => ⟨hf', ?_⟩) rfl
  by_cases hf : f' = f
  · subst hf; simp [hid, hcontent]
  · simp [hf]

/-! ## The primitives -/

theorem sameTree_setSelectedFile {file : Option FileRef} :
    wp (setSelectedFile refuses file) (fun _ => SameTree w)
      (fun _ w' => SameTree w w' ∧ ∃ n key, refuses n key = true) w :=
  wp_setSelectedFile (fun hr => ⟨⟨sameFiles_select _ _, rfl⟩, _, _, hr⟩)
    fun _ => ⟨sameFiles_select _ _, by simp⟩

theorem sameTree_showFile :
    wp (showFile ace refuses f) (fun _ => SameTree w)
      (fun _ w' => SameTree w w' ∧ ∃ n key, refuses n key = true) w :=
  wp_showFile (fun hr => ⟨⟨sameFiles_select _ _, rfl⟩, _, _, hr⟩)
    fun _ _ hm => ⟨hm.sameFiles, by simp⟩

variable (hR : Backing R) (hloose : Loose refuses R)
include hR

/-- **The write of the tree** backs the list, whatever it was. -/
theorem backed_saveFileTree (h : Unwritten refuses R w) :
    wp (saveFileTree refuses) (fun _ => Backed R) (fun _ => Backed R) w :=
  wp_saveFileTree (fun hr => (h.backed ⟨_, _, hr⟩).same ⟨.refl _, rfl⟩)
    fun _ => ⟨h.listed, _, storedTree_set_files _ _, h.listed.wellNamed, hR.refl _⟩

/-! ## The operations -/

include hloose

theorem backed_openFile (h : Backed R w) :
    wp (openFile ace refuses f) (fun _ => Backed R) (fun _ => Backed R) w := by
  rw [wp_openFile_iff]
  have hopen : Unwritten refuses R { w with window := w.window.opened f } :=
    h.unwritten_assign hloose (fun _ => rfl) rfl
  refine sameTree_showFile.mono (fun _ w₁ h₁ => ?_) fun _ w₁ h₁ => ?_
  · exact backed_saveFileTree hR (hopen.same h₁)
  · exact (hopen.backed h₁.2).same h₁.1

theorem backed_selectFile (h : Backed R w) :
    wp (selectFile ace refuses f) (fun _ => Backed R) (fun _ => Backed R) w := by
  have hshow : ∀ w₁, Backed R w₁ →
      wp (showFile ace refuses f) (fun _ => Backed R) (fun _ => Backed R) w₁ :=
    fun w₁ h₁ => sameTree_showFile.mono (fun _ _ h' => h₁.same h') fun _ _ h' => h₁.same h'.1
  rw [wp_selectFile_iff]
  exact ⟨fun _ => hshow w h, fun _ => (backed_openFile hR hloose h).imp fun _ w₁ h₁ => hshow w₁ h₁⟩

theorem backed_findFileToSelect (h : Backed R w) :
    wp (findFileToSelect ace refuses f) (fun _ => Backed R) (fun _ => Backed R) w := by
  have hselect : ∀ file, wp (setSelectedFile refuses file) (fun _ => Backed R) (fun _ => Backed R)
      w :=
    fun _ => sameTree_setSelectedFile.mono (fun _ _ h₁ => h.same h₁) fun _ _ h₁ => h.same h₁.1
  refine wp_findFileToSelect (fun _ => h) (fun _ _ => hselect none) fun _ g _ => ?_
  exact (hselect (some g)).imp fun _ _ h₁ => backed_selectFile hR hloose h₁

theorem backed_closeFile (h : Backed R w) :
    wp (closeFile ace refuses f) (fun _ => Backed R) (fun _ => Backed R) w := by
  rw [wp_closeFile_iff]
  refine (backed_findFileToSelect hR hloose h).imp fun _ w₁ h₁ => ?_
  exact backed_saveFileTree hR (h₁.unwritten_assign hloose (fun _ => rfl) rfl)

theorem backed_closeAll (h : Backed R w) :
    wp (closeAll ace refuses) (fun _ => Backed R) (fun _ => Backed R) w :=
  wp_closeAll (fun _ _ h' => backed_closeFile hR hloose h') h

theorem backed_deleteFile (h : Backed R w) :
    wp (deleteFile ace refuses f) (fun _ => Backed R) (fun _ => Backed R) w := by
  rw [wp_deleteFile_iff]
  refine (backed_findFileToSelect hR hloose h).imp fun _ w₁ h₁ => ?_
  refine backed_saveFileTree hR (h₁.unwritten hloose h₁.listed.without (fun g hg => ?_) rfl)
  exact ⟨(mem_without_files.1 hg).1, rfl, rfl⟩

theorem backed_renameFile {newName : String} (h : Backed R w) :
    wp (renameFile refuses f newName) (fun _ => Backed R) (fun _ => Backed R) w := by
  rw [wp_renameFile_iff]
  exact backed_saveFileTree hR (h.unwritten_assign hloose (fun _ => rfl) rfl)

/-- **Saving.** A text that has not changed needs no write. One that has is
marked saved before it is written, so the write has to succeed. -/
theorem backed_saveFile (h : Backed R w)
    (hwritten : (w.window.heap f).content ≠ w.window.text → refuses w.writes .files = false) :
    wp (saveFile refuses f) (fun _ => Backed R) (fun _ => Backed R) w := by
  have hl : (w.window.saved f).Listed := h.listed.assign fun _ => rfl
  refine wp_saveFile fun events => ?_
  -- a refused write is harmless exactly where it has nothing new to say
  by_cases htext : (w.window.heap f).content = w.window.text
  · have hsaved : Unwritten refuses R { w with window := w.window.saved f } :=
      h.unwritten_assign hloose (fun _ => rfl) htext.symm
    exact backed_saveFileTree hR (hsaved.same ⟨.refl _, rfl⟩)
  · exact wp_saveFileTree (fun hr => absurd (hwritten htext) (by simp [hr]))
      fun _ => ⟨hl, _, storedTree_set_files _ _, hl.wellNamed, hR.refl _⟩

omit hR hloose in
theorem backed_change {text : String} (h : Backed R w) :
    wp (change text) (fun _ => Backed R) (fun _ => Backed R) w := by
  have htext : SameTree w { w with window := { w.window with text := text } } :=
    ⟨sameFiles_text _ _, rfl⟩
  rcases hf : w.window.selectedFile with - | f
  · exact (wp_change_none hf).2 (h.same htext)
  · have hassign := sameFiles_assign { w.window with text := text } f (g := fun file =>
      { file with tempContent := text, isSaved := text == file.content }) fun _ => rfl
    exact (wp_change hf).2 (h.same ⟨htext.files.trans hassign, rfl⟩)

omit hloose in
theorem Backed.sortedFiles {le : String → String → Bool} (h : Backed R w) :
    wp (sortedFiles le) (fun _ => Backed R) (fun _ => Backed R) w := by
  simp only [Hmix.sortedFiles, wp_modifyWindow]
  obtain ⟨objects, htree, hwn, hR'⟩ := h.tree
  have hperm := List.mergeSort_perm w.window.files fun a b =>
    le (w.window.heap a).name (w.window.heap b).name
  exact ⟨h.listed.sub (hperm.nodup_iff.2 h.listed.nodup) rfl
    (fun _ hf => List.mem_mergeSort.1 hf) fun _ => rfl, objects, htree, hwn,
    hR.perm hR' (hperm.map _).symm⟩

omit hloose in
/-- **Creating.** The list has the new file before storage does, so both
writes have to succeed. -/
theorem backed_createFile {uuid name : String} (h : Backed R w) (hfresh : Op.FreshId w uuid)
    (hid : refuses w.writes .selectedFile = false)
    (htree : refuses (w.writes + 1) .files = false) :
    wp (createFile ace refuses uuid name) (fun _ => Backed R) (fun _ => Backed R) w := by
  rw [wp_createFile_iff]
  refine wp_openFile (fun hr => absurd hr (by simp [hid]))
    (fun _ hr => absurd hr (by simp [htree])) fun _ _ m hm => ?_
  have hl : m.Listed :=
    hm.sameFiles.listed (h.listed.withNew hfresh.1 hfresh.2.1).opened
  exact ⟨hl, _, storedTree_set_files _ _, hl.wellNamed, hR.refl _⟩

theorem backed_reload {objects : List IFileObject} (htree : storedTree w.storage = some objects)
    (hwn : WellNamed objects) :
    wp (reload ace refuses) (fun _ => Backed R) (fun _ => Backed R) w := by
  have hload : Backed R { w with window := ofTree objects } :=
    ⟨listed_ofTree hwn, objects, htree, hwn, by
      rw [objects_ofTree]; exact hR.refl objects⟩
  have hstart : ∀ {w'}, Backed R w' → Backed R { w' with window := w'.window.started } :=
    fun h' => h'.same ⟨⟨rfl, rfl, fun _ => rfl⟩, rfl⟩
  refine wp_reload htree (fun _ => hstart hload) (fun f _ _ => ?_) fun _ _ _ => hload
  exact (backed_selectFile hR hloose hload).imp fun _ _ h' => hstart h'

end

/-! ## One step -/

/-- **The writes that must not be refused**: those of a new file, and of a
text that has changed. -/
def Op.Written (refuses : Refusals) (op : Op) (w : World) : Prop :=
  match op with
  | .createFile _ _ => refuses 0 .selectedFile = false ∧ refuses 1 .files = false
  | .saveFile => ∀ f, w.window.selectedFile = some f →
      (w.window.heap f).content ≠ w.window.text → refuses 0 .files = false
  | _ => True

instance (refuses : Refusals) (w : World) : ∀ op : Op, Decidable (op.Written refuses w)
  | .createFile _ _ => inferInstanceAs (Decidable (_ ∧ _))
  | .saveFile => inferInstanceAs (Decidable (∀ f ∈ w.window.selectedFile, _ → _))
  | .openFile _ | .selectFile _ | .closeFile _ | .closeAll | .deleteFile _ | .renameFile _ _
  | .edit _ | .sortedFiles _ | .reload => isTrue trivial

theorem backed_step {w : World} {op : Op} (hR : Backing R) (hloose : Loose refuses R)
    (h : Backed R w) (ho : op.Offered w) (hw : op.Written refuses w) :
    Backed R (w.step ace op refuses) := by
  have hb : Backed R w.begin := h.same ⟨.refl _, rfl⟩
  refine wp_iff_after.1 ?_
  cases op with
  | createFile uuid name => exact backed_createFile hR hb ho hw.1 hw.2
  | openFile f => exact backed_openFile hR hloose hb
  | selectFile f => exact backed_selectFile hR hloose hb
  | closeFile f => exact backed_closeFile hR hloose hb
  | closeAll => exact backed_closeAll hR hloose hb
  | deleteFile f => exact backed_deleteFile hR hloose hb
  | renameFile f newName => exact backed_renameFile hR hloose hb
  | saveFile =>
    refine wp_saveSelectedFile (fun _ => hb) fun f hf => ?_
    exact backed_saveFile hR hloose hb (hw f hf)
  | edit text => exact backed_change hb
  | sortedFiles le => exact hb.sortedFiles hR
  | reload =>
    obtain ⟨objects, htree, hwn, -⟩ := hb.tree
    exact backed_reload hR hloose htree hwn

end Hmix
