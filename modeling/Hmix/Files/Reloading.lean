import Hmix.Files.Editing
import Hmix.Files.Selection
import Hmix.Files.Stored

/-!
# A window with room, and its reload

With room for every write, what an operation leaves is `Sound`: the
selection is consistent, the texts are in order and storage has the list,
up to order. Nothing then separates the window from the one a reload would
make, but the texts that were typed and not saved.
-/

namespace Hmix

open Window

variable {ace : Ace}

/-! ## The invariant -/

/-- **The selection is consistent**: it is an open file of the list, or
nothing is open, and storage has its id; the list has distinct files under
distinct ids. -/
abbrev Consistent : World → Prop := Chosen True

/-- **What every operation keeps** where nothing is refused. -/
structure Sound (w : World) : Prop where
  consistent : Consistent w
  settled : Settled none w.window w.window
  backed : Backed List.Perm w

theorem perm_backing : Backing List.Perm where
  refl := List.Perm.refl
  perm := List.Perm.trans

theorem perm_loose : Loose Refusals.nothing List.Perm := by
  rintro ⟨n, key, hr⟩
  exact absurd hr Bool.false_ne_true

theorem nothing_accepts (key : StorageKey) : Refusals.nothing.Accepts key := fun _ => rfl

theorem written_nothing (op : Op) (w : World) : op.Written Refusals.nothing w := by
  cases op <;> simp [Op.Written, Refusals.nothing]

theorem whole_nothing (op : Op) : op.Whole Refusals.nothing := by
  cases op <;> simp [Op.Whole, Refusals.nothing]

/-- **Storage as a window with room leaves it**: what is selected is stored
open, and with nothing selected nothing is. -/
def AtRest (storage : LocalStorage) : Prop :=
  ∃ objects, storedTree storage = some objects ∧ WellNamed objects ∧
    (∀ id, selectedFileId storage = some id → ∃ o ∈ objects, o.id = id ∧ o.isOpen = true) ∧
    (selectedFileId storage = none → ∀ o ∈ objects, o.isOpen = false)

theorem AtRest.loadable {storage : LocalStorage} (h : AtRest storage) : Loadable storage := by
  obtain ⟨objects, htree, hwn, hsel, -⟩ := h
  refine ⟨objects, htree, hwn, fun id hid => ?_⟩
  obtain ⟨o, ho, he, -⟩ := hsel id hid
  exact ⟨o, ho, he⟩

theorem AtRest.tidy {storage : LocalStorage} (h : AtRest storage) : TidyStorage storage := by
  obtain ⟨objects, htree, -, -, hnone⟩ := h
  rw [TidyStorage, htree]
  exact hnone

section

variable {w : World} {op : Op}

theorem Sound.selectedFileId_none (h : Sound w) (hnone : selectedFileId w.storage = none) :
    w.window.selectedFile = none := by
  have hstored := h.consistent.stored
  rw [hnone] at hstored
  exact Option.map_eq_none_iff.1 hstored.symm

/-- A sound window leaves storage at rest. -/
theorem Sound.atRest (h : Sound w) : AtRest w.storage := by
  obtain ⟨objects, htree, hwn, hperm⟩ := h.backed.tree
  refine ⟨objects, htree, hwn, fun id hid => ?_, fun hnone o ho => ?_⟩
  · rw [h.consistent.stored] at hid
    obtain ⟨f, hsel, rfl⟩ := Option.map_eq_some_iff.1 hid
    obtain ⟨hf, ho⟩ := h.consistent.selected f hsel
    exact ⟨_, hperm.mem_iff.2 (mem_objects_of_mem hf), rfl, ho⟩
  · obtain ⟨f, hf, rfl⟩ := List.mem_map.1 (hperm.mem_iff.1 ho)
    exact h.consistent.closed trivial (h.selectedFileId_none hnone) f hf

theorem sound_step (h : Sound w) (ho : op.Offered w) :
    Sound (w.step ace op Refusals.nothing) where
  consistent := (chosen_step h.consistent ho (whole_nothing op) fun _ => h.atRest.tidy).2
    (nothing_accepts _)
  settled := (settled_step (nothing_accepts _) h.settled).1
  backed := backed_step perm_backing perm_loose h.backed ho (written_nothing op w)

/-- **Loading makes a window sound**, whatever it was. -/
theorem sound_reload (h : Loadable w.storage) (htidy : TidyStorage w.storage) :
    Sound (w.step ace .reload Refusals.nothing) where
  consistent := (chosen_reload (w := w.begin) h fun _ => htidy).after (fun _ _ h' => h'.1)
    fun _ _ h' => h'.chosen (nothing_accepts _)
  settled := wp_iff_after.1 (settled_reload (nothing_accepts _))
  backed := by
    obtain ⟨objects, htree, hwn, -⟩ := h
    exact wp_iff_after.1 (backed_reload perm_backing perm_loose htree hwn)

end

/-! ## The runs -/

/-- **One window with room for every write.** It is opened over a storage
that can be loaded, an empty one for instance. -/
def quietDesk (ace : Ace) : Machine World Op where
  start := fun w => ∃ storage, Loadable storage ∧ TidyStorage storage ∧
    w = (World.opening storage).step ace .reload Refusals.nothing
  enabled := fun w op => op.Offered w
  step := fun w op => w.step ace op Refusals.nothing

instance (ace : Ace) (w : World) (op : Op) : Decidable ((quietDesk ace).enabled w op) :=
  inferInstanceAs (Decidable (op.Offered w))

theorem loadable_empty : Loadable LocalStorage.empty :=
  ⟨[], rfl, ⟨List.nodup_nil, nofun⟩, nofun⟩

theorem quietDesk_fresh : (quietDesk ace).Reachable (World.fresh ace) :=
  .start ⟨_, loadable_empty, nofun, rfl⟩

theorem sound_of_reachable {w : World} (h : (quietDesk ace).Reachable w) : Sound w := by
  refine h.invariant (I := Sound) ?_ fun _ _ hw ho => sound_step hw ho
  rintro _ ⟨storage, hload, htidy, rfl⟩
  exact sound_reload hload htidy

/-- **The selection is always consistent.** In every run with room, what is
selected is an open file of the list, or nothing is open; storage has its
id; ids are distinct. And no operation the view offers throws: none asks
for a member of a file that is not there. -/
theorem selection_is_consistent {w : World} (h : (quietDesk ace).Reachable w) :
    Consistent w ∧ ∀ op : Op, op.Offered w → op.Shown w →
      ∃ w', op.exec ace Refusals.nothing w.begin = .ok ⟨⟩ w' := by
  have hs := sound_of_reachable h
  refine ⟨hs.consistent, fun op ho hshown => ?_⟩
  have hexec : wp (op.exec ace Refusals.nothing) (fun _ => Consistent) (fun _ _ => False)
      w.begin := by
    refine (chosen_exec hs.consistent ho hshown (whole_nothing op) fun _ => hs.atRest.tidy).mono
      (fun _ _ h' => h') fun _ _ h' => ?_
    obtain ⟨n, key, hr⟩ := h'.refused
    exact absurd hr Bool.false_ne_true
  obtain ⟨_, w', hw', -⟩ := hexec.returns
  exact ⟨w', hw'⟩

/-- Two files, the second one closed again, a reload, and a deletion. -/
def openAndClose : List Op :=
  [.createFile "u1" "A.sol", .createFile "u2" "B.sol", .closeFile 1, .reload, .deleteFile 0]

theorem openAndClose_consistent :
    Consistent ((quietDesk Ace.brace).run (World.fresh Ace.brace) openAndClose) :=
  (selection_is_consistent (quietDesk_fresh.run (by decide))).1

/-! ## What a reload restores -/

section

variable {w : World}

/-- **A reload over storage at rest** loads the tree and selects the stored
file, and leaves storage as it is. -/
theorem reload_atRest {objects : List IFileObject} (h : AtRest w.storage)
    (htree : storedTree w.storage = some objects) :
    wp (reload ace Refusals.nothing)
      (fun _ w' => (ofTree objects).SameFiles w'.window ∧
        (∀ f, (w'.window.heap f).tempContent = ((ofTree objects).heap f).tempContent) ∧
        (w'.window.selectedFile.map fun f => (w'.window.heap f).id) = selectedFileId w.storage ∧
        storedTree w'.storage = storedTree w.storage ∧
        selectedFileId w'.storage = selectedFileId w.storage)
      (fun _ _ => False) w := by
  obtain ⟨objects', htree', hwn, hsel, -⟩ := h
  obtain rfl : objects' = objects := Option.some.inj (htree'.symm.trans htree)
  refine wp_reload htree
    (fun hnone => ⟨⟨rfl, rfl, fun _ => rfl⟩, fun _ => rfl, hnone.symm, rfl, rfl⟩)
    (fun f hf hid => ?_) fun id hid hlost => ?_
  · -- of two entries with one id there is but one, and the selected one is open
    have hi := mem_ofTree_files.1 hf
    have hopen : ((ofTree objects').heap f).isOpen = true := by
      obtain ⟨o, ho, hoid, hopen⟩ := hsel _ hid
      rw [ofTree_heap hi] at hoid ⊢
      rw [hwn.eq_of_id ho (List.getElem_mem hi) hoid] at hopen
      exact hopen
    rw [wp_selectFile_iff]
    refine ⟨fun _ => wp_showFile (fun hr => absurd hr Bool.false_ne_true) fun _ m hm => ?_,
      fun hn => absurd hopen hn⟩
    refine ⟨hm.sameFiles.trans ⟨rfl, rfl, fun _ => rfl⟩, hm.tempContent, ?_, by simp, ?_⟩
    · change (m.selectedFile.map fun f => (m.heap f).id) = _
      rw [hm.selectedFile, hid, Option.map_some, hm.sameFiles.id]
    · rw [hid]
      exact selectedFileId_selection (w := ⟨ofTree objects', w.storage, 0, []⟩)
        (listed_ofTree hwn) fun g hg => by cases hg; exact hf
  · obtain ⟨o, ho, he, -⟩ := hsel id hid
    exact absurd he (hlost o ho)

/-- **What a reload has to restore** of a window: the files as they are
persisted, the selection, and where nothing is unsaved the texts. -/
structure Restores (m m' : Window) : Prop where
  objects : m'.objects.Perm m.objects
  selected : (m'.selectedFile.map fun f => (m'.heap f).id) =
    m.selectedFile.map fun f => (m.heap f).id
  tempContent : m.hasUnsavedFiles = false → ∀ f ∈ m.files, ∀ f' ∈ m'.files,
    (m'.heap f').id = (m.heap f).id → (m'.heap f').tempContent = (m.heap f).tempContent

/-- **A reload restores the window**, at any point between operations of
any run with room: what is constructed knows of it what is in storage. -/
theorem reload_restores (h : (quietDesk ace).Reachable w) :
    ∃ w', reload ace Refusals.nothing (World.opening w.storage) = .ok ⟨⟩ w' ∧
      Restores w.window w'.window := by
  have hs := sound_of_reachable h
  obtain ⟨objects, htree, hwn, hperm⟩ := hs.backed.tree
  obtain ⟨_, w', hw', hsame, htemp, hsel, -⟩ :=
    (@reload_atRest ace (World.opening w.storage) objects hs.atRest htree).returns
  refine ⟨w', hw', ?_, hsel.trans hs.consistent.stored, fun hunsaved f hf f' hf' hid => ?_⟩
  · rw [hsame.objects, objects_ofTree]
    exact hperm
  · have hi := mem_ofTree_files.1 (hsame.files ▸ hf')
    have hmem : objects[f'] ∈ objects := List.getElem_mem hi
    have hobj : (w'.window.heap f').toObject = objects[f'] := by
      rw [hsame.toObject, ofTree_heap hi, File.toObject_new]
    have heq : objects[f'] = (w.window.heap f).toObject := by
      refine hwn.eq_of_id hmem (hperm.mem_iff.2 (mem_objects_of_mem hf)) ?_
      rw [← hobj]
      exact hid
    calc (w'.window.heap f').tempContent
        = objects[f'].content := by rw [htemp, ofTree_heap hi]; rfl
      _ = (w.window.heap f).content := by rw [heq]; rfl
      _ = (w.window.heap f).tempContent := (hs.settled.inOrder.tempContent hunsaved hf).symm

theorem openAndClose_restored :
    let w := (quietDesk Ace.brace).run (World.fresh Ace.brace) openAndClose
    ∃ w', reload Ace.brace Refusals.nothing (World.opening w.storage) = .ok ⟨⟩ w' ∧
      Restores w.window w'.window :=
  reload_restores (quietDesk_fresh.run (by decide))

end

end Hmix
