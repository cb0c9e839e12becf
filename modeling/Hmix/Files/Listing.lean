import Hmix.Files.Rules

/-!
# The list of files

Of an operation's assignments most leave the list of files as it is, up to
the members of its files that are not persisted (`SameFiles`). What the
list itself has to satisfy is `Listed`: every file once, every id once.
An operation that changes the list, or a persisted member, is one of the
few below, and each keeps `Listed`.
-/

namespace Hmix

namespace Window

variable {m m' m'' : Window} {f : FileRef}

/-! ## The same files -/

/-- The same files, up to what is not persisted. -/
structure SameFiles (m m' : Window) : Prop where
  files : m'.files = m.files
  next : m'.next = m.next
  toObject : ∀ f, (m'.heap f).toObject = (m.heap f).toObject

namespace SameFiles

theorem refl (m : Window) : SameFiles m m := ⟨rfl, rfl, fun _ => rfl⟩

theorem trans (h : SameFiles m m') (h' : SameFiles m' m'') : SameFiles m m'' where
  files := h'.files.trans h.files
  next := h'.next.trans h.next
  toObject := fun f => (h'.toObject f).trans (h.toObject f)

theorem id (h : SameFiles m m') (f : FileRef) : (m'.heap f).id = (m.heap f).id :=
  congrArg IFileObject.id (h.toObject f)

theorem isOpen (h : SameFiles m m') (f : FileRef) : (m'.heap f).isOpen = (m.heap f).isOpen :=
  congrArg IFileObject.isOpen (h.toObject f)

theorem objects (h : SameFiles m m') : m'.objects = m.objects := by
  simp only [Window.objects, h.files, h.toObject]

end SameFiles

/-- Moving the selection changes no file. -/
theorem sameFiles_select (m : Window) (file : Option FileRef) :
    SameFiles m { m with selectedFile := file } :=
  ⟨rfl, rfl, fun _ => rfl⟩

/-- Nor does what the editor shows. -/
theorem sameFiles_text (m : Window) (text : String) : SameFiles m { m with text := text } :=
  ⟨rfl, rfl, fun _ => rfl⟩

theorem Shows.sameFiles (h : m.Shows f m') : SameFiles m m' :=
  ⟨h.files, h.next, h.toObject⟩

/-- Nor does an assignment to a member that is not persisted. -/
theorem sameFiles_assign (m : Window) (f : FileRef) {g : File → File}
    (hg : ∀ o, (g o).toObject = o.toObject) : SameFiles m (m.assign f g) := by
  refine ⟨rfl, rfl, fun f' => ?_⟩
  by_cases hf : f' = f
  · subst hf; rw [assign_heap_self, hg]
  · rw [assign_heap_of_ne _ _ _ hf]

/-! ## What a list satisfies -/

/-- **The list.** Files are objects, listed once, under distinct ids that
are not empty. -/
structure Listed (m : Window) : Prop where
  nodup : m.files.Nodup
  below : ∀ f ∈ m.files, f < m.next
  distinct : ∀ f ∈ m.files, ∀ g ∈ m.files, (m.heap f).id = (m.heap g).id → f = g
  named : ∀ f ∈ m.files, (m.heap f).id ≠ ""

/-- A list of some of the files, in any order, under the same ids. -/
theorem Listed.sub (h : m.Listed) (hnodup : m'.files.Nodup) (hnext : m'.next = m.next)
    (hsub : ∀ f ∈ m'.files, f ∈ m.files) (hid : ∀ f, (m'.heap f).id = (m.heap f).id) :
    m'.Listed where
  nodup := hnodup
  below := fun f hf => by rw [hnext]; exact h.below f (hsub f hf)
  distinct := fun f hf g hg he => by
    rw [hid, hid] at he
    exact h.distinct f (hsub f hf) g (hsub g hg) he
  named := fun f hf => by rw [hid]; exact h.named f (hsub f hf)

theorem SameFiles.listed (h : SameFiles m m') (hm : m.Listed) : m'.Listed :=
  hm.sub (h.files ▸ hm.nodup) h.next (fun _ hf => h.files ▸ hf) h.id

/-- An assignment that keeps the id keeps the list. -/
theorem Listed.assign {g : File → File} (hg : ∀ o, (g o).id = o.id) (h : m.Listed) :
    (m.assign f g).Listed := by
  refine h.sub h.nodup rfl (fun _ hf => hf) fun f' => ?_
  by_cases hf : f' = f
  · subst hf; rw [assign_heap_self, hg]
  · rw [assign_heap_of_ne _ _ _ hf]

theorem Listed.opened (h : m.Listed) : (m.opened f).Listed := h.assign fun _ => rfl

/-- The list without one file. -/
def without (m : Window) (f : FileRef) : Window := { m with files := m.files.filter (· ≠ f) }

@[simp] theorem mem_without_files {g : FileRef} :
    g ∈ (m.without f).files ↔ g ∈ m.files ∧ g ≠ f := by
  simp [without]

theorem Listed.without (h : m.Listed) : (m.without f).Listed :=
  h.sub (h.nodup.filter _) rfl (fun _ hf => List.mem_of_mem_filter hf) fun _ => rfl

/-- The window as `createFile` has it before it opens the new file. -/
def withNew (m : Window) (uuid name : String) : Window :=
  { m with
    heap := Function.update m.heap m.next (File.new ⟨uuid, name, "", false⟩)
    next := m.next + 1
    files := m.files ++ [m.next] }

section

variable {uuid name : String}

@[simp] theorem withNew_heap_next :
    (m.withNew uuid name).heap m.next = File.new ⟨uuid, name, "", false⟩ := by
  simp [withNew]

theorem withNew_heap_of_ne (hf : f ≠ m.next) : (m.withNew uuid name).heap f = m.heap f := by
  simp [withNew, hf]

/-- The files there were are untouched. -/
theorem withNew_heap_of_mem (h : m.Listed) (hf : f ∈ m.files) :
    (m.withNew uuid name).heap f = m.heap f :=
  withNew_heap_of_ne (Nat.ne_of_lt (h.below f hf))

theorem mem_withNew_files : f ∈ (m.withNew uuid name).files ↔ f ∈ m.files ∨ f = m.next := by
  simp [withNew]

/-- A new file under a fresh id. -/
theorem Listed.withNew (h : m.Listed) (hne : uuid ≠ "")
    (hfresh : ∀ f ∈ m.files, (m.heap f).id ≠ uuid) : (m.withNew uuid name).Listed := by
  have hid : ∀ f ∈ m.files, ((m.withNew uuid name).heap f).id = (m.heap f).id :=
    fun f hf => by rw [withNew_heap_of_mem h hf]
  have hnew : ((m.withNew uuid name).heap m.next).id = uuid := by rw [withNew_heap_next]; rfl
  refine ⟨?_, fun f hf => ?_, fun f hf g hg he => ?_, fun f hf => ?_⟩
  · refine List.nodup_append.2 ⟨h.nodup, List.nodup_singleton _, fun a ha b hb => ?_⟩
    rw [List.mem_singleton] at hb
    exact hb ▸ Nat.ne_of_lt (h.below a ha)
  · rcases mem_withNew_files.1 hf with hf | rfl
    · exact Nat.lt_succ_of_lt (h.below f hf)
    · exact Nat.lt_succ_self _
  · rcases mem_withNew_files.1 hf with hf | rfl <;> rcases mem_withNew_files.1 hg with hg | rfl
    · rw [hid f hf, hid g hg] at he
      exact h.distinct f hf g hg he
    · rw [hid f hf, hnew] at he
      exact absurd he (hfresh f hf)
    · rw [hid g hg, hnew] at he
      exact absurd he.symm (hfresh g hg)
    · rfl
  · rcases mem_withNew_files.1 hf with hf | rfl
    · rw [hid f hf]; exact h.named f hf
    · rw [hnew]; exact hne

end

end Window

/-! ## Creating and deleting, by their steps -/

section

variable {ace : Ace} {refuses : Refusals} {f : FileRef} {Q : PUnit → World → Prop}
  {E : Thrown → World → Prop} {w : World}

theorem wp_createFile_iff {uuid name : String} :
    wp (createFile ace refuses uuid name) Q E w ↔ wp (openFile ace refuses w.window.next) Q E
      { w with window := w.window.withNew uuid name } := by
  simp only [createFile, newFile, wp_bind, wp_get, wp_modifyWindow, wp_pure]
  rfl

theorem wp_deleteFile_iff : wp (deleteFile ace refuses f) Q E w ↔
    wp (findFileToSelect ace refuses f)
      (fun _ w' => wp (saveFileTree refuses) Q E { w' with window := w'.window.without f }) E
      w := by
  simp only [deleteFile, wp_bind]
  rfl

end

/-! ## A list and the objects stored of it -/

namespace Window

variable {m m' : Window} {f : FileRef}

theorem mem_objects_of_mem (hf : f ∈ m.files) : (m.heap f).toObject ∈ m.objects :=
  List.mem_map_of_mem hf

/-- Every entry has an id of its own. -/
structure WellNamed (objects : List IFileObject) : Prop where
  nodup : (objects.map IFileObject.id).Nodup
  named : ∀ o ∈ objects, o.id ≠ ""

theorem WellNamed.eq_of_id {objects : List IFileObject} (h : WellNamed objects)
    {o o' : IFileObject} (ho : o ∈ objects) (ho' : o' ∈ objects) (hid : o.id = o'.id) : o = o' :=
  List.inj_on_of_nodup_map h.nodup ho ho' hid

theorem Listed.wellNamed (h : m.Listed) : WellNamed m.objects := by
  refine ⟨?_, fun o ho => ?_⟩
  · simp only [Window.objects, List.map_map]
    exact List.Nodup.map_on (fun f hf g hg he => h.distinct f hf g hg he) h.nodup
  · obtain ⟨f, hf, rfl⟩ := List.mem_map.1 ho
    exact h.named f hf

theorem ofTree_heap {objects : List IFileObject} {i : ℕ} (hi : i < objects.length) :
    (ofTree objects).heap i = File.new objects[i] := by
  simp [ofTree, hi]

/-- **A window that loads a tree has the tree's files**, in its order. -/
theorem objects_ofTree (objects : List IFileObject) : (ofTree objects).objects = objects := by
  refine List.ext_getElem (by simp [Window.objects, ofTree]) fun i hi hi' => ?_
  have hlt : i < (ofTree objects).files.length := by simpa [ofTree] using hi'
  have hfile : (ofTree objects).files[i] = i := by simp [ofTree]
  simp only [Window.objects, List.getElem_map, hfile, ofTree_heap hi', File.toObject_new]

theorem mem_ofTree_files {objects : List IFileObject} :
    f ∈ (ofTree objects).files ↔ f < objects.length := List.mem_range

theorem listed_ofTree {objects : List IFileObject} (h : WellNamed objects) :
    (ofTree objects).Listed where
  nodup := List.nodup_range
  below := fun _ hf => mem_ofTree_files.1 hf
  distinct := fun i hi j hj he => by
    have hi := mem_ofTree_files.1 hi
    have hj := mem_ofTree_files.1 hj
    rw [ofTree_heap hi, ofTree_heap hj] at he
    have hl : ∀ {k}, k < objects.length → k < (objects.map IFileObject.id).length := by simp
    refine (@List.Nodup.getElem_inj_iff _ _ h.nodup _ (hl hi) _ (hl hj)).1 ?_
    simpa [File.new] using he
  named := fun i hi => by
    rw [ofTree_heap (mem_ofTree_files.1 hi)]
    exact h.named _ (List.getElem_mem _)

/-- The start-up has come to its end. -/
def started (m : Window) : Window := { m with shortcuts := true, saveCheck := true }

end Window

/-! ## Loading -/

open Window

variable {ace : Ace} {refuses : Refusals}

/-- **A reload** loads the tree and selects the file with the stored id.
For an id no stored file has it throws, and the start-up ends there. -/
theorem wp_reload {objects : List IFileObject} {Q : PUnit → World → Prop}
    {E : Thrown → World → Prop} {w : World} (htree : storedTree w.storage = some objects)
    (hnone : selectedFileId w.storage = none →
      Q ⟨⟩ { w with window := (ofTree objects).started })
    (hsome : ∀ f ∈ (ofTree objects).files,
      selectedFileId w.storage = some ((ofTree objects).heap f).id →
        wp (selectFile ace refuses f)
          (fun _ w' => Q ⟨⟩ { w' with window := w'.window.started }) E
          { w with window := ofTree objects })
    (hlost : ∀ id, selectedFileId w.storage = some id → (∀ o ∈ objects, o.id ≠ id) →
      E .typeError { w with window := ofTree objects }) :
    wp (reload ace refuses) Q E w := by
  simp only [reload, loadFileTree, wp_bind, wp_get, wp_modifyWindow, htree, ngAfterViewInit,
    loadSelectedFile, initShortcuts, initSaveCheck]
  rcases hid : selectedFileId w.storage with - | id
  · exact hnone hid
  · dsimp only
    split
    · next hfind =>
      refine hlost id hid fun o ho he => ?_
      obtain ⟨i, hi, rfl⟩ := List.getElem_of_mem ho
      refine List.find?_eq_none.1 hfind i (mem_ofTree_files.2 hi) ?_
      simp [ofTree_heap hi, File.new, he]
    · next f hfind =>
      have hf : f ∈ (ofTree objects).files := List.mem_of_find?_eq_some hfind
      have hfid : ((ofTree objects).heap f).id = id := by simpa using List.find?_some hfind
      have hselect := hsome f hf (by rw [hid, hfid])
      exact hselect.imp fun _ _ h => h

end Hmix
