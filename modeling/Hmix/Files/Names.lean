import Hmix.Files.Editing

/-!
# Names, and which file is found under one

Names are free, and `getFileByName` takes the first file that has one. Few
operations touch the names or the order of the list (`SameNames` is what the
others keep, whatever is refused them), so where the first file of a name is
lost it was deleted, renamed, or another in front of it took its name
(`Displaces`).
-/

namespace Hmix

namespace Window

variable {m m' m'' : Window} {f : FileRef} {name : String}

/-! ## What most operations keep -/

/-- The same list, under the same names. -/
structure SameNames (m m' : Window) : Prop where
  files : m'.files = m.files
  next : m'.next = m.next
  name : ∀ f, (m'.heap f).name = (m.heap f).name

namespace SameNames

theorem refl (m : Window) : SameNames m m := ⟨rfl, rfl, fun _ => rfl⟩

theorem trans (h : SameNames m m') (h' : SameNames m' m'') : SameNames m m'' where
  files := h'.files.trans h.files
  next := h'.next.trans h.next
  name := fun f => (h'.name f).trans (h.name f)

end SameNames

theorem SameFiles.sameNames (h : SameFiles m m') : SameNames m m' where
  files := h.files
  next := h.next
  name := fun f => congrArg IFileObject.name (h.toObject f)

theorem sameNames_assign (m : Window) (f : FileRef) {g : File → File}
    (hg : ∀ o, (g o).name = o.name) : SameNames m (m.assign f g) := by
  refine ⟨rfl, rfl, fun f' => ?_⟩
  by_cases hf : f' = f
  · subst hf
    rw [assign_heap_self, hg]
  · rw [assign_heap_of_ne _ _ _ hf]

/-- **Every file is listed once**, and was made. -/
structure Distinct (m : Window) : Prop where
  nodup : m.files.Nodup
  below : m.Below

theorem SameNames.distinct (h : SameNames m m') (hm : m.Distinct) : m'.Distinct where
  nodup := h.files ▸ hm.nodup
  below := fun f hf => by
    rw [h.next]
    exact hm.below f (h.files ▸ hf)

theorem distinct_ofTree (objects : List IFileObject) : (ofTree objects).Distinct :=
  ⟨List.nodup_range, fun _ hf => mem_ofTree_files.1 hf⟩

/-! ## The first file of a name -/

/-- **The file is the first of the list with the name.** -/
structure First (m : Window) (name : String) (f : FileRef) : Prop where
  listed : f ∈ m.files
  named : (m.heap f).name = name
  leads : ∀ g ∈ m.files, (m.heap g).name = name → m.files.idxOf f ≤ m.files.idxOf g

/-- There is one such file. -/
theorem First.unique {g : FileRef} (hf : m.First name f) (hg : m.First name g) : f = g := by
  have hidx : m.files.idxOf f = m.files.idxOf g :=
    le_antisymm (hf.leads g hg.listed hg.named) (hg.leads f hf.listed hf.named)
  exact (List.idxOf_inj hf.listed).1 hidx

theorem first_of_getFileByName (h : m.getFileByName name = some f) : m.First name f := by
  obtain ⟨hname, before, behind, hfiles, hbefore⟩ := List.find?_eq_some_iff_append.1 h
  have hothers : ∀ g ∈ before, (m.heap g).name ≠ name := fun g hg => by
    simpa using hbefore g hg
  have hfname : (m.heap f).name = name := by simpa using hname
  refine ⟨by simp [hfiles], hfname, fun g _ hg => ?_⟩
  have hf : f ∉ before := fun hmem => hothers f hmem hfname
  have hg' : g ∉ before := fun hmem => hothers g hmem hg
  rw [hfiles, List.idxOf_append_of_notMem hf, List.idxOf_append_of_notMem hg']
  simp

/-- **It is the one `getFileByName` finds.** -/
theorem getFileByName_eq_some_iff : m.getFileByName name = some f ↔ m.First name f := by
  refine ⟨first_of_getFileByName, fun h => ?_⟩
  rcases hfound : m.getFileByName name with - | g
  · have hnone := List.find?_eq_none.1 hfound f h.listed
    exact absurd h.named (by simpa using hnone)
  · rw [(first_of_getFileByName hfound).unique h]

/-! ## How it changes -/

theorem SameNames.first (h : SameNames m m') (hf : m.First name f) : m'.First name f := by
  refine ⟨h.files ▸ hf.listed, (h.name f).trans hf.named, fun g hg hname => ?_⟩
  rw [h.files] at hg ⊢
  exact hf.leads g hg ((h.name g).symm.trans hname)

/-- Without another file. -/
theorem First.without {g : FileRef} (hf : m.First name f) (hne : f ≠ g) :
    (m.without g).First name f := by
  rw [← getFileByName_eq_some_iff] at hf ⊢
  obtain ⟨hname, before, behind, hfiles, hbefore⟩ := List.find?_eq_some_iff_append.1 hf
  refine List.find?_eq_some_iff_append.2
    ⟨hname, before.filter (· ≠ g), behind.filter (· ≠ g), ?_, fun g' hg' => ?_⟩
  · simp [Window.without, hfiles, hne]
  · exact hbefore g' (List.mem_of_mem_filter hg')

/-- With one file more, at the end. -/
theorem First.withNew {uuid newName : String} (hf : m.First name f)
    (hbelow : ∀ g ∈ m.files, g < m.next) : (m.withNew uuid newName).First name f := by
  have hold : ∀ g ∈ m.files, (m.withNew uuid newName).heap g = m.heap g :=
    fun g hg => withNew_heap_of_ne (Nat.ne_of_lt (hbelow g hg))
  have hlisted : f ∈ (m.withNew uuid newName).files := mem_withNew_files.2 (.inl hf.listed)
  refine ⟨hlisted, by rw [hold f hf.listed]; exact hf.named, fun g hg hname => ?_⟩
  change (m.files ++ [m.next]).idxOf f ≤ (m.files ++ [m.next]).idxOf g
  rw [List.idxOf_append_of_mem hf.listed]
  by_cases hgm : g ∈ m.files
  · rw [hold g hgm] at hname
    rw [List.idxOf_append_of_mem hgm]
    exact hf.leads g hgm hname
  · rw [List.idxOf_append_of_notMem hgm]
    have := List.idxOf_lt_length_of_mem hf.listed
    omega

/-- With a file renamed: itself to the same name, or another that does not come
before it. -/
theorem First.renamed {g : FileRef} {newName : String} (hf : m.First name f)
    (hself : g = f → newName = name)
    (hother : newName = name → m.files.idxOf f ≤ m.files.idxOf g) :
    (m.renamed g newName).First name f := by
  have hname : ∀ f', ((m.renamed g newName).heap f').name =
      if f' = g then newName else (m.heap f').name := by
    intro f'
    by_cases h : f' = g
    · subst h
      simp [Window.renamed]
    · simp [Window.renamed, h]
  refine ⟨hf.listed, ?_, fun g' hg' hg'name => ?_⟩
  · rw [hname]
    split_ifs with h
    · exact hself h.symm
    · exact hf.named
  · rw [hname] at hg'name
    split_ifs at hg'name with h
    · exact h ▸ hother hg'name
    · exact hf.leads g' hg' hg'name

/-- **However the list is sorted.** Files of one name compare equal, and the
sort is stable. -/
theorem First.sorted {le : String → String → Bool} (htrans : ∀ a b c, le a b → le b c → le a c)
    (htotal : ∀ a b, le a b || le b a) (hf : m.First name f) :
    First { m with files := m.files.mergeSort fun a b => le (m.heap a).name (m.heap b).name }
      name f := by
  rw [← getFileByName_eq_some_iff] at hf ⊢
  set sorted := m.files.mergeSort fun a b => le (m.heap a).name (m.heap b).name
  -- the files of the name, in the order of the list, are in order already
  set named := m.files.filter fun g => (m.heap g).name == name with hnamed
  have hpairwise : named.Pairwise fun a b => le (m.heap a).name (m.heap b).name = true := by
    refine List.pairwise_of_forall_mem_list fun a ha b hb => ?_
    have ha' : (m.heap a).name = name := by simpa using (List.mem_filter.1 ha).2
    have hb' : (m.heap b).name = name := by simpa using (List.mem_filter.1 hb).2
    simpa [ha', hb'] using htotal name name
  have hsub : named.Sublist sorted :=
    List.sublist_mergeSort (fun a b c => htrans (m.heap a).name (m.heap b).name (m.heap c).name)
      (fun a b => htotal (m.heap a).name (m.heap b).name) hpairwise List.filter_sublist
  have hfilter : sorted.filter (fun g => (m.heap g).name == name) = named := by
    refine (List.Sublist.eq_of_length ?_ ?_).symm
    · have := hsub.filter fun g => (m.heap g).name == name
      simpa only [hnamed, List.filter_filter, Bool.and_self] using this
    · exact ((List.mergeSort_perm m.files _).filter _).length_eq.symm
  calc sorted.find? (fun g => (m.heap g).name == name)
      = named.head? := by rw [← List.head?_filter, hfilter]
    _ = m.files.find? (fun g => (m.heap g).name == name) := List.head?_filter
    _ = some f := hf

end Window

/-! ## What the operations do to the names -/

open Window

section

variable {ace : Ace} {refuses : Refusals} {m : Window} {f : FileRef}

/-- The names are those of `m`. -/
def NamedAs (m : Window) (w : World) : Prop := SameNames m w.window

theorem preserves_saveFileTree : Preserves (NamedAs m) (saveFileTree refuses) :=
  fun _ h => wp_saveFileTree (fun _ => h) (fun _ => h)

theorem preserves_setSelectedFile {file : Option FileRef} :
    Preserves (NamedAs m) (setSelectedFile refuses file) := fun w h =>
  have hmoved : SameNames m { w.window with selectedFile := file } :=
    h.trans (sameFiles_select w.window file).sameNames
  wp_setSelectedFile (fun _ => hmoved) (fun _ => hmoved)

theorem preserves_showFile : Preserves (NamedAs m) (showFile ace refuses f) := fun w h =>
  wp_showFile (fun _ => h.trans (sameFiles_select w.window (some f)).sameNames)
    fun _ _ hm => h.trans hm.sameFiles.sameNames

theorem preserves_openFile : Preserves (NamedAs m) (openFile ace refuses f) := fun w h => by
  rw [wp_openFile_iff]
  have hopened : SameNames m (w.window.opened f) :=
    h.trans (sameNames_assign w.window f fun _ => rfl)
  exact (preserves_showFile { w with window := w.window.opened f } hopened).imp fun _ w' h' =>
    preserves_saveFileTree w' h'

theorem preserves_selectFile : Preserves (NamedAs m) (selectFile ace refuses f) := fun w h => by
  rw [wp_selectFile_iff]
  refine ⟨fun _ => preserves_showFile w h, fun _ => ?_⟩
  exact (preserves_openFile w h).imp fun _ w' h' => preserves_showFile w' h'

theorem preserves_findFileToSelect :
    Preserves (NamedAs m) (findFileToSelect ace refuses f) := fun w h =>
  wp_findFileToSelect (fun _ => h) (fun _ _ => preserves_setSelectedFile w h) fun _ _ _ =>
    (preserves_setSelectedFile w h).imp fun _ w' h' => preserves_selectFile w' h'

theorem preserves_closeFile : Preserves (NamedAs m) (closeFile ace refuses f) := fun w h => by
  rw [wp_closeFile_iff]
  refine (preserves_findFileToSelect w h).imp fun _ w' h' => ?_
  have hclosed : SameNames m (w'.window.closed f) :=
    SameNames.trans h' (sameNames_assign w'.window f fun _ => rfl)
  exact preserves_saveFileTree { w' with window := w'.window.closed f } hclosed

theorem preserves_closeAll : Preserves (NamedAs m) (closeAll ace refuses) := fun _ h =>
  wp_closeAll (fun _ w' h' => preserves_closeFile w' h') h

theorem preserves_saveSelectedFile : Preserves (NamedAs m) (saveSelectedFile refuses) :=
  fun w h => wp_saveSelectedFile (fun _ => h) fun f _ => wp_saveFile fun events =>
    have hsaved : SameNames m (w.window.saved f) :=
      h.trans (sameNames_assign w.window f fun _ => rfl)
    preserves_saveFileTree { w with window := w.window.saved f, savedEvents := events } hsaved

theorem preserves_change {text : String} : Preserves (NamedAs m) (change text) := fun w h => by
  have htext : SameNames m { w.window with text := text } :=
    h.trans (sameFiles_text w.window text).sameNames
  rcases hf : w.window.selectedFile with - | f
  · exact (wp_change_none hf).2 htext
  · have htyped := sameNames_assign { w.window with text := text } f (g := fun file =>
      { file with tempContent := text, isSaved := text == file.content }) fun _ => rfl
    exact (wp_change hf).2 (htext.trans htyped)

/-- A new file is the last of the list, however its opening ends. -/
theorem createFile_names {uuid name : String} {w : World} :
    wp (createFile ace refuses uuid name) (fun _ => NamedAs (w.window.withNew uuid name))
      (fun _ => NamedAs (w.window.withNew uuid name)) w := by
  rw [wp_createFile_iff]
  exact preserves_openFile _ (.refl _)

/-- A file is gone from the list, unless it could not be let go of. -/
theorem deleteFile_names {w : World} :
    wp (deleteFile ace refuses f) (fun _ => NamedAs (w.window.without f))
      (fun _ w' => NamedAs w.window w' ∨ NamedAs (w.window.without f) w') w := by
  rw [wp_deleteFile_iff]
  refine (preserves_findFileToSelect w (SameNames.refl w.window)).mono (fun _ w' h => ?_)
    fun _ _ h => .inl h
  have hwithout : SameNames (w.window.without f) (w'.window.without f) := by
    refine ⟨?_, h.next, h.name⟩
    simp only [Window.without, h.files]
  exact (preserves_saveFileTree { w' with window := w'.window.without f } hwithout).mono
    (fun _ _ h' => h') fun _ _ h' => .inr h'

theorem renameFile_names {newName : String} {w : World} :
    wp (renameFile refuses f newName) (fun _ => NamedAs (w.window.renamed f newName))
      (fun _ => NamedAs (w.window.renamed f newName)) w := by
  rw [wp_renameFile_iff]
  exact preserves_saveFileTree _ (.refl _)

end

/-! ## One step -/

/-- **The operation may take the place of a file of a name**: it deletes or
renames it, or gives its name to a file in front of it; or it sorts by what is
no order. -/
def Op.Displaces (m : Window) (name : String) (f : FileRef) : Op → Prop
  | .deleteFile g => g = f
  | .renameFile g newName =>
      (g = f ∧ newName ≠ name) ∨ (newName = name ∧ m.files.idxOf g < m.files.idxOf f)
  | .sortedFiles le => ¬ ((∀ a b c, le a b → le b c → le a c) ∧ ∀ a b, le a b || le b a)
  | _ => False

section

variable {ace : Ace} {refuses : Refusals} {w : World} {op : Op}

/-- What the names are after an operation other than a reload. -/
theorem step_names (hop : op ≠ .reload) : ∃ m', NamedAs m' (w.step ace op refuses) ∧
    (w.window.Distinct → m'.Distinct) ∧ ∀ name f, w.window.Distinct → w.window.First name f →
      ¬ op.Displaces w.window name f → m'.First name f := by
  have quiet : Preserves (NamedAs w.window) (op.exec ace refuses) →
      ∃ m', NamedAs m' (w.step ace op refuses) ∧ (w.window.Distinct → m'.Distinct) ∧
        ∀ name f, w.window.Distinct → w.window.First name f →
          ¬ op.Displaces w.window name f → m'.First name f := fun hop =>
    ⟨w.window, wp_iff_after.1 (hop w.begin (.refl w.window)), id, fun _ _ _ hf _ => hf⟩
  cases op with
  | openFile f => exact quiet preserves_openFile
  | selectFile f => exact quiet preserves_selectFile
  | closeFile f => exact quiet preserves_closeFile
  | closeAll => exact quiet preserves_closeAll
  | saveFile => exact quiet preserves_saveSelectedFile
  | edit text => exact quiet preserves_change
  | reload => exact absurd rfl hop
  | createFile uuid newName =>
    refine ⟨w.window.withNew uuid newName, wp_iff_after.1 (createFile_names (w := w.begin)),
      fun h => ⟨?_, fun f hf => ?_⟩, fun name f h hf _ => hf.withNew h.below⟩
    · refine List.nodup_append.2 ⟨h.nodup, List.nodup_singleton _, fun a ha b hb => ?_⟩
      rw [List.mem_singleton] at hb
      exact hb ▸ Nat.ne_of_lt (h.below a ha)
    · rcases mem_withNew_files.1 hf with hf | rfl
      · exact Nat.lt_succ_of_lt (h.below f hf)
      · exact Nat.lt_succ_self _
  | renameFile g newName =>
    refine ⟨w.window.renamed g newName, wp_iff_after.1 (renameFile_names (w := w.begin)),
      fun h => ⟨h.nodup, h.below⟩,
      fun name f _ hf hkept => hf.renamed (fun hg => ?_) fun hname => ?_⟩
    · exact by_contra fun hne => hkept (.inl ⟨hg, hne⟩)
    · exact not_lt.1 fun hlt => hkept (.inr ⟨hname, hlt⟩)
  | sortedFiles le =>
    refine ⟨_, SameNames.refl _, fun h => ⟨?_, fun f hf => h.below f (List.mem_mergeSort.1 hf)⟩,
      fun name f _ hf hkept => ?_⟩
    · exact (List.mergeSort_perm _ _).nodup_iff.2 h.nodup
    · obtain ⟨htrans, htotal⟩ := not_not.1 hkept
      exact hf.sorted htrans htotal
  | deleteFile g =>
    have hdeleted : NamedAs w.window (w.step ace (.deleteFile g) refuses) ∨
        NamedAs (w.window.without g) (w.step ace (.deleteFile g) refuses) :=
      (deleteFile_names (w := w.begin)).after (fun _ _ h => .inr h) fun _ _ h => h
    rcases hdeleted with h | h
    · exact ⟨_, h, id, fun _ _ _ hf _ => hf⟩
    · refine ⟨_, h, fun h' => ⟨h'.nodup.filter _, fun f hf => ?_⟩,
        fun name f _ hf hkept => hf.without fun he => hkept he.symm⟩
      exact h'.below f (mem_without_files.1 hf).1

/-- **A step that does not displace it keeps the first file of a name.** -/
theorem first_step {name : String} {f : FileRef} (hop : op ≠ .reload)
    (hdistinct : w.window.Distinct) (hf : w.window.First name f)
    (hkept : ¬ op.Displaces w.window name f) :
    (w.step ace op refuses).window.First name f := by
  obtain ⟨m', hnames, -, hfirst⟩ := @step_names ace refuses w op hop
  exact SameNames.first hnames (hfirst name f hdistinct hf hkept)

/-- A page that loads has the names that are stored. -/
theorem reload_names : ∃ objects, NamedAs (ofTree objects) (w.step ace .reload refuses) := by
  rcases htree : storedTree w.begin.storage with - | objects
  · refine ⟨[], wp_iff_after.1 ?_⟩
    change wp (reload ace refuses) _ _ w.begin
    simp only [reload, loadFileTree, wp_bind, wp_get, wp_modifyWindow, htree, wp_throw]
    exact ⟨rfl, rfl, fun _ => rfl⟩
  · refine ⟨objects, wp_iff_after.1 ?_⟩
    refine wp_reload htree (fun _ => ⟨rfl, rfl, fun _ => rfl⟩) (fun f _ _ => ?_)
      fun _ _ _ => .refl _
    exact (@preserves_selectFile ace refuses _ f { w.begin with window := ofTree objects }
      (.refl _)).imp fun _ _ h => ⟨h.files, h.next, h.name⟩

/-- **Listed files were made, and are listed once**, whatever is refused. -/
theorem distinct_step (hdistinct : w.window.Distinct) :
    (w.step ace op refuses).window.Distinct := by
  by_cases hop : op = .reload
  · subst hop
    obtain ⟨objects, hnames⟩ := @reload_names ace refuses w
    exact SameNames.distinct hnames (distinct_ofTree objects)
  · obtain ⟨m', hnames, hm', -⟩ := @step_names ace refuses w op hop
    exact SameNames.distinct hnames (hm' hdistinct)

end

theorem distinct_of_reachable {ace : Ace} {opens : LocalStorage → Refusals → Prop} {w : World}
    (h : (desk ace opens).Reachable w) : w.window.Distinct := by
  refine h.invariant (I := fun w => w.window.Distinct) ?_ fun _ _ hw _ => distinct_step hw
  rintro _ ⟨storage, refuses, -, rfl⟩
  exact distinct_step (distinct_ofTree [])

end Hmix
