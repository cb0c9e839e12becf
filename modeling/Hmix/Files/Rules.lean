import Hmix.Model.Desk

/-!
# Rules for the file service's primitives

What one write, one switch of the editor and one choice of a neighbour can
do, each said once. The operations are straight-line programs over these,
so their invariants are read off the rules here and nothing unfolds a
primitive again.

The one that carries an argument is the switch. Showing a file moves the
selection first and then replaces the text, and the change events write
whatever the editor holds back into the file that is now selected. The
text that ends there is the file's own, so of the file only `isSaved` is
recomputed (`Shows`).
-/

namespace Hmix

variable {ace : Ace} {refuses : Refusals}

/-! ## Writes -/

/-- There is room for every write of `key`. -/
def Refusals.Accepts (refuses : Refusals) (key : StorageKey) : Prop :=
  ∀ n, refuses n key = false

@[simp] theorem wp_modifyWindow {g : Window → Window} {Q : PUnit → World → Prop}
    {E : Thrown → World → Prop} {w : World} :
    wp (modifyWindow g) Q E w ↔ Q ⟨⟩ { w with window := g w.window } := Iff.rfl

/-- A write is refused and throws, or it is made. -/
theorem wp_set_storage {key : StorageKey} {data : Option Json} {Q : PUnit → World → Prop}
    {E : Thrown → World → Prop} {w : World}
    (hE : refuses w.writes key = true → E .quotaExceeded { w with writes := w.writes + 1 })
    (hQ : refuses w.writes key = false → Q ⟨⟩ { w with
      writes := w.writes + 1, storage := w.storage.setItem key (Json.stringify data) }) :
    wp (StorageService.set refuses key data) Q E w := by
  simp only [StorageService.set, setItem, wp_bind, wp_get, wp_set, wp_ite, wp_throw, wp_modify,
    Bool.not_eq_true]
  exact ⟨hE, hQ⟩

/-- The tree is written as the window has it. -/
theorem wp_saveFileTree {Q : PUnit → World → Prop} {E : Thrown → World → Prop} {w : World}
    (hE : refuses w.writes .files = true → E .quotaExceeded { w with writes := w.writes + 1 })
    (hQ : refuses w.writes .files = false → Q ⟨⟩ { w with
      writes := w.writes + 1
      storage := w.storage.setItem .files
        (Json.stringify (some (treeToJson w.window.objects))) }) :
    wp (saveFileTree refuses) Q E w := by
  simp only [saveFileTree, wp_bind, wp_get]
  exact wp_set_storage hE hQ

/-- What is stored for a selection. -/
def selectionText (m : Window) (file : Option FileRef) : Text :=
  Json.stringify (file.map fun f => .str (m.heap f).id)

/-- The selection moves, whether or not its id can then be written. -/
theorem wp_setSelectedFile {file : Option FileRef} {Q : PUnit → World → Prop}
    {E : Thrown → World → Prop} {w : World}
    (hE : refuses w.writes .selectedFile = true → E .quotaExceeded { w with
      window := { w.window with selectedFile := file }, writes := w.writes + 1 })
    (hQ : refuses w.writes .selectedFile = false → Q ⟨⟩ { w with
      window := { w.window with selectedFile := file }
      writes := w.writes + 1
      storage := w.storage.setItem .selectedFile (selectionText w.window file) }) :
    wp (setSelectedFile refuses file) Q E w := by
  simp only [setSelectedFile, wp_bind, wp_modifyWindow, wp_get]
  exact wp_set_storage hE hQ

/-! ## The switch of the editor -/

namespace Window

/-- The window with `f` selected and its text in the editor. -/
def showing (m : Window) (f : FileRef) : Window :=
  { m with selectedFile := some f, text := (m.heap f).tempContent }

/-- `isSaved` recomputed, as the change handler does it. -/
def resave (file : File) : File :=
  { file with isSaved := file.tempContent == file.content }

/-- **What a switch to `f` leaves**: the file shown, and `isSaved`
recomputed if a change event fired. -/
def Shows (m : Window) (f : FileRef) (m' : Window) : Prop :=
  m' = m.showing f ∨ m' = (m.showing f).assign f resave

/-- **Every file says it is saved exactly when it is.** -/
def Honest (m : Window) : Prop :=
  ∀ f, (m.heap f).isSaved = ((m.heap f).tempContent == (m.heap f).content)

/-- The editor shows what was last typed into the selected file. -/
def Synced (m : Window) : Prop :=
  ∀ f, m.selectedFile = some f → m.text = (m.heap f).tempContent

variable {m m' : Window} {f g : FileRef}

namespace Shows

theorem selectedFile (h : m.Shows f m') : m'.selectedFile = some f := by
  rcases h with rfl | rfl <;> rfl

theorem files (h : m.Shows f m') : m'.files = m.files := by
  rcases h with rfl | rfl <;> rfl

theorem next (h : m.Shows f m') : m'.next = m.next := by
  rcases h with rfl | rfl <;> rfl

/-- Of the objects, nothing but an `isSaved` moves. -/
theorem heap (h : m.Shows f m') (g : FileRef) :
    m'.heap g = m.heap g ∨ m'.heap g = resave (m.heap g) := by
  rcases h with rfl | rfl
  · exact .inl rfl
  · by_cases hg : g = f
    · subst hg; exact .inr (by simp [Window.showing])
    · exact .inl (by simp [Window.showing, hg])

theorem toObject (h : m.Shows f m') (g : FileRef) :
    (m'.heap g).toObject = (m.heap g).toObject := by
  rcases h.heap g with e | e
  · rw [e]
  · rw [e]; rfl

theorem tempContent (h : m.Shows f m') (g : FileRef) :
    (m'.heap g).tempContent = (m.heap g).tempContent := by
  rcases h.heap g with e | e
  · rw [e]
  · rw [e]; rfl

theorem content (h : m.Shows f m') (g : FileRef) :
    (m'.heap g).content = (m.heap g).content := by
  rcases h.heap g with e | e
  · rw [e]
  · rw [e]; rfl

theorem honest (h : m.Shows f m') (hm : m.Honest) : m'.Honest := by
  intro g
  rcases h.heap g with e | e <;> rw [e]
  · exact hm g
  · rfl

theorem synced (h : m.Shows f m') : m'.Synced := by
  intro g hg
  have : f = g := Option.some.inj (h.selectedFile.symm.trans hg)
  subst this
  rcases h with rfl | rfl
  · rfl
  · simp [Window.showing, resave]

end Shows

end Window

/-- A change event with `f` selected writes the text into `f`. -/
theorem wp_change {text : String} {f : FileRef} {Q : PUnit → World → Prop}
    {E : Thrown → World → Prop} {w : World} (hf : w.window.selectedFile = some f) :
    wp (change text) Q E w ↔ Q ⟨⟩ { w with
      window := { w.window with text := text }.assign f fun file =>
        { file with tempContent := text, isSaved := text == file.content } } := by
  simp [change, onSelectedFileContentChanged, hf]

/-- With nothing selected the handler throws, and only the editor has
changed. -/
theorem wp_change_none {text : String} {Q : PUnit → World → Prop}
    {E : Thrown → World → Prop} {w : World} (hf : w.window.selectedFile = none) :
    wp (change text) Q E w ↔
      E .typeError { w with window := { w.window with text := text } } := by
  simp [change, onSelectedFileContentChanged, hf]

/-- **The setter of the editor's content**, where the text is the selected
file's own. The intermediate empty text is written into the file and
written over again. -/
theorem wp_setContent {f : FileRef} {Q : PUnit → World → Prop} {E : Thrown → World → Prop}
    {w : World} (hf : w.window.selectedFile = some f)
    (hQ : ∀ m, w.window.Shows f m → Q ⟨⟩ { w with window := m }) :
    wp (setContent ace (w.window.heap f).tempContent) Q E w := by
  set s := (w.window.heap f).tempContent with hs
  have hshow : w.window.showing f = { w.window with text := s } := by
    simp only [Window.showing, ← hf, ← hs]
  -- both event lists end in the same assignment to the same object
  have hsave : ({ w.window with text := s } : Window).assign f (fun file =>
      { file with tempContent := s, isSaved := s == file.content }) =
      (w.window.showing f).assign f Window.resave := by
    rw [hshow]
    simp [Window.assign, Window.resave, hs]
  simp only [setContent, wp_bind, wp_get]
  rcases ace.spec w.window.text s with he | he | ⟨he, hold⟩
  · rw [he]
    change wp (change s >>= fun _ => (pure ⟨⟩ : App PUnit)) _ E w
    rw [wp_bind, wp_change hf, wp_pure, wp_modifyWindow]
    exact hQ _ (.inr hsave)
  · rw [he]
    change wp (change "" >>= fun _ => change s >>= fun _ => (pure ⟨⟩ : App PUnit)) _ E w
    rw [wp_bind, wp_change hf, wp_bind, wp_change (by exact hf), wp_pure, wp_modifyWindow]
    refine hQ _ (.inr (Eq.trans ?_ hsave))
    simp [Window.assign]
  · rw [he]
    change wp (pure ⟨⟩ : App PUnit) _ E w
    rw [wp_pure, wp_modifyWindow]
    exact hQ _ (.inl hshow.symm)

/-- **A switch to an open file**: the selection, its id, the text. -/
theorem wp_showFile {f : FileRef} {Q : PUnit → World → Prop} {E : Thrown → World → Prop}
    {w : World}
    (hE : refuses w.writes .selectedFile = true → E .quotaExceeded { w with
      window := { w.window with selectedFile := some f }, writes := w.writes + 1 })
    (hQ : refuses w.writes .selectedFile = false → ∀ m, w.window.Shows f m → Q ⟨⟩ { w with
      window := m
      writes := w.writes + 1
      storage := w.storage.setItem .selectedFile (selectionText w.window (some f)) }) :
    wp (showFile ace refuses f) Q E w := by
  simp only [showFile, wp_bind]
  refine wp_setSelectedFile hE fun hr => ?_
  rw [wp_bind, wp_get]
  exact wp_setContent (f := f) rfl fun m hm => hQ hr m hm

/-- The file is marked open. -/
def Window.opened (m : Window) (f : FileRef) : Window :=
  m.assign f fun o => { o with isOpen := true }

theorem wp_openFile_iff {f : FileRef} {Q : PUnit → World → Prop} {E : Thrown → World → Prop}
    {w : World} : wp (openFile ace refuses f) Q E w ↔
      wp (showFile ace refuses f) (fun _ => wp (saveFileTree refuses) Q E) E
        { w with window := w.window.opened f } := by
  simp only [openFile, wp_bind, wp_modifyWindow]
  rfl

/-- **Opening a file** has three exits: the id is refused, the tree is, or
neither. -/
theorem wp_openFile {f : FileRef} {Q : PUnit → World → Prop} {E : Thrown → World → Prop}
    {w : World}
    (hid : refuses w.writes .selectedFile = true → E .quotaExceeded { w with
      window := { w.window.opened f with selectedFile := some f }, writes := w.writes + 1 })
    (htree : refuses w.writes .selectedFile = false → refuses (w.writes + 1) .files = true →
      ∀ m, (w.window.opened f).Shows f m → E .quotaExceeded { w with
        window := m
        writes := w.writes + 2
        storage := w.storage.setItem .selectedFile (selectionText (w.window.opened f) (some f)) })
    (hQ : refuses w.writes .selectedFile = false → refuses (w.writes + 1) .files = false →
      ∀ m, (w.window.opened f).Shows f m → Q ⟨⟩ { w with
        window := m
        writes := w.writes + 2
        storage := (w.storage.setItem .selectedFile
          (selectionText (w.window.opened f) (some f))).setItem .files
            (Json.stringify (some (treeToJson m.objects))) }) :
    wp (openFile ace refuses f) Q E w := by
  rw [wp_openFile_iff]
  refine wp_showFile hid fun hr m hm => wp_saveFileTree (fun hr' => htree hr hr' m hm)
    fun hr' => hQ hr hr' m hm

/-! ## The operations, by their steps -/

/-- The file is marked closed. -/
def Window.closed (m : Window) (f : FileRef) : Window :=
  m.assign f fun o => { o with isOpen := false }

/-- The file has another name. -/
def Window.renamed (m : Window) (f : FileRef) (newName : String) : Window :=
  m.assign f fun o => { o with name := newName }

/-- The file has the text of the editor, and is marked saved. -/
def Window.saved (m : Window) (f : FileRef) : Window :=
  m.assign f fun o => { o with content := m.text, isSaved := true }

section

variable {f : FileRef} {Q : PUnit → World → Prop} {E : Thrown → World → Prop} {w : World}

/-- A file that is not open is shown twice. -/
theorem wp_selectFile_iff : wp (selectFile ace refuses f) Q E w ↔
    ((w.window.heap f).isOpen = true → wp (showFile ace refuses f) Q E w) ∧
      (¬ (w.window.heap f).isOpen = true →
        wp (openFile ace refuses f) (fun _ => wp (showFile ace refuses f) Q E) E w) := by
  simp only [selectFile, wp_bind, wp_get, wp_ite]

/-- A file that is not selected is let go of already. -/
theorem wp_findFileToSelect (hother : w.window.selectedFile ≠ some f → Q ⟨⟩ w)
    (hnone : w.window.selectedFile = some f → neighbour w.window.openFiles f = none →
      wp (setSelectedFile refuses none) Q E w)
    (hsome : w.window.selectedFile = some f → ∀ g, neighbour w.window.openFiles f = some g →
      wp (setSelectedFile refuses (some g)) (fun _ => wp (selectFile ace refuses g) Q E) E w) :
    wp (findFileToSelect ace refuses f) Q E w := by
  simp only [findFileToSelect, wp_bind, wp_get, wp_ite]
  refine ⟨fun hsel => ?_, hother⟩
  rcases hneighbour : neighbour w.window.openFiles f with - | g
  · exact hnone hsel hneighbour
  · exact hsome hsel g hneighbour

theorem wp_closeFile_iff : wp (closeFile ace refuses f) Q E w ↔
    wp (findFileToSelect ace refuses f)
      (fun _ w' => wp (saveFileTree refuses) Q E { w' with window := w'.window.closed f }) E w := by
  simp only [closeFile, wp_bind]
  rfl

/-- What closing any file keeps, closing all of them keeps. -/
theorem wp_closeAll {I : World → Prop}
    (hclose : ∀ f w, I w → wp (closeFile ace refuses f) (fun _ => I) E w) (h : I w) :
    wp (closeAll ace refuses) (fun _ => I) E w := by
  simp only [closeAll, wp_bind, wp_get]
  exact wp_forM (I := fun _ => I) (fun f _ w' h' => hclose f w' h') _ _ h

theorem wp_renameFile_iff {newName : String} : wp (renameFile refuses f newName) Q E w ↔
    wp (saveFileTree refuses) Q E { w with window := w.window.renamed f newName } := by
  simp only [renameFile, wp_bind, wp_modifyWindow]
  rfl

/-- Saving is announced, or not. -/
theorem wp_saveFile (h : ∀ events, wp (saveFileTree refuses) Q E
      { w with window := w.window.saved f, savedEvents := events }) :
    wp (saveFile refuses f) Q E w := by
  simp only [saveFile, wp_bind, wp_get, wp_ite, wp_modify, wp_modifyWindow]
  exact ⟨fun _ => h _, fun _ => h _⟩

/-- The shortcut throws where nothing is selected. -/
theorem wp_saveSelectedFile (hnone : w.window.selectedFile = none → E .typeError w)
    (hsome : ∀ f, w.window.selectedFile = some f → wp (saveFile refuses f) Q E w) :
    wp (saveSelectedFile refuses) Q E w := by
  simp only [saveSelectedFile, wp_bind, wp_get]
  rcases hf : w.window.selectedFile with - | f
  · exact hnone hf
  · exact hsome f hf

end

/-! ## Which runs return -/

section

variable {file : FileRef} {w : World}

/-- **A switch to an open file returns** where the id can be written, and
leaves the file selected. -/
theorem showFile_ends : wp (showFile ace refuses file)
    (fun _ w' => refuses w.writes .selectedFile = false ∧ w'.writes = w.writes + 1 ∧
      w'.window.selectedFile = some file)
    (fun _ _ => refuses w.writes .selectedFile = true) w :=
  wp_showFile (fun hr => hr) fun hr _ hm => ⟨hr, rfl, hm.selectedFile⟩

theorem openFile_ends : wp (openFile ace refuses file)
    (fun _ w' => (refuses w.writes .selectedFile = false ∧ refuses (w.writes + 1) .files = false) ∧
      w'.writes = w.writes + 2 ∧ w'.window.selectedFile = some file)
    (fun _ _ => ¬ (refuses w.writes .selectedFile = false ∧
      refuses (w.writes + 1) .files = false)) w := by
  refine wp_openFile (fun hid hnone => ?_) (fun _ htree _ _ hnone => ?_) fun hid htree m hm => ?_
  · rw [hid] at hnone
    cases hnone.1
  · rw [htree] at hnone
    cases hnone.2
  · exact ⟨⟨hid, htree⟩, rfl, hm.selectedFile⟩

theorem selectFile_ends : wp (selectFile ace refuses file)
    (fun _ w' => (refuses w.writes .selectedFile = false ∧
        ((w.window.heap file).isOpen = false →
          refuses (w.writes + 1) .files = false ∧ refuses (w.writes + 2) .selectedFile = false)) ∧
      w'.window.selectedFile = some file)
    (fun _ _ => ¬ (refuses w.writes .selectedFile = false ∧
      ((w.window.heap file).isOpen = false →
        refuses (w.writes + 1) .files = false ∧ refuses (w.writes + 2) .selectedFile = false)))
    w := by
  rw [wp_selectFile_iff]
  refine ⟨fun hopen => ?_, fun hclosed => ?_⟩
  · refine showFile_ends.mono (fun _ w' h => ⟨⟨h.1, fun hclosed => ?_⟩, h.2.2⟩) fun _ _ hid h => ?_
    · rw [hopen] at hclosed
      cases hclosed
    · rw [hid] at h
      cases h.1
  · -- a closed file is opened first, and then shown once more
    have hopen : (w.window.heap file).isOpen = false := by simpa using hclosed
    refine openFile_ends.mono (fun _ w' h => ?_) fun _ _ hrefused h => ?_
    · refine showFile_ends.mono (fun _ w'' h' => ⟨⟨h.1.1, fun _ => ⟨h.1.2, ?_⟩⟩, h'.2.2⟩)
        fun _ _ hid h' => ?_
      · rw [← h.2.1]
        exact h'.1
      · rw [h.2.1] at hid
        exact Bool.noConfusion (hid.symm.trans (h'.2 hopen).2)
    · exact hrefused ⟨h.1, (h.2 hopen).1⟩

end

/-! ## The neighbour -/

theorem indexOf_of_mem {l : List FileRef} {f : FileRef} (h : f ∈ l) :
    indexOf l f = (l.idxOf f : ℤ) := if_pos h

/-- The source's index arithmetic, for a list of more than one. -/
theorem neighbour_of_mem {l : List FileRef} {f : FileRef} (hf : f ∈ l) (hlen : 1 < l.length) :
    neighbour l f = l[if l.idxOf f = 0 then 1
      else if l.idxOf f + 1 = l.length then l.idxOf f - 1 else l.idxOf f + 1]? := by
  simp only [neighbour, indexOf_of_mem hf, elementAt, if_pos hlen]
  by_cases h0 : l.idxOf f = 0
  · simp [h0]
  · by_cases h1 : l.idxOf f + 1 = l.length
    · have he : (l.idxOf f : ℤ) = l.length - 1 := by omega
      rw [if_neg (by omega), if_pos he, if_neg (by omega), if_neg h0, if_pos h1]
      congr 1
      omega
    · have he : ¬ (l.idxOf f : ℤ) = l.length - 1 := by omega
      rw [if_neg (by omega), if_neg he, if_neg (by omega), if_neg h0, if_neg h1]
      congr 1

/-- **The neighbour of a file in a list it is in**: there is one unless the
file is alone, and it is another file of the list. -/
theorem neighbour_spec {l : List FileRef} {f : FileRef} (hl : l.Nodup) (hf : f ∈ l) :
    (neighbour l f = none ∧ ∀ g ∈ l, g = f) ∨
      ∃ g, neighbour l f = some g ∧ g ∈ l ∧ g ≠ f := by
  have hlt : l.idxOf f < l.length := List.idxOf_lt_length_iff.2 hf
  by_cases hlen : 1 < l.length
  · right
    -- each of the three cases names an index in range and other than `f`'s
    obtain ⟨j, hj, hjf, hn⟩ : ∃ j, j < l.length ∧ j ≠ l.idxOf f ∧ neighbour l f = l[j]? := by
      refine ⟨_, ?_, ?_, neighbour_of_mem hf hlen⟩
      · split_ifs <;> omega
      · split_ifs <;> omega
    refine ⟨l[j], by rw [hn, List.getElem?_eq_getElem hj], List.getElem_mem hj, fun he => hjf ?_⟩
    have hidx : l[l.idxOf f] = l[j] := by rw [List.getElem_idxOf]; exact he.symm
    exact ((List.Nodup.getElem_inj_iff hl).1 hidx).symm
  · left
    have h1 : l.length = 1 := by omega
    obtain ⟨x, rfl⟩ := List.length_eq_one_iff.1 h1
    refine ⟨by simp [neighbour], fun g hg => ?_⟩
    rw [List.mem_singleton] at hg hf
    rw [hg, hf]

end Hmix
