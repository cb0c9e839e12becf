import Hmix.Files.Listing

/-!
# Edits stay with their file

All files share one editor, and its change handler writes whatever the
editor shows into whichever file is selected. An operation moves the
selection and the text one after the other, so in between the two are out
of step; what holds between operations is `Settled`. The only operations
that touch a `tempContent` or a `content` are typing and saving, and they
touch the selected file's.

What the operations rest on is that the write of the selected id, which
stands between the two moves, does not throw. The write of the tree comes
last and may.
-/

namespace Hmix

variable {ace : Ace} {refuses : Refusals}

namespace Window

variable {m₀ m m' m'' : Window} {f : FileRef} {gone : Option FileRef}

/-- What of a file an operation keeps. -/
structure SameTexts (file file' : File) : Prop where
  id : file'.id = file.id
  tempContent : file'.tempContent = file.tempContent
  content : file'.content = file.content

theorem SameTexts.refl (file : File) : SameTexts file file := ⟨rfl, rfl, rfl⟩

/-- Of the files `m` lists, `m'` has the texts unchanged. -/
def Keeps (m m' : Window) : Prop := ∀ f ∈ m.files, SameTexts (m.heap f) (m'.heap f)

/-- Listed files are objects that were made. -/
def Below (m : Window) : Prop := ∀ f ∈ m.files, f < m.next

/-- What an operation finds once it has moved the selection, and keeps:
the flags are honest, no text of `m₀` has changed and none of its files but
`gone` has left the list. -/
structure Unsettled (gone : Option FileRef) (m₀ m : Window) : Prop where
  honest : m.Honest
  below : m.Below
  keeps : m₀.Keeps m
  remain : ∀ f ∈ m₀.files, gone ≠ some f → f ∈ m.files

/-- **Between operations** the editor shows the selected file as well. -/
structure Settled (gone : Option FileRef) (m₀ m : Window) : Prop extends
    Unsettled gone m₀ m where
  synced : m.Synced

/-- Showing a file settles the window. -/
theorem Unsettled.shows (h : Unsettled gone m₀ m) (hs : m.Shows f m') : Settled gone m₀ m' where
  honest := hs.honest h.honest
  synced := hs.synced
  below := fun g hg => by rw [hs.next]; exact h.below g (hs.files ▸ hg)
  keeps := fun g hg => by
    obtain ⟨hid, ht, hc⟩ := h.keeps g hg
    exact ⟨(hs.sameFiles.id g).trans hid, (hs.tempContent g).trans ht, (hs.content g).trans hc⟩
  remain := fun g hg hne => hs.files ▸ h.remain g hg hne

/-- An assignment to members other than the id, the texts and `isSaved`. -/
def Harmless (g : File → File) : Prop :=
  ∀ file, SameTexts file (g file) ∧ (g file).isSaved = file.isSaved

theorem Harmless.heap {g : File → File} (hg : Harmless g) (m : Window) (f f' : FileRef) :
    SameTexts (m.heap f') ((m.assign f g).heap f') ∧
      ((m.assign f g).heap f').isSaved = (m.heap f').isSaved := by
  by_cases h : f' = f
  · subst h; rw [assign_heap_self]; exact hg _
  · rw [assign_heap_of_ne _ _ _ h]; exact ⟨.refl _, rfl⟩

theorem Unsettled.assign {g : File → File} (hg : Harmless g) (h : Unsettled gone m₀ m) :
    Unsettled gone m₀ (m.assign f g) where
  honest := fun f' => by
    obtain ⟨⟨-, ht, hc⟩, hs⟩ := hg.heap m f f'
    rw [ht, hc, hs]; exact h.honest f'
  below := h.below
  keeps := fun f' hf' => by
    obtain ⟨⟨hid, ht, hc⟩, -⟩ := hg.heap m f f'
    obtain ⟨hid', ht', hc'⟩ := h.keeps f' hf'
    exact ⟨hid.trans hid', ht.trans ht', hc.trans hc'⟩
  remain := h.remain

theorem Settled.assign {g : File → File} (hg : Harmless g) (h : Settled gone m₀ m) :
    Settled gone m₀ (m.assign f g) where
  toUnsettled := h.toUnsettled.assign hg
  synced := fun f' hf' => by
    rw [(hg.heap m f f').1.tempContent]; exact h.synced f' hf'

/-- A settled window, compared with itself. -/
theorem Settled.self {gone' : Option FileRef} (h : Settled gone m₀ m) : Settled gone' m m :=
  ⟨⟨h.honest, h.below, fun _ _ => .refl _, fun _ hf _ => hf⟩, h.synced⟩

end Window

open Window

/-! ## The operations -/

section

variable {m₀ : Window} {w : World} {f : FileRef} {gone : Option FileRef}

/-- Writing the tree changes no memory, made or refused. -/
theorem settled_saveFileTree (h : Settled gone m₀ w.window) :
    wp (saveFileTree refuses) (fun _ w' => Settled gone m₀ w'.window)
      (fun _ w' => Settled gone m₀ w'.window) w :=
  wp_saveFileTree (fun _ => h) (fun _ => h)

theorem settled_renameFile {newName : String} (h : Settled gone m₀ w.window) :
    wp (renameFile refuses f newName) (fun _ w' => Settled gone m₀ w'.window)
      (fun _ w' => Settled gone m₀ w'.window) w := by
  have hrenamed : Settled gone m₀ (w.window.renamed f newName) :=
    h.assign fun _ => ⟨⟨rfl, rfl, rfl⟩, rfl⟩
  rw [wp_renameFile_iff]
  exact settled_saveFileTree hrenamed

variable (hid : refuses.Accepts .selectedFile)
include hid

theorem settled_showFile (h : Unsettled gone m₀ w.window) :
    wp (showFile ace refuses f) (fun _ w' => Settled gone m₀ w'.window)
      (fun _ w' => Settled gone m₀ w'.window) w :=
  wp_showFile (fun hr => absurd hr (by simp [hid w.writes])) fun _ _ hm => h.shows hm

theorem settled_openFile (h : Unsettled gone m₀ w.window) :
    wp (openFile ace refuses f) (fun _ w' => Settled gone m₀ w'.window)
      (fun _ w' => Settled gone m₀ w'.window) w := by
  have hopened : Unsettled gone m₀ (w.window.opened f) := h.assign fun _ => ⟨⟨rfl, rfl, rfl⟩, rfl⟩
  rw [wp_openFile_iff]
  exact (settled_showFile hid hopened).imp fun _ _ h' => settled_saveFileTree h'

theorem settled_selectFile (h : Unsettled gone m₀ w.window) :
    wp (selectFile ace refuses f) (fun _ w' => Settled gone m₀ w'.window)
      (fun _ w' => Settled gone m₀ w'.window) w := by
  rw [wp_selectFile_iff]
  refine ⟨fun _ => settled_showFile hid h, fun _ => ?_⟩
  exact (settled_openFile hid h).imp fun _ _ h' => settled_showFile hid h'.toUnsettled

/-- A neighbour is shown, or nothing is selected and there is nothing to
show. -/
theorem settled_findFileToSelect (h : Settled gone m₀ w.window) :
    wp (findFileToSelect ace refuses f) (fun _ w' => Settled gone m₀ w'.window)
      (fun _ w' => Settled gone m₀ w'.window) w := by
  have hmoved : ∀ file, Unsettled gone m₀ { w.window with selectedFile := file } :=
    fun _ => ⟨h.honest, h.below, h.keeps, h.remain⟩
  have haccepts : ¬ refuses w.writes .selectedFile = true := by simp [hid w.writes]
  refine wp_findFileToSelect (fun _ => h) (fun _ _ => ?_) fun _ g _ => ?_
  · -- nothing is selected, so any text is in order
    refine wp_setSelectedFile (fun hr => absurd hr haccepts) fun _ => ?_
    exact ⟨hmoved none, fun _ hf => by cases hf⟩
  · refine wp_setSelectedFile (fun hr => absurd hr haccepts) fun _ => ?_
    exact settled_selectFile hid (hmoved (some g))

theorem settled_closeFile (h : Settled gone m₀ w.window) :
    wp (closeFile ace refuses f) (fun _ w' => Settled gone m₀ w'.window)
      (fun _ w' => Settled gone m₀ w'.window) w := by
  rw [wp_closeFile_iff]
  refine (settled_findFileToSelect hid h).imp fun _ w₁ h₁ => ?_
  have hclosed : Settled gone m₀ (w₁.window.closed f) := h₁.assign fun _ => ⟨⟨rfl, rfl, rfl⟩, rfl⟩
  exact settled_saveFileTree hclosed

theorem settled_closeAll (h : Settled gone m₀ w.window) :
    wp (closeAll ace refuses) (fun _ w' => Settled gone m₀ w'.window)
      (fun _ w' => Settled gone m₀ w'.window) w :=
  wp_closeAll (I := fun w' => Settled gone m₀ w'.window) (fun _ _ h' => settled_closeFile hid h') h

theorem settled_deleteFile (h : Settled (some f) m₀ w.window) :
    wp (deleteFile ace refuses f) (fun _ w' => Settled (some f) m₀ w'.window)
      (fun _ w' => Settled (some f) m₀ w'.window) w := by
  rw [wp_deleteFile_iff]
  refine (settled_findFileToSelect hid h).imp fun _ w₁ h₁ => ?_
  have hwithout : Settled (some f) m₀ (w₁.window.without f) := by
    refine ⟨⟨h₁.honest, fun g hg => ?_, h₁.keeps, fun g hg hne => ?_⟩, h₁.synced⟩
    · exact h₁.below g (mem_without_files.1 hg).1
    · exact mem_without_files.2 ⟨h₁.remain g hg hne, fun he => hne (he ▸ rfl)⟩
  exact settled_saveFileTree hwithout

/-- A new file is shown like any other that is in the list. -/
theorem settled_createFile {uuid name : String} (h : Settled none w.window w.window) :
    wp (createFile ace refuses uuid name)
      (fun _ w' => Settled none (w.window.withNew uuid name) w'.window)
      (fun _ w' => Settled none (w.window.withNew uuid name) w'.window) w := by
  rw [wp_createFile_iff]
  refine settled_openFile hid ⟨fun g => ?_, fun g hg => ?_, fun _ _ => .refl _, fun _ hg _ => hg⟩
  · by_cases hgn : g = w.window.next
    · subst hgn; simp [File.new]
    · rw [withNew_heap_of_ne hgn]; exact h.honest g
  · rcases mem_withNew_files.1 hg with hg | rfl
    · exact Nat.lt_succ_of_lt (h.below g hg)
    · exact Nat.lt_succ_self _

end

/-! ## Typing, saving, loading -/

section

variable {w : World} {f : FileRef} {gone : Option FileRef}

theorem Window.settled_self {m : Window} (hh : m.Honest) (hb : m.Below) (hs : m.Synced) :
    Settled gone m m :=
  ⟨⟨hh, hb, fun _ _ => .refl _, fun _ hf _ => hf⟩, hs⟩

/-- **Typing** changes the selected file's `tempContent` and recomputes its
flag. -/
theorem edit_spec {text : String} (h : Settled none w.window w.window) :
    let I : World → Prop := fun w' => Settled none w'.window w'.window ∧
      w'.window.files = w.window.files ∧
      ∀ g, (w'.window.heap g).id = (w.window.heap g).id ∧
        (w'.window.heap g).content = (w.window.heap g).content ∧
        (w.window.selectedFile ≠ some g →
          (w'.window.heap g).tempContent = (w.window.heap g).tempContent)
    wp (change text) (fun _ => I) (fun _ => I) w := by
  intro I
  rcases hf : w.window.selectedFile with - | f
  · rw [wp_change_none hf]
    refine ⟨settled_self h.honest h.below fun g hg => ?_, rfl, fun g => ⟨rfl, rfl, fun _ => rfl⟩⟩
    cases hf.symm.trans hg
  · rw [wp_change hf]
    refine ⟨settled_self (fun g => ?_) h.below fun g hg => ?_, rfl, fun g => ?_⟩
    · by_cases hg : g = f
      · subst hg; simp
      · simpa [hg] using h.honest g
    · have hfg : f = g := Option.some.inj (hf.symm.trans hg)
      subst hfg
      simp
    · by_cases hg : g = f
      · subst hg; simp [hf]
      · simp [hg]

/-- **Saving** changes the selected file's `content`, to the text the
editor shows, which is its `tempContent`. -/
theorem saveFile_spec (h : Settled none w.window w.window) :
    let I : World → Prop := fun w' => Settled none w'.window w'.window ∧
      w'.window.files = w.window.files ∧
      ∀ g, (w'.window.heap g).id = (w.window.heap g).id ∧
        (w'.window.heap g).tempContent = (w.window.heap g).tempContent ∧
        (w'.window.heap g).content = if w.window.selectedFile = some g then w.window.text
          else (w.window.heap g).content
    wp (saveSelectedFile refuses) (fun _ => I) (fun _ => I) w := by
  intro I
  refine wp_saveSelectedFile (fun hf => ?_) fun f hf => ?_
  · exact ⟨h, rfl, fun g => ⟨rfl, rfl, by simp [hf]⟩⟩
  · -- written or refused, announced or not: memory is the same
    have key : ∀ w' : World, w'.window = w.window.saved f → I w' := by
      intro w' hw'
      have htext := h.synced f hf
      simp only [I, hw', hf, saved]
      refine ⟨settled_self (fun g => ?_) h.below fun g hg => ?_, rfl, fun g => ?_⟩
      · by_cases hg : g = f
        · subst hg; simp [htext]
        · simpa [hg] using h.honest g
      · have hfg : f = g := Option.some.inj (hf.symm.trans hg)
        subst hfg
        simpa using htext
      · by_cases hg : g = f
        · subst hg; simp
        · have hne : ¬ f = g := fun he => hg he.symm
          simp [hg, hne]
    refine wp_saveFile fun events => ?_
    exact wp_saveFileTree (fun _ => key _ rfl) fun _ => key _ rfl

/-- A window that has loaded a tree has honest flags and no selection. -/
theorem settled_ofTree (objects : List IFileObject) :
    Settled gone (Window.ofTree objects) (Window.ofTree objects) := by
  refine settled_self (fun f => ?_) (fun f hf => List.mem_range.1 hf) nofun
  rcases hf : objects[f]? with - | o
  · simp [Window.ofTree, hf, default, File.new]
  · simp [Window.ofTree, hf, File.new]

theorem settled_blank : Settled gone Window.blank Window.blank := settled_ofTree []

theorem settled_reload (hid : refuses.Accepts .selectedFile) :
    wp (reload ace refuses) (fun _ w' => Settled none w'.window w'.window)
      (fun _ w' => Settled none w'.window w'.window) w := by
  rcases htree : storedTree w.storage with - | objects
  · simp only [reload, loadFileTree, wp_bind, wp_get, wp_modifyWindow, htree, wp_throw]
    exact settled_blank
  · have h : Settled none (Window.ofTree objects) (Window.ofTree objects) := settled_ofTree objects
    refine wp_reload htree (fun _ => settled_self h.honest h.below h.synced) (fun f _ _ => ?_)
      fun _ _ _ => h
    exact (settled_selectFile hid h.toUnsettled).mono
      (fun _ w' h' => settled_self h'.honest h'.below h'.synced) fun _ _ h' => h'.self

end

/-! ## One step, and every run -/

/-- The texts are in order: the editor shows what was last typed into the
selected file, and a file is marked saved exactly when it is. -/
structure Window.InOrder (m : Window) : Prop where
  shown : ∀ f, m.selectedFile = some f → m.text = (m.heap f).tempContent
  saved : ∀ f ∈ m.files, (m.heap f).isSaved = true ↔
    (m.heap f).tempContent = (m.heap f).content

/-- **What an operation may do to the files.** Typing changes the selected
file's `tempContent`, saving the selected file's `content`, and nothing
else changes either of any file. A file that is not deleted stays, under
its id. -/
structure Frame (op : Op) (m m' : Window) : Prop where
  tempContent : ∀ f ∈ m.files, ¬ ((∃ text, op = .edit text) ∧ m.selectedFile = some f) →
    (m'.heap f).tempContent = (m.heap f).tempContent
  content : ∀ f ∈ m.files, ¬ (op = .saveFile ∧ m.selectedFile = some f) →
    (m'.heap f).content = (m.heap f).content
  stays : ∀ f ∈ m.files, op ≠ .deleteFile f →
    f ∈ m'.files ∧ (m'.heap f).id = (m.heap f).id

section

variable {m₀ m m' : Window} {gone : Option FileRef}

theorem Window.Settled.inOrder (h : Settled gone m₀ m) : m.InOrder where
  shown := h.synced
  saved := fun f _ => by rw [h.honest f, beq_iff_eq]

/-- Where no file is unsaved, and saved means saved, nothing typed differs
from what is saved. -/
theorem Window.InOrder.tempContent (h : m.InOrder) (hs : m.hasUnsavedFiles = false)
    {f : FileRef} (hf : f ∈ m.files) : (m.heap f).tempContent = (m.heap f).content := by
  have hsaved : (m.heap f).isSaved = true := by
    have := List.any_eq_false.1 hs f hf
    simpa using this
  exact (h.saved f hf).1 hsaved

theorem Window.Unsettled.frame {op : Op} (h : Unsettled gone m m')
    (hgone : ∀ f, gone = some f → op = .deleteFile f) : Frame op m m' where
  tempContent := fun f hf _ => (h.keeps f hf).tempContent
  content := fun f hf _ => (h.keeps f hf).content
  stays := fun f hf hne => ⟨h.remain f hf fun he => hne (hgone f he), (h.keeps f hf).id⟩

/-- What `createFile` adds to the list is no matter of the other files. -/
theorem Window.Unsettled.withNew {uuid name : String} (hb : m.Below)
    (h : Unsettled gone (m.withNew uuid name) m') : Unsettled gone m m' := by
  have hold : ∀ f ∈ m.files, f ∈ (m.withNew uuid name).files ∧
      (m.withNew uuid name).heap f = m.heap f := fun f hf => by
    have hne : f ≠ m.next := Nat.ne_of_lt (hb f hf)
    exact ⟨mem_withNew_files.2 (.inl hf), withNew_heap_of_ne hne⟩
  refine ⟨h.honest, h.below, fun f hf => ?_, fun f hf hne => h.remain f (hold f hf).1 hne⟩
  rw [← (hold f hf).2]
  exact h.keeps f (hold f hf).1

end

/-- **One step.** Every operation settles a settled window, and all but a
reload, whose objects are new, keep the frame. -/
theorem settled_step {w : World} {op : Op} (hid : refuses.Accepts .selectedFile)
    (h : Settled none w.window w.window) :
    Settled none (w.step ace op refuses).window (w.step ace op refuses).window ∧
      (op ≠ .reload → Frame op w.window (w.step ace op refuses).window) := by
  have hb : Settled none w.begin.window w.begin.window := h
  -- what neither types, saves nor loads keeps every text
  have quiet : ∀ gone, (∀ f, gone = some f → op = .deleteFile f) →
      wp (op.exec ace refuses) (fun _ w' => Settled gone w.window w'.window)
        (fun _ w' => Settled gone w.window w'.window) w.begin →
      Settled none (w.step ace op refuses).window (w.step ace op refuses).window ∧
        (op ≠ .reload → Frame op w.window (w.step ace op refuses).window) := by
    intro gone hgone hq
    have hs : Settled gone w.window (w.step ace op refuses).window :=
      (wp_iff_after (I := fun w' : World => Settled gone w.window w'.window)).1 hq
    exact ⟨hs.self, fun _ => hs.toUnsettled.frame hgone⟩
  cases op with
  | createFile uuid name =>
    refine quiet none nofun ((settled_createFile hid hb).mono (fun _ _ h' => ?_) fun _ _ h' => ?_)
    · exact ⟨h'.toUnsettled.withNew h.below, h'.synced⟩
    · exact ⟨h'.toUnsettled.withNew h.below, h'.synced⟩
  | openFile f => exact quiet none nofun (settled_openFile hid hb.toUnsettled)
  | selectFile f => exact quiet none nofun (settled_selectFile hid hb.toUnsettled)
  | closeFile f => exact quiet none nofun (settled_closeFile hid hb)
  | closeAll => exact quiet none nofun (settled_closeAll hid hb)
  | deleteFile f =>
    refine quiet (some f) (fun g hg => ?_) (settled_deleteFile hid hb.self)
    rw [Option.some.inj hg]
  | renameFile f newName => exact quiet none nofun (settled_renameFile hb)
  | sortedFiles le =>
    refine quiet none nofun ⟨⟨h.honest, fun f hf => h.below f ?_, h.keeps, fun f hf _ => ?_⟩,
      h.synced⟩
    · exact List.mem_mergeSort.1 hf
    · exact List.mem_mergeSort.2 hf
  | saveFile =>
    obtain ⟨hs, hfiles, hf⟩ := wp_iff_after.1 (@saveFile_spec refuses _ hb)
    refine ⟨hs, fun _ => ⟨fun f _ _ => (hf f).2.1, fun f _ hne => ?_,
      fun f hfm _ => ⟨hfiles ▸ hfm, (hf f).1⟩⟩⟩
    exact (hf f).2.2.trans (if_neg fun hsel => hne ⟨rfl, hsel⟩)
  | edit text =>
    obtain ⟨hs, hfiles, hf⟩ := wp_iff_after.1 (@edit_spec _ text hb)
    refine ⟨hs, fun _ => ⟨fun f _ hne => (hf f).2.2 fun hsel => hne ⟨⟨text, rfl⟩, hsel⟩,
      fun f _ _ => (hf f).2.1, fun f hfm _ => ⟨hfiles ▸ hfm, (hf f).1⟩⟩⟩
  | reload =>
    exact ⟨wp_iff_after.1 (settled_reload hid), fun hne => absurd rfl hne⟩

/-- The runs of one window in which every write of the selected id finds
room. -/
def deskWithRoom (ace : Ace) : Machine World (Op × Refusals) :=
  (desk ace fun _ refuses => refuses.Accepts .selectedFile).under
    fun _ e => e.2.Accepts .selectedFile

theorem settled_of_reachable {w : World} (h : (deskWithRoom ace).Reachable w) :
    Settled none w.window w.window := by
  refine h.invariant (I := fun w => Settled none w.window w.window) ?_ ?_
  · rintro _ ⟨storage, refuses, hid, rfl⟩
    exact (settled_step hid settled_blank).1
  · intro w e hw he
    exact (settled_step he.2 hw).1

/-- **No edit is lost and no text leaks.** In every run, from whatever is
stored, in which the selected id can be written, the texts are in order
after every operation and no operation touches a text that is not its
own. The tree may fail to be written at any time. -/
theorem edits_stay_with_their_file {w : World} (h : (deskWithRoom ace).Reachable w) :
    w.window.InOrder ∧ ∀ op (refuses : Refusals), refuses.Accepts .selectedFile →
      op ≠ .reload → Frame op w.window (w.step ace op refuses).window := by
  have hs := settled_of_reachable h
  exact ⟨hs.inOrder, fun op refuses hid hne => (settled_step hid hs).2 hne⟩

/-- Two files, an edit of the first, and a switch back to it. -/
def switchBack (refuses : Refusals) : List (Op × Refusals) :=
  [(.createFile "u1" "A.sol", Refusals.nothing), (.edit "x", Refusals.nothing),
    (.createFile "u2" "B.sol", Refusals.nothing), (.selectFile 0, refuses)]

/-- With room for its writes, the switch ends on the edited text. -/
theorem switchBack_inOrder :
    ((deskWithRoom Ace.brace).run (World.fresh Ace.brace)
      (switchBack Refusals.nothing)).window.InOrder := by
  refine (edits_stay_with_their_file (.run (.start ⟨_, Refusals.nothing, fun _ => rfl, rfl⟩)
    (.under (by decide) ?_))).1
  simp [switchBack, Refusals.Accepts, Refusals.nothing]

/-- **Where the write of the selected id throws, text leaks.** `A.sol` holds
an edit, `B.sol` is empty and shown; switching back to `A.sol` selects it
under the text of `B.sol`. -/
theorem refused_switch_leaks : ¬ ∀ w : World,
    (desk Ace.brace fun storage _ => storage = LocalStorage.empty).Reachable w →
      w.window.InOrder := by
  intro h
  have hw := h _ (.run (.start ⟨_, Refusals.nothing, rfl, rfl⟩)
    (show Machine.Admits _ (World.fresh Ace.brace) (switchBack (Refusals.cutAfter 0)) by decide))
  exact absurd (hw.shown 0 (by decide)) (by decide)

end Hmix
