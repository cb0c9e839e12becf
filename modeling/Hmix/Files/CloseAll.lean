import Hmix.Files.Names
import Hmix.Files.Reloading

/-!
# Closing all files

`closeAll` closes the files that were open when it was called, one after the
other. A selected file that is closed has a neighbour shown in its place, and
the neighbour is among those still to be closed (`Closing`); after the last one
nothing is selected. The change events of a switch recompute a flag of the
neighbour, so the flags have to be right to begin with (`Honest`).
-/

namespace Hmix

open Window

variable {ace : Ace} {refuses : Refusals}

/-- Showing a file changes no object, where the flags are right. -/
theorem Window.Shows.heap_eq {m m' : Window} {f : FileRef} (h : m.Shows f m')
    (hm : m.Honest) : m'.heap = m.heap := by
  funext g
  rcases h.heap g with hg | hg
  · exact hg
  · rw [hg, resave, ← hm g]

/-- A write found no room, and that is what was thrown. -/
def OutOfRoom (refuses : Refusals) (e : Thrown) (_ : World) : Prop :=
  e = .quotaExceeded ∧ ∃ n key, refuses n key = true

/-- **Everything is closed, and nothing else has changed.** -/
structure ClosedAll (w w' : World) : Prop where
  openFiles : w'.window.openFiles = []
  selectedFile : w'.window.selectedFile = none
  selectedFileId : selectedFileId w'.storage = none
  /-- Storage has the files of the list, each of them closed. -/
  tree : ∃ objects, storedTree w'.storage = some objects ∧ objects.Perm w'.window.objects ∧
    ∀ o ∈ objects, o.isOpen = false
  files : w'.window.files = w.window.files
  heap : ∀ f ∈ w.window.files, w'.window.heap f = { w.window.heap f with isOpen := false }

/-! ## Between two closings -/

/-- **What is closed and what is left.** `rest` are those of the files that
were open in `w` which are still to be closed; the selected file is one of
them. -/
structure Closing (w : World) (rest : List FileRef) (w' : World) : Prop where
  suffix : rest <:+ w.window.openFiles
  files : w'.window.files = w.window.files
  heap : ∀ g, w'.window.heap g = if g ∈ w.window.openFiles ∧ g ∉ rest
    then { w.window.heap g with isOpen := false } else w.window.heap g
  selected : ∀ g, w'.window.selectedFile = some g → g ∈ rest
  unselected : w'.window.selectedFile = none →
    rest = [] ∧ selectedFileId w'.storage = none
  tree : rest = [] → ∃ objects, storedTree w'.storage = some objects ∧
    objects.Perm w'.window.objects

namespace Closing

variable {w w' : World} {x : FileRef} {rest : List FileRef}

/-- What is left to close is what is open. -/
theorem mem_openFiles (h : Closing w rest w') {g : FileRef} :
    g ∈ w'.window.openFiles ↔ g ∈ rest := by
  simp only [Window.openFiles, List.mem_filter, h.files, h.heap g]
  constructor
  · rintro ⟨hg, hopen⟩
    by_contra hrest
    split_ifs at hopen with hclosed
    exact hclosed ⟨⟨hg, hopen⟩, hrest⟩
  · intro hg
    obtain ⟨hfiles, hopen⟩ := List.mem_filter.1 (h.suffix.mem hg)
    rw [if_neg fun hclosed => hclosed.2 hg]
    exact ⟨hfiles, hopen⟩

theorem honest (h : Closing w rest w') (hw : w.window.Honest) : w'.window.Honest := by
  intro g
  rw [h.heap g]
  split_ifs
  · exact hw g
  · exact hw g

/-- **Once nothing is left**, all is closed. -/
theorem closedAll (h : Closing w [] w') : ClosedAll w w' := by
  have hopen : w'.window.openFiles = [] :=
    List.eq_nil_iff_forall_not_mem.2 fun g hg => List.not_mem_nil (h.mem_openFiles.1 hg)
  have hnone : w'.window.selectedFile = none :=
    Option.eq_none_iff_forall_ne_some.2 fun g hg => List.not_mem_nil (h.selected g hg)
  have hclosed : ∀ f ∈ w'.window.files, (w'.window.heap f).isOpen = false := fun f hf => by
    simpa using List.filter_eq_nil_iff.1 hopen f hf
  obtain ⟨objects, htree, hperm⟩ := h.tree rfl
  refine ⟨hopen, hnone, (h.unselected hnone).2, ⟨objects, htree, hperm, fun o ho => ?_⟩,
    h.files, fun f hf => ?_⟩
  · obtain ⟨f, hf, rfl⟩ := List.mem_map.1 (hperm.mem_iff.1 ho)
    exact hclosed f hf
  · have hf' := hclosed f (h.files ▸ hf)
    rw [h.heap f] at hf' ⊢
    split_ifs at hf' ⊢
    · rfl
    · rw [← hf']

/-! ## One closing -/

/-- **A selected file is let go of** for one that is left to close, and nothing
is selected where there is none. -/
theorem findFileToSelect_spec (h : Closing w (x :: rest) w') (hnodup : w.window.files.Nodup)
    (hhonest : w.window.Honest) :
    wp (findFileToSelect ace refuses x)
      (fun _ w₁ => w₁.window.files = w'.window.files ∧ w₁.window.heap = w'.window.heap ∧
        (∀ g, w₁.window.selectedFile = some g → g ∈ rest) ∧
        (w₁.window.selectedFile = none → rest = [] ∧ selectedFileId w₁.storage = none))
      (OutOfRoom refuses) w' := by
  have hrest : (x :: rest).Nodup := (hnodup.filter _).sublist h.suffix.sublist
  have hneighbour := neighbour_spec (f := x) ((h.files ▸ hnodup).filter _)
    (h.mem_openFiles.2 List.mem_cons_self)
  have hleft : ∀ g ∈ w'.window.openFiles, g ≠ x → g ∈ rest := fun g hg hne =>
    (List.mem_cons.1 (h.mem_openFiles.1 hg)).resolve_left hne
  refine wp_findFileToSelect (fun hother => ?_) (fun _ hnone => ?_) fun _ g hsome => ?_
  · refine ⟨rfl, rfl, fun g hg => ?_, fun hn => absurd (h.unselected hn).1 (List.cons_ne_nil _ _)⟩
    exact (List.mem_cons.1 (h.selected g hg)).resolve_left fun he => hother (he ▸ hg)
  · -- the last one: every open file is `x`
    have hlast : rest = [] := by
      obtain ⟨-, hall⟩ | ⟨g, hg, -⟩ := hneighbour
      · refine List.eq_nil_iff_forall_not_mem.2 fun g hg => ?_
        obtain rfl := hall g (h.mem_openFiles.2 (List.mem_cons_of_mem _ hg))
        exact (List.nodup_cons.1 hrest).1 hg
      · cases hnone.symm.trans hg
    refine wp_setSelectedFile (fun hr => ⟨rfl, _, _, hr⟩) fun _ => ?_
    exact ⟨rfl, rfl, (fun g hg => by cases hg), fun _ => ⟨hlast, selectedFileId_set_none _⟩⟩
  · obtain ⟨hg, hne⟩ : g ∈ w'.window.openFiles ∧ g ≠ x := by
      obtain ⟨hnone, -⟩ | ⟨g', hg', hmem, hne⟩ := hneighbour
      · cases hsome.symm.trans hnone
      · obtain rfl : g = g' := Option.some.inj (hsome.symm.trans hg')
        exact ⟨hmem, hne⟩
    have hopen : (w'.window.heap g).isOpen = true := (List.mem_filter.1 hg).2
    refine wp_setSelectedFile (fun hr => ⟨rfl, _, _, hr⟩) fun _ => ?_
    rw [wp_selectFile_iff]
    refine ⟨fun _ => ?_, fun hclosed => absurd hopen hclosed⟩
    refine wp_showFile (fun hr => ⟨rfl, _, _, hr⟩) fun _ m hm => ?_
    refine ⟨hm.files, hm.heap_eq (h.honest hhonest), fun g' hg' => ?_, fun hn => ?_⟩
    · obtain rfl : g = g' := Option.some.inj (hm.selectedFile.symm.trans hg')
      exact hleft g hg hne
    · cases hm.selectedFile.symm.trans hn

/-- **The next file is closed.** -/
theorem closeFile_spec (h : Closing w (x :: rest) w') (hnodup : w.window.files.Nodup)
    (hhonest : w.window.Honest) :
    wp (closeFile ace refuses x) (fun _ => Closing w rest) (OutOfRoom refuses) w' := by
  rw [wp_closeFile_iff]
  refine (h.findFileToSelect_spec hnodup hhonest).imp fun _ w₁ h₁ => ?_
  obtain ⟨hfiles, hheap, hselected, hunselected⟩ := h₁
  have hx : x ∉ rest := (List.nodup_cons.1 ((hnodup.filter _).sublist h.suffix.sublist)).1
  refine wp_saveFileTree (fun hr => ⟨rfl, _, _, hr⟩) fun _ => ?_
  refine ⟨(List.suffix_cons x rest).trans h.suffix, hfiles.trans h.files, fun g => ?_, hselected,
    fun hn => ?_, fun _ => ⟨_, storedTree_set_files _ _, .refl _⟩⟩
  · by_cases hg : g = x
    · subst hg
      have hopen : g ∈ w.window.openFiles := h.suffix.mem List.mem_cons_self
      rw [if_pos ⟨hopen, hx⟩]
      simp [Window.closed, hheap, h.heap g]
    · have hmem : g ∈ x :: rest ↔ g ∈ rest := by simp [hg]
      simp only [Window.closed, assign_heap_of_ne _ _ _ hg, hheap, h.heap g, hmem]
  · obtain ⟨hrest, hid⟩ := hunselected hn
    exact ⟨hrest, by simpa using hid⟩

end Closing

/-! ## All of them -/

/-- **Closing all files closes them all**, or a write found no room. -/
def ClosesAll (ace : Ace) (refuses : Refusals) (w : World) : Prop :=
  wp (closeAll ace refuses) (fun _ => ClosedAll w) (OutOfRoom refuses) w.begin

theorem closeAll_spec {w : World} (hnodup : w.window.files.Nodup) (hhonest : w.window.Honest)
    (hselected : ∀ f, w.window.selectedFile = some f → f ∈ w.window.openFiles)
    (hunselected : w.window.selectedFile = none →
      w.window.openFiles = [] ∧ selectedFileId w.storage = none)
    (htree : w.window.openFiles = [] → ∃ objects, storedTree w.storage = some objects ∧
      objects.Perm w.window.objects) : ClosesAll ace refuses w := by
  have hbegin : Closing w w.window.openFiles w.begin := by
    refine ⟨List.suffix_refl _, rfl, fun g => ?_, hselected, hunselected, htree⟩
    rw [if_neg fun hclosed => hclosed.2 hclosed.1]
    rfl
  simp only [ClosesAll, closeAll, wp_bind, wp_get]
  refine (wp_forM (I := Closing w) (fun x rest w' h' => ?_) _ _ hbegin).imp fun _ _ h => h.closedAll
  exact h'.closeFile_spec hnodup hhonest

/-- **`closeAll` closes everything and changes nothing else.** In a run in which
every write of the selected id finds room, wherever an open file is selected;
and in a run in which every write does, everywhere. -/
theorem closeAll_closes_all (ace : Ace) (refuses : Refusals) :
    (∀ w, (deskWithRoom ace).Reachable w → ∀ f ∈ w.window.openFiles,
      w.window.selectedFile = some f → ClosesAll ace refuses w) ∧
    ∀ w, (quietDesk ace).Reachable w → ClosesAll ace refuses w := by
  refine ⟨fun w h f hf hsel => ?_, fun w h => ?_⟩
  · have hdistinct : w.window.Distinct :=
      distinct_of_reachable (h.mono (fun _ hs => hs) fun _ _ he => ⟨he.1, rfl⟩)
    refine closeAll_spec hdistinct.nodup (settled_of_reachable h).honest (fun g hg => ?_)
      (fun hn => ?_) fun hopen => ?_
    · obtain rfl : f = g := Option.some.inj (hsel.symm.trans hg)
      exact hf
    · cases hsel.symm.trans hn
    · exact absurd (hopen ▸ hf) List.not_mem_nil
  · have hs := sound_of_reachable h
    have hstored := hs.consistent.stored
    obtain ⟨objects, htree, -, hperm⟩ := hs.backed.tree
    refine closeAll_spec hs.consistent.listed.nodup hs.settled.honest
      (fun g hg => List.mem_filter.2 (hs.consistent.selected g hg)) (fun hn => ?_)
      fun _ => ⟨objects, htree, hperm⟩
    refine ⟨List.filter_eq_nil_iff.2 fun g hg => ?_, by rw [hstored, hn]; rfl⟩
    simp [hs.consistent.closed trivial hn g hg]

/-- `A.sol` and `B.sol` are open, with an edit of `B.sol`. Switching back to
`B.sol` is given what it is refused; then what is shown is saved, and `A.sol`
selected. -/
def saveAfterSwitch (refuses : Refusals) : List (Op × Refusals) :=
  [(.createFile "u1" "A.sol", Refusals.nothing), (.createFile "u2" "B.sol", Refusals.nothing),
    (.edit "y", Refusals.nothing), (.selectFile 0, Refusals.nothing), (.selectFile 1, refuses),
    (.saveFile, Refusals.nothing), (.selectFile 0, Refusals.nothing)]

/-- The state it leads to from an empty storage. -/
abbrev savedAfterSwitch (refuses : Refusals) : World :=
  (desk Ace.brace fun storage _ => storage = LocalStorage.empty).run (World.fresh Ace.brace)
    (saveAfterSwitch refuses)

/-- With room for every write, all is closed. -/
theorem savedAfterSwitch_closesAll :
    ClosesAll Ace.brace Refusals.nothing (savedAfterSwitch Refusals.nothing) := by
  have hadmits : (deskWithRoom Ace.brace).Admits (World.fresh Ace.brace)
      (saveAfterSwitch Refusals.nothing) := by
    refine .under (by decide) ?_
    simp [saveAfterSwitch, Refusals.Accepts, Refusals.nothing]
  have hstart : (deskWithRoom Ace.brace).Reachable (World.fresh Ace.brace) :=
    .start ⟨_, Refusals.nothing, fun _ => rfl, rfl⟩
  exact (closeAll_closes_all Ace.brace Refusals.nothing).1 _ (hstart.run hadmits) 0 (by decide)
    (by decide)

/-- **After a refused switch closing all files changes a flag.** `B.sol` was
selected under the text of `A.sol`, and saved with it; shown again, it is
unsaved. -/
theorem closeAll_after_refused_switch : ¬ ∀ w : World,
    (desk Ace.brace fun storage _ => storage = LocalStorage.empty).Reachable w →
      ∀ f ∈ w.window.openFiles, w.window.selectedFile = some f →
        ClosesAll Ace.brace Refusals.nothing w := by
  intro h
  have hstart : (desk Ace.brace fun storage _ => storage = LocalStorage.empty).Reachable
      (World.fresh Ace.brace) := .start ⟨_, Refusals.nothing, rfl, rfl⟩
  have hadmits : (desk Ace.brace fun storage _ => storage = LocalStorage.empty).Admits
      (World.fresh Ace.brace) (saveAfterSwitch (Refusals.cutAfter 0)) := by decide
  have hclosed := h (savedAfterSwitch (Refusals.cutAfter 0))
    (hstart.run hadmits) 0 (by decide) (by decide)
  have hflag : ((after (closeAll Ace.brace Refusals.nothing)
      (savedAfterSwitch (Refusals.cutAfter 0)).begin).window.heap 1).isSaved = true := by
    refine hclosed.after (I := fun w' => (w'.window.heap 1).isSaved = true) (fun _ w' hw' => ?_)
      fun _ _ hfull => ?_
    · rw [hw'.heap 1 (by decide)]
      decide
    · obtain ⟨-, n, key, hr⟩ := hfull
      cases hr
  exact absurd hflag (by decide)

end Hmix
