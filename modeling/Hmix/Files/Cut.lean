import Hmix.Files.Reloading

/-!
# Operations that are cut off

An operation writes the selected id and the tree one after the other, and
may be cut off before any of its writes, by a refusal or by the end of the
page. What is left in storage is what the next page starts from. Closing
and deleting write the id of a file that stays before the tree without the
other, so every prefix can be loaded. Creating writes an id the stored
tree does not have yet.
-/

namespace Hmix

open Window

variable {ace : Ace} {refuses : Refusals}

/-- **A turn of the page.** Cut off by a refusal the window may go on, or
the page may be gone; it is then opened again, and what that rewrites fits
where it was. -/
inductive Turn where
  | run (op : Op) (refuses : Refusals)
  | die (op : Op) (refuses : Refusals)

/-- The operation of a turn. -/
def Turn.op : Turn → Op
  | run op _ | die op _ => op

/-- **A window that may die.** -/
def mortalDesk (ace : Ace) : Machine World Turn where
  start := fun w => ∃ storage, Loadable storage ∧
    w = (World.opening storage).step ace .reload Refusals.nothing
  enabled := fun w turn => turn.op.Offered w
  step := fun w turn =>
    match turn with
    | .run op refuses => w.step ace op refuses
    | .die op refuses =>
      (World.opening (w.step ace op refuses).storage).step ace .reload Refusals.nothing

instance (ace : Ace) (w : World) (turn : Turn) : Decidable ((mortalDesk ace).enabled w turn) :=
  inferInstanceAs (Decidable (turn.op.Offered w))

/-- **The turns that keep storage loadable.** A new file's id is not stored
without the file, and a window that was refused the selected id does not go
on. -/
def Turn.Orderly : Turn → Prop
  | run op refuses => op.Whole refuses ∧ refuses.Accepts .selectedFile
  | die op refuses => op.Whole refuses

/-- **What is left can be loaded**: the stored id is absent or names a
stored file, and the start-up of a new page completes. -/
structure CanBeLoaded (ace : Ace) (storage : LocalStorage) : Prop where
  named : ∀ id, selectedFileId storage = some id →
    ∃ o ∈ (storedTree storage).getD [], o.id = id
  starts : ∃ w', reload ace Refusals.nothing (World.opening storage) = .ok ⟨⟩ w' ∧
    w'.window.shortcuts = true ∧ w'.window.saveCheck = true

theorem Loadable.canBeLoaded {storage : LocalStorage} (h : Loadable storage) :
    CanBeLoaded ace storage where
  named := by
    obtain ⟨objects, htree, -, hsel⟩ := h
    rw [htree]
    exact hsel
  starts := by
    have hload := @chosen_reload ace Refusals.nothing False (World.opening storage) h nofun
    have hreturns : wp (reload ace Refusals.nothing) (fun _ w' => w'.window.shortcuts = true ∧
        w'.window.saveCheck = true) (fun _ _ => False) (World.opening storage) :=
      hload.mono (fun _ _ h' => h'.2) fun _ _ h' => by
        obtain ⟨n, key, hr⟩ := h'.refused
        exact Bool.false_ne_true hr
    obtain ⟨_, w', hw', hdone⟩ := hreturns.returns
    exact ⟨w', hw', hdone⟩

theorem chosen_of_orderly {w : World}
    (h : ((mortalDesk ace).under fun _ turn => turn.Orderly).Reachable w) : Chosen False w := by
  refine h.invariant (I := Chosen False) ?_ ?_
  · rintro _ ⟨storage, hload, rfl⟩
    exact chosen_opening hload nofun (nothing_accepts _)
  · rintro w (⟨op, refuses⟩ | ⟨op, refuses⟩) hw ⟨ho, horderly⟩
    -- the window goes on, or a new page is opened over what is left
    · exact (chosen_step hw ho horderly.1 nofun).2 horderly.2
    · exact chosen_opening (chosen_step hw ho horderly nofun).1 nofun (nothing_accepts _)

/-- **A new file that is cut off between its two writes** leaves its id
without the file. -/
theorem torn_createFile {w : World} {uuid name : String} (ho : Op.FreshId w uuid)
    (hid : refuses 0 .selectedFile = false) (htree : refuses 1 .files = true) :
    ¬ CanBeLoaded ace (w.step ace (.createFile uuid name) refuses).storage := by
  obtain ⟨hne, -, hfresh⟩ := ho
  have hstorage : (w.step ace (.createFile uuid name) refuses).storage =
      w.storage.setItem .selectedFile (Json.stringify (some (.str uuid))) := by
    refine wp.after (m := Op.exec ace refuses (.createFile uuid name)) (s := w.begin)
      (Q := fun _ w' => w'.storage = _) (E := fun _ w' => w'.storage = _) ?_ (fun _ _ h => h)
      fun _ _ h => h
    simp only [Op.exec, wp_createFile_iff]
    -- the id is accepted and the tree refused, which leaves one case
    refine wp_openFile (fun hr => absurd hr (by simp [World.begin, hid])) (fun _ _ _ _ => ?_)
      fun _ hr => absurd hr (by simp [World.begin, htree])
    simp [selectionText, opened, World.begin, File.new]
  intro h
  rw [hstorage] at h
  obtain ⟨o, ho, hid⟩ := h.named uuid (selectedFileId_set_some _ hne)
  rw [storedTree_set_selectedFile] at ho
  exact hfresh o ho hid

/-- **Storage stays loadable**, in every run of orderly turns; and after any
operation in such a run, cut off anywhere, it can be loaded unless a new
file was cut off between its two writes. -/
theorem cut_storage_can_be_loaded {w : World}
    (h : ((mortalDesk ace).under fun _ turn => turn.Orderly).Reachable w) :
    CanBeLoaded ace w.storage ∧ ∀ (op : Op) (refuses : Refusals), op.Offered w →
      (CanBeLoaded ace (w.step ace op refuses).storage ↔ op.Whole refuses) := by
  have hc := chosen_of_orderly h
  refine ⟨hc.loadable.canBeLoaded, fun op refuses ho => ⟨fun hload => ?_, fun hwhole => ?_⟩⟩
  · cases op with
    | createFile uuid name =>
      intro hid
      by_contra hr
      exact torn_createFile ho hid (Bool.not_eq_false _ ▸ hr) hload
    | _ => trivial
  · exact (chosen_step hc ho hwhole nofun).1.canBeLoaded

/-- A file that is closed, cut off before the tree is written, and a page
that dies over it. -/
def closedHalfway : List Turn :=
  [.run (.createFile "u1" "A.sol") Refusals.nothing, .die (.closeFile 0) (Refusals.cutAfter 1)]

theorem closedHalfway_can_be_loaded :
    CanBeLoaded Ace.brace ((mortalDesk Ace.brace).run (World.fresh Ace.brace)
      closedHalfway).storage := by
  have hadmits : ((mortalDesk Ace.brace).under fun _ turn => turn.Orderly).Admits
      (World.fresh Ace.brace) closedHalfway :=
    .under (by decide) (by simp [closedHalfway, Turn.Orderly, Op.Whole, nothing_accepts,
      Refusals.nothing])
  exact (cut_storage_can_be_loaded (.run (.start ⟨_, loadable_empty, rfl⟩) hadmits)).1

/-- **The first file, cut off after its id.** No later page can be
started. -/
theorem cut_createFile_cannot_be_loaded : ¬ ∀ w : World, (mortalDesk Ace.brace).Reachable w →
    ∀ (op : Op) (refuses : Refusals), op.Offered w →
      CanBeLoaded Ace.brace (w.step Ace.brace op refuses).storage := by
  intro h
  have hload := h (World.fresh Ace.brace) (.start ⟨_, loadable_empty, rfl⟩)
    (.createFile "u1" "A.sol") (Refusals.cutAfter 1) (by decide)
  exact absurd (hload.named "u1" (by decide)) (by decide)

end Hmix
