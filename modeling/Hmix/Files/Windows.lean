import Hmix.Files.Reloading
import Hmix.Model.Windows

/-!
# Two windows keep each other's updates

A window that has not been overtaken is a window by itself: its memory is
sound over the shared storage, and what it writes is what the ledger says.
One that has been overtaken may type and load, and must not write: it would
write the tree it loaded.
-/

namespace Hmix

open Window

variable {ace : Ace}

/-- **Storage has every update**: every file created and not deleted, with
the content of its latest save. -/
def Ledger.Kept (ledger : Ledger) (storage : LocalStorage) : Prop :=
  ∃ objects, storedTree storage = some objects ∧
    ∀ id ∈ ledger.created, id ∉ ledger.deleted →
      (∃ o ∈ objects, o.id = id) ∧ ∀ o ∈ objects, o.id = id → o.content = ledger.latest id

/-- **What two windows owe their user.** -/
structure Pair.KeepsUpdates (p : Pair) : Prop where
  kept : p.ledger.Kept p.storage
  selected : ∀ id, selectedFileId p.storage = some id →
    ∃ o ∈ (storedTree p.storage).getD [], o.id = id

section

variable {w w' : World} {ledger : Ledger} {op : Op}

/-! ## What soundness depends on -/

theorem Sound.congr (h : Sound w) (hw : w'.window = w.window)
    (htree : storedTree w'.storage = storedTree w.storage)
    (hsel : selectedFileId w'.storage = selectedFileId w.storage) : Sound w' := by
  obtain ⟨hchosen, hsettled, hbacked⟩ := h
  refine ⟨⟨⟨hw ▸ hchosen.listed, ?_⟩, hw ▸ hchosen.selected, hw ▸ hchosen.closed, ?_⟩,
    hw ▸ hsettled, hw ▸ hbacked.listed, ?_⟩
  · rw [htree, hsel, hw]; exact hchosen.tree
  · rw [hsel, hw]; exact hchosen.stored
  · rw [htree, hw]; exact hbacked.tree

theorem AtRest.congr {storage storage' : LocalStorage} (h : AtRest storage)
    (htree : storedTree storage' = storedTree storage)
    (hsel : selectedFileId storage' = selectedFileId storage) : AtRest storage' := by
  rw [AtRest, htree, hsel]
  exact h

/-- What does not write leaves storage as it reads. -/
theorem quiet_storage (h : AtRest w.storage) (hop : op.writes = false) :
    storedTree (w.step ace op Refusals.nothing).storage = storedTree w.storage ∧
      selectedFileId (w.step ace op Refusals.nothing).storage = selectedFileId w.storage := by
  cases op with
  | edit text =>
    refine (wp_iff_after (I := fun w' : World =>
      storedTree w'.storage = storedTree w.storage ∧
        selectedFileId w'.storage = selectedFileId w.storage)).1 ?_
    rcases hf : w.begin.window.selectedFile with - | f
    · exact (wp_change_none hf).2 ⟨rfl, rfl⟩
    · exact (wp_change hf).2 ⟨rfl, rfl⟩
  | sortedFiles le => exact ⟨rfl, rfl⟩
  | reload =>
    obtain ⟨objects, htree, -⟩ := id h
    exact (@reload_atRest ace w.begin objects h htree).after
      (I := fun w' => storedTree w'.storage = storedTree w.storage ∧
        selectedFileId w'.storage = selectedFileId w.storage)
      (fun _ _ h' => h'.2.2.2) fun _ _ h' => h'.elim
  | _ => exact absurd hop (by simp [Op.writes])

/-! ## What a window writes is what the ledger says -/

theorem Sound.file_of_kept (h : Sound w) (hkept : ledger.Kept w.storage) {id : String}
    (hc : id ∈ ledger.created) (hd : id ∉ ledger.deleted) :
    ∃ f ∈ w.window.files, (w.window.heap f).id = id ∧
      (w.window.heap f).content = ledger.latest id := by
  obtain ⟨objects, htree, hentries⟩ := hkept
  obtain ⟨objects', htree', -, hperm⟩ := h.backed.tree
  obtain rfl : objects' = objects := Option.some.inj (htree'.symm.trans htree)
  obtain ⟨⟨o, ho, hid⟩, hlatest⟩ := hentries id hc hd
  obtain ⟨f, hf, rfl⟩ := List.mem_map.1 (hperm.mem_iff.1 ho)
  exact ⟨f, hf, hid, hlatest _ ho hid⟩

theorem Sound.kept_of_files (h : Sound w) (hfiles : ∀ id ∈ ledger.created, id ∉ ledger.deleted →
    ∃ f ∈ w.window.files, (w.window.heap f).id = id ∧
      (w.window.heap f).content = ledger.latest id) : ledger.Kept w.storage := by
  obtain ⟨objects, htree, hwn, hperm⟩ := h.backed.tree
  refine ⟨objects, htree, fun id hc hd => ?_⟩
  obtain ⟨f, hf, hid, hlatest⟩ := hfiles id hc hd
  have hmem : (w.window.heap f).toObject ∈ objects := hperm.mem_iff.2 (mem_objects_of_mem hf)
  refine ⟨⟨_, hmem, hid⟩, fun o ho hoid => ?_⟩
  rw [hwn.eq_of_id ho hmem (hoid.trans hid.symm)]
  exact hlatest

/-- The new file is in the list, and empty. -/
theorem createFile_adds {uuid name : String} (h : Sound w) :
    ∃ f ∈ (w.step ace (.createFile uuid name) Refusals.nothing).window.files,
      ((w.step ace (.createFile uuid name) Refusals.nothing).window.heap f).id = uuid ∧
      ((w.step ace (.createFile uuid name) Refusals.nothing).window.heap f).content = "" := by
  have hs := wp_iff_after.1
    (@settled_createFile ace Refusals.nothing w.begin (nothing_accepts _) uuid name h.settled)
  have hnew : w.window.next ∈ (w.window.withNew uuid name).files := mem_withNew_files.2 (.inr rfl)
  have hkeeps := hs.keeps _ hnew
  exact ⟨w.window.next, hs.remain _ hnew nofun,
    hkeeps.id.trans (congrArg File.id withNew_heap_next),
    hkeeps.content.trans (congrArg File.content withNew_heap_next)⟩

/-- The saved file gets the text, and no other. -/
theorem saveFile_content (h : Sound w) (f : FileRef) :
    ((w.step ace .saveFile Refusals.nothing).window.heap f).content =
      if w.window.selectedFile = some f then w.window.text else (w.window.heap f).content :=
  ((wp_iff_after.1 (@saveFile_spec Refusals.nothing w.begin h.settled)).2.2 f).2.2

/-- **The ledger is kept.** An operation of a sound window leaves in storage
what it enters in the ledger. -/
theorem kept_step (h : Sound w) (hkept : ledger.Kept w.storage) (ho : op.Offered w)
    (hfresh : ∀ uuid name, op = .createFile uuid name → uuid ∉ ledger.created)
    (hload : op ≠ .reload) :
    (ledger.record w op).Kept (w.step ace op Refusals.nothing).storage := by
  have hs : Sound (w.step ace op Refusals.nothing) := sound_step h ho
  have hframe : Frame op w.window (w.step ace op Refusals.nothing).window :=
    (settled_step (nothing_accepts _) h.settled).2 hload
  refine hs.kept_of_files fun id hc hd => ?_
  cases op with
  | createFile uuid name =>
    by_cases hid : id = uuid
    · subst hid
      obtain ⟨f, hf, hfid, hcontent⟩ := @createFile_adds ace w id name h
      exact ⟨f, hf, hfid, by simpa [Ledger.record] using hcontent⟩
    · obtain ⟨f, hf, hfid, hcontent⟩ := h.file_of_kept hkept (List.mem_of_ne_of_mem hid hc) hd
      obtain ⟨hf', hfid'⟩ := hframe.stays f hf nofun
      refine ⟨f, hf', hfid'.trans hfid, ?_⟩
      rw [hframe.content f hf (by simp), hcontent]
      simp [Ledger.record, hid]
  | deleteFile g =>
    obtain ⟨hne, hd'⟩ := not_or.1 (mt List.mem_cons.2 hd)
    obtain ⟨f, hf, hfid, hcontent⟩ := h.file_of_kept hkept hc hd'
    obtain ⟨hf', hfid'⟩ := hframe.stays f hf (by rintro ⟨⟩; exact hne hfid.symm)
    exact ⟨f, hf', hfid'.trans hfid, (hframe.content f hf (by simp)).trans hcontent⟩
  | saveFile =>
    rcases hsel : w.window.selectedFile with - | g
    · simp only [Ledger.record, hsel] at hc hd ⊢
      obtain ⟨f, hf, hfid, hcontent⟩ := h.file_of_kept hkept hc hd
      obtain ⟨hf', hfid'⟩ := hframe.stays f hf nofun
      exact ⟨f, hf', hfid'.trans hfid, (hframe.content f hf (by simp [hsel])).trans hcontent⟩
    · simp only [Ledger.record, hsel] at hc hd ⊢
      obtain ⟨f, hf, hfid, hcontent⟩ := h.file_of_kept hkept hc hd
      obtain ⟨hf', hfid'⟩ := hframe.stays f hf nofun
      refine ⟨f, hf', hfid'.trans hfid, (saveFile_content h f).trans ?_⟩
      by_cases hfg : g = f
      · subst hfg
        rw [if_pos hsel, ← hfid, Function.update_self]
      · -- another file is saved, and no two have the same id
        have hgid : id ≠ (w.window.heap g).id := by
          rintro rfl
          have hg := (h.consistent.selected g hsel).1
          exact hfg (h.consistent.listed.distinct f hf g hg hfid).symm
        rw [if_neg (by simpa [hsel] using hfg), Function.update_of_ne hgid]
        exact hcontent
  | reload => exact absurd rfl hload
  | _ =>
    obtain ⟨f, hf, hfid, hcontent⟩ := h.file_of_kept hkept hc hd
    obtain ⟨hf', hfid'⟩ := hframe.stays f hf nofun
    exact ⟨f, hf', hfid'.trans hfid, (hframe.content f hf (by simp)).trans hcontent⟩

end

/-! ## The pair -/

/-- **What two windows keep.** -/
structure Tracked (p : Pair) : Prop where
  rest : AtRest p.storage
  kept : p.ledger.Kept p.storage
  sound : ∀ side, p.overtaken side = false → Sound (p.world side)

theorem AtRest.kept_ofTree {storage : LocalStorage} (h : AtRest storage) :
    (Ledger.ofTree ((storedTree storage).getD [])).Kept storage := by
  obtain ⟨objects, htree, hwn, -⟩ := h
  rw [htree]
  refine ⟨objects, htree, fun id hc _ => ?_⟩
  obtain ⟨o, ho, rfl⟩ := List.mem_map.1 hc
  refine ⟨⟨o, ho, rfl⟩, fun o' ho' hid => ?_⟩
  obtain ⟨o₁, hfind⟩ : ∃ o₁, objects.find? (fun x => x.id == o.id) = some o₁ := by
    refine Option.isSome_iff_exists.1 (List.find?_isSome.2 ⟨o, ho, ?_⟩)
    simp
  have hid₁ : o₁.id = o.id := by simpa using List.find?_some hfind
  have heq : o' = o₁ := hwn.eq_of_id ho' (List.mem_of_find?_eq_some hfind) (hid.trans hid₁.symm)
  simp [Ledger.ofTree, hfind, heq]

theorem tracked_opened {storage : LocalStorage} (h : AtRest storage) :
    Tracked (Pair.opened ace storage) := by
  set left := (World.opening storage).step ace .reload Refusals.nothing with hleft
  set right := (World.opening left.storage).step ace .reload Refusals.nothing with hright
  have hl := @quiet_storage ace (World.opening storage) .reload h rfl
  have hrest : AtRest left.storage := h.congr hl.1 hl.2
  have hr := @quiet_storage ace (World.opening left.storage) .reload hrest rfl
  have hsl : Sound left := sound_reload (w := World.opening storage) h.loadable h.tidy
  have hsr : Sound right :=
    sound_reload (w := World.opening left.storage) hrest.loadable hrest.tidy
  refine ⟨hrest.congr hr.1 hr.2, ?_, fun side _ => ?_⟩
  · obtain ⟨objects, htree, hentries⟩ := h.kept_ofTree
    exact ⟨objects, (hr.1.trans hl.1).trans htree, hentries⟩
  · cases side with
    | left => exact hsl.congr rfl hr.1 hr.2
    | right => exact hsr.congr rfl rfl rfl

/-- **One step of either window**, where a window that was overtaken does
not write. -/
theorem tracked_step {p : Pair} {side : Side} {op : Op} (h : Tracked p) (ho : p.Offers side op)
    (hcurrent : op.writes = true → p.overtaken side = false) :
    Tracked (p.step ace side op) := by
  set w := p.world side with hw
  have hself : ∀ {w' : World}, w' = w.step ace op Refusals.nothing → Sound w' →
      Sound ((p.step ace side op).world side) := by
    rintro _ rfl hs
    refine hs.congr ?_ rfl rfl
    simp [Pair.world, Pair.step, hw]
  cases hwrites : op.writes with
  | true =>
    have hs : Sound w := h.sound side (hcurrent hwrites)
    have hs' : Sound (w.step ace op Refusals.nothing) := sound_step hs ho.1
    have hload : op ≠ .reload := by rintro rfl; cases hwrites
    -- from now on the other window is overtaken
    refine ⟨hs'.atRest, kept_step hs h.kept ho.1 ho.2 hload, fun s hover => ?_⟩
    obtain rfl : s = side := by
      by_contra hne
      simp [Pair.step, hne, hwrites] at hover
    exact hself rfl hs'
  | false =>
    obtain ⟨htree, hsel⟩ := @quiet_storage ace w op h.rest hwrites
    have hledger : p.ledger.record w op = p.ledger := by
      cases op <;> first | rfl | cases hwrites
    refine ⟨h.rest.congr htree hsel, ?_, fun s hover => ?_⟩
    · obtain ⟨objects, htree', hentries⟩ := h.kept
      exact ⟨objects, htree.trans htree', by simpa only [Pair.step, ← hw, hledger] using hentries⟩
    · by_cases hside : s = side
      · subst hside
        by_cases hload : op = .reload
        · subst hload
          exact hself rfl (sound_reload h.rest.loadable h.rest.tidy)
        · have hcur : p.overtaken s = false := by
            have hloads : op.loads = false := by cases op <;> simp_all [Op.loads]
            simpa [Pair.step, hloads] using hover
          exact hself rfl (sound_step (h.sound s hcur) ho.1)
      · -- the other window finds storage as it was
        have hcur : p.overtaken s = false := by
          simpa [Pair.step, hside, hwrites] using hover
        refine (h.sound s hcur).congr ?_ htree hsel
        simp [Pair.world, Pair.step, hside]

/-- **The windows in turn**: one writes only while the other has not written
since it last loaded. -/
def windowsInTurn (ace : Ace) : Machine Pair (Side × Op) :=
  (twoWindows ace AtRest).under fun p e => e.2.writes = true → p.overtaken e.1 = false

/-- **Two windows keep each other's updates**, in every interleaving of the
windows in turn. -/
theorem windows_keep_updates {p : Pair} (h : (windowsInTurn ace).Reachable p) :
    p.KeepsUpdates := by
  have ht : Tracked p := by
    refine h.invariant (I := Tracked) ?_ fun p e hp he => tracked_step hp he.1 he.2
    rintro _ ⟨storage, hrest, rfl⟩
    exact tracked_opened hrest
  obtain ⟨objects, htree, -, hsel, -⟩ := ht.rest
  refine ⟨ht.kept, fun id hid => ?_⟩
  obtain ⟨o, ho, hoid, -⟩ := hsel id hid
  exact ⟨o, by rw [htree]; exact ho, hoid⟩

instance (p : Pair) (side : Side) (op : Op) : Decidable (p.Offers side op) :=
  match op with
  | .createFile uuid _ => decidable_of_iff
      (Op.FreshId (p.world side) uuid ∧ uuid ∉ p.ledger.created)
      ⟨fun h => ⟨h.1, by rintro _ _ ⟨⟩; exact h.2⟩, fun h => ⟨h.1, h.2 _ _ rfl⟩⟩
  | .openFile _ | .selectFile _ | .closeFile _ | .closeAll | .deleteFile _ | .renameFile _ _
  | .saveFile | .edit _ | .sortedFiles _ | .reload =>
    decidable_of_iff (Op.Offered _ (p.world side)) ⟨fun h => ⟨h, nofun⟩, And.left⟩

instance (ace : Ace) (opens : LocalStorage → Prop) (p : Pair) (e : Side × Op) :
    Decidable ((twoWindows ace opens).enabled p e) :=
  inferInstanceAs (Decidable (p.Offers e.1 e.2))

instance (ace : Ace) (p : Pair) (e : Side × Op) : Decidable ((windowsInTurn ace).enabled p e) :=
  inferInstanceAs (Decidable (p.Offers e.1 e.2 ∧ (_ → _)))

theorem atRest_empty : AtRest LocalStorage.empty :=
  ⟨[], rfl, ⟨List.nodup_nil, nofun⟩, nofun, fun _ => nofun⟩

/-- The left window creates a file, the right one loads it and saves it. -/
def takingTurns : List (Side × Op) :=
  [(.left, .createFile "u1" "A.sol"), (.right, .reload), (.right, .edit "x"), (.right, .saveFile),
    (.left, .reload), (.left, .createFile "u2" "B.sol")]

theorem takingTurns_keeps : ((windowsInTurn Ace.brace).run
    (Pair.opened Ace.brace LocalStorage.empty) takingTurns).KeepsUpdates :=
  windows_keep_updates (.run (.start ⟨_, atRest_empty, rfl⟩) (by decide))

/-- **Two windows that create a file each**: the second one's tree is
written over the first one's file. -/
theorem overtaken_window_loses : ¬ ∀ p : Pair,
    (twoWindows Ace.brace fun storage => storage = LocalStorage.empty).Reachable p →
      p.KeepsUpdates := by
  intro h
  have hp := h _ (.run (.start ⟨_, rfl, rfl⟩) (show Machine.Admits _
    (Pair.opened Ace.brace LocalStorage.empty)
    [(.left, .createFile "u1" "A.sol"), (.right, .createFile "u2" "B.sol")] by decide))
  obtain ⟨objects, htree, hentries⟩ := hp.kept
  obtain ⟨⟨o, ho, hid⟩, -⟩ := hentries "u1" (by decide) (by decide)
  have hobjects : objects = [⟨"u2", "B.sol", "", true⟩] := Option.some.inj (htree.symm.trans rfl)
  rw [hobjects, List.mem_singleton] at ho
  exact absurd (ho ▸ hid) (by decide)

end Hmix
