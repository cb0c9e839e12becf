import Hmix.Files.Named
import Hmix.Model.FileTab
import Mathlib.Algebra.GroupWithZero.Nat

/-!
# The file tab on the file service

What the tab does to the files are operations the service is offered, so that a run of
the tab is a run of the service; and every name it gives is trimmed and not empty, so that
no other is ever listed or stored.

Each command makes one file, as long as there is room. A finish that is refused leaves the file
in the list and the tab as it was, and every click after it makes another.
-/

namespace Hmix

open Window

variable {ace : Ace} {refuses : Refusals}

/-! ## What the tab does -/

namespace FileTab

/-- **A name as the tab gives it.** -/
structure Proper (name : String) : Prop where
  nonempty : name ≠ ""
  trimmed : trim name = name

theorem trim_trim (text : String) : trim (trim text) = trim text := by
  set kept := text.toList.dropWhile whiteSpace with hkept
  have htrimmed : kept.rdropWhile whiteSpace <+: kept := List.rdropWhile_prefix _ _
  have hfront : (kept.rdropWhile whiteSpace).dropWhile whiteSpace = kept.rdropWhile whiteSpace := by
    refine List.dropWhile_eq_self_iff.2 fun hlength => ?_
    -- what is first is first in what was cut in front
    have hfirst := List.dropWhile_eq_self_iff.1 (List.dropWhile_idempotent whiteSpace text.toList)
      (lt_of_lt_of_le hlength htrimmed.length_le)
    rw [List.IsPrefix.getElem htrimmed hlength]
    exact hfirst
  rw [trim, trim, String.toList_ofList, ← hkept, hfront, List.rdropWhile_idempotent]

theorem proper_trim {text : String} (h : trim text ≠ "") : Proper (trim text) :=
  ⟨h, trim_trim text⟩

variable {le : String → String → Bool} {opens : LocalStorage → Refusals → Prop} {t : FileTab}
  {uuid : String}

/-- **What is edited**: the operation a finish asks the file service for. -/
inductive Edits (t : FileTab) (uuid : String) : Op → Prop
  | create {text : String} : t.isCreatingNewFile = true → t.newFileText = some text →
      Proper (trim text) → Edits t uuid (.createFile uuid (trim text))
  | rename {file : FileRef} {text : String} : t.isCreatingNewFile = false →
      t.fileToBeRenamed = some file → t.renameText = some (file, text) →
      Proper (trim text) → Edits t uuid (.renameFile file (trim text))

/-- What a listener leaves: something is renamed if the flag says so, and a menu's file is
listed. -/
structure Coherent (t : FileTab) : Prop where
  renamed : t.fileToBeRenamed.isSome = t.isRenamingFile
  menu : ∀ file ∈ t.menuFile, file ∈ t.files.window.files

/-- **A tab between two listeners**: its inputs are those of what is edited, and what is
renamed is listed. -/
structure Rendered (t : FileTab) : Prop extends Coherent t where
  newFileText : t.newFileText.isSome = t.isCreatingNewFile
  renameText : ∀ file text, t.renameText = some (file, text) →
    t.fileToBeRenamed = some file ∧ file ∈ t.files.window.files

theorem render_files :
    (t.render ace le).files = t.files.step ace (.sortedFiles le) Refusals.nothing := rfl

theorem Coherent.render (h : t.Coherent) : (t.render ace le).Rendered where
  renamed := h.renamed
  menu := fun file hmenu => (step_files (by simp)).2 file (h.menu file hmenu) (by simp)
  newFileText := by
    unfold FileTab.render call
    cases t.isCreatingNewFile <;> rfl
  renameText := fun file text hfile => by
    obtain ⟨file', hshown, heq⟩ := Option.map_eq_some_iff.1 hfile
    obtain ⟨hrenamed, hlisted⟩ := Option.filter_eq_some_iff.1 hshown
    cases heq
    exact ⟨hrenamed, of_decide_eq_true hlisted⟩

/-- **What a finish can do**: nothing, a reset, or what is edited. -/
theorem finishEditingFile_cases (h : t.Rendered) (event : Option (Option NameInput)) :
    t.finishEditingFile ace event uuid refuses = t ∨
      t.finishEditingFile ace event uuid refuses = t.reset ∨
      ∃ op, t.Edits uuid op ∧
        t.finishEditingFile ace event uuid refuses = t.callAndReset ace op refuses := by
  rcases hcreating : t.isCreatingNewFile with - | -
  · have htext : t.newFileText = none := by
      rw [← Option.not_isSome_iff_eq_none, h.newFileText, hcreating]
      exact Bool.false_ne_true
    have hinput : t.newFileInput = t.renameText.map fun p => (.rename, p.2) := by
      rw [newFileInput, htext]
    rcases hrename : t.renameText with - | ⟨file, text⟩
    · rw [hrename] at hinput
      refine .inl ?_
      simp only [finishEditingFile, hinput, Option.map_none, ite_self]
    · obtain ⟨hfile, -⟩ := h.renameText file text hrename
      rw [hrename] at hinput
      have hrenaming : t.isRenamingFile = true := by rw [← h.renamed, hfile]; rfl
      simp only [finishEditingFile, hinput, hcreating, hrenaming, hfile, Option.map_some,
        Bool.not_true, Bool.and_false, Bool.false_eq_true, if_false]
      split_ifs with htarget hempty
      · exact .inl rfl
      · exact .inr (.inl rfl)
      · exact .inr (.inr ⟨_, .rename hcreating hfile hrename (proper_trim hempty), rfl⟩)
  · obtain ⟨text, htext⟩ := Option.isSome_iff_exists.1 (h.newFileText.trans hcreating)
    have hinput : t.newFileInput = some (.newFile, text) := by rw [newFileInput, htext]
    simp only [finishEditingFile, hinput, hcreating, Bool.not_true, Bool.false_and,
      Bool.false_eq_true, if_false, if_true]
    split_ifs with htarget hempty
    · exact .inl rfl
    · exact .inr (.inl rfl)
    · exact .inr (.inr ⟨_, .create hcreating htext (proper_trim hempty), rfl⟩)

/-- A call leaves the files as the operation does, whether or not the tab is reset. -/
theorem callAndReset_files (op : Op) :
    (t.callAndReset ace op refuses).files = t.files.step ace op refuses := by
  unfold callAndReset World.step after
  cases op.exec ace refuses t.files.begin <;> rfl

theorem callAndReset_kept (op : Op) :
    (t.callAndReset ace op refuses).menu = t.menu ∧
      (t.fileToBeRenamed.isSome = t.isRenamingFile →
        (t.callAndReset ace op refuses).fileToBeRenamed.isSome =
          (t.callAndReset ace op refuses).isRenamingFile) := by
  unfold callAndReset
  cases op.exec ace refuses t.files.begin
  · exact ⟨rfl, fun _ => rfl⟩
  · exact ⟨rfl, id⟩

theorem Edits.offered (h : t.Rendered) (hfresh : Op.FreshId t.files uuid) {op : Op}
    (hop : t.Edits uuid op) : op.Offered t.files := by
  cases hop with
  | create => exact hfresh
  | rename _ _ htext => exact (h.renameText _ _ htext).2

theorem Edits.names {op : Op} (hop : t.Edits uuid op) : op.Names Proper := by
  cases hop with
  | create _ _ hname => exact hname
  | rename _ _ _ hname => exact hname

/-- **A finish**, of the files and of the tab. -/
theorem finish_spec (h : t.Rendered) (hfresh : Op.FreshId t.files uuid)
    (event : Option (Option NameInput)) :
    let t' := t.finishEditingFile ace event uuid refuses
    t'.menu = t.menu ∧ (t'.fileToBeRenamed.isSome = t'.isRenamingFile) ∧
      (t'.files = t.files ∨ ∃ op, t.Edits uuid op ∧ op.Offered t.files ∧
        t'.files = t.files.step ace op refuses) := by
  intro t'
  rcases @finishEditingFile_cases ace refuses t uuid h event with heq | heq | ⟨op, hop, heq⟩
  · rw [show t' = t from heq]
    exact ⟨rfl, h.renamed, .inl rfl⟩
  · rw [show t' = t.reset from heq]
    exact ⟨rfl, rfl, .inl rfl⟩
  · rw [show t' = t.callAndReset ace op refuses from heq]
    obtain ⟨hmenu, hrenamed⟩ := @callAndReset_kept ace refuses t op
    exact ⟨hmenu, hrenamed h.renamed, .inr ⟨op, hop, hop.offered h hfresh, callAndReset_files op⟩⟩

/-- **What a listener does to the files**: nothing, or an operation the file service is
offered, and a name it gives is proper. -/
theorem handle_files (h : t.Rendered) {e : FileTabEvent} (he : t.Enabled e) :
    (t.handle ace e).files = t.files ∨ ∃ op refuses, op.Offered t.files ∧ op.Names Proper ∧
      (t.handle ace e).files = t.files.step ace op refuses := by
  have finish {t' : FileTab} (ht : t'.Rendered) {uuid : String} (hfresh : Op.FreshId t'.files uuid)
      (event : Option (Option NameInput)) (refuses : Refusals) :
      (t'.finishEditingFile ace event uuid refuses).files = t'.files ∨
        ∃ op refuses', op.Offered t'.files ∧ op.Names Proper ∧
          (t'.finishEditingFile ace event uuid refuses).files = t'.files.step ace op refuses' := by
    obtain ⟨-, -, hsame | ⟨op, hop, hoffered, hfiles⟩⟩ := finish_spec ht hfresh event
    · exact .inl hsame
    · exact .inr ⟨op, refuses, hoffered, hop.names, hfiles⟩
  cases e with
  | clickNewFile => exact .inl rfl
  | clickFile file refuses => exact .inr ⟨.openFile file, refuses, he, trivial, rfl⟩
  | click target uuid refuses => exact finish h he.2 (some target) refuses
  | openMenu menu uuid refuses =>
    exact @finish { t with menu := some menu } ⟨⟨h.renamed, he.1⟩, h.newFileText, h.renameText⟩
      uuid he.2 none refuses
  | enter uuid refuses => exact finish h he.2 none refuses
  | input field text => cases field <;> exact .inl rfl
  | executeNewFile => exact .inl rfl
  | executeRename =>
    obtain ⟨file, hfile⟩ := Option.isSome_iff_exists.1 he
    rw [handle, hfile]
    exact .inl rfl
  | executeDelete refuses =>
    obtain ⟨file, hfile⟩ := Option.isSome_iff_exists.1 he
    rw [handle, hfile]
    exact .inr ⟨.deleteFile file, refuses, h.menu file hfile, trivial, rfl⟩
  | closeMenu => exact .inl rfl
  | other op refuses =>
    refine .inr ⟨op, refuses, he.2, ?_, rfl⟩
    cases op <;> first | trivial | exact he.1.elim
  | reload refuses => exact .inr ⟨.reload, refuses, trivial, trivial, rfl⟩

/-- A file that is listed is listed after a finish. -/
theorem finish_listed (h : t.Rendered) (hfresh : Op.FreshId t.files uuid)
    (event : Option (Option NameInput)) {file : FileRef} (hfile : file ∈ t.files.window.files) :
    file ∈ (t.finishEditingFile ace event uuid refuses).files.window.files := by
  obtain ⟨-, -, hsame | ⟨op, hop, -, hfiles⟩⟩ := @finish_spec ace refuses t uuid h hfresh event
  · rwa [hsame]
  · rw [hfiles]
    refine (step_files ?_).2 file hfile ?_
    · cases hop <;> simp
    · cases hop <;> simp

/-- **Every listener leaves the tab coherent.** -/
theorem handle_coherent (h : t.Rendered) {e : FileTabEvent} (he : t.Enabled e) :
    (t.handle ace e).Coherent := by
  cases e with
  | clickNewFile => exact ⟨h.renamed, by simp [handle, menuFile]⟩
  | clickFile file refuses =>
    refine ⟨h.renamed, fun file' hmenu => (step_files (by simp)).2 file' (h.menu file' hmenu) ?_⟩
    simp
  | click target uuid refuses =>
    obtain ⟨-, hrenamed, -⟩ := finish_spec h he.2 (some target)
    exact ⟨hrenamed, by simp [handle, menuFile]⟩
  | openMenu menu uuid refuses =>
    have hopened : { t with menu := some menu }.Rendered :=
      ⟨⟨h.renamed, he.1⟩, h.newFileText, h.renameText⟩
    obtain ⟨hmenu, hrenamed, -⟩ := @finish_spec ace refuses _ uuid hopened he.2 none
    refine ⟨hrenamed, fun file hfile => finish_listed hopened he.2 none (hopened.menu file ?_)⟩
    rwa [menuFile, ← hmenu]
  | enter uuid refuses =>
    obtain ⟨hmenu, hrenamed, -⟩ := @finish_spec ace refuses _ uuid h he.2 none
    refine ⟨hrenamed, fun file hfile => finish_listed h he.2 none (h.menu file ?_)⟩
    rwa [menuFile, ← hmenu]
  | input field text => cases field <;> exact ⟨h.renamed, h.menu⟩
  | executeNewFile => exact ⟨h.renamed, by simp [handle, menuFile]⟩
  | executeRename =>
    obtain ⟨file, hfile⟩ := Option.isSome_iff_exists.1 he
    rw [handle, hfile]
    exact ⟨rfl, by simp [menuFile]⟩
  | executeDelete refuses =>
    obtain ⟨file, hfile⟩ := Option.isSome_iff_exists.1 he
    rw [handle, hfile]
    exact ⟨h.renamed, by simp [menuFile]⟩
  | closeMenu => exact ⟨h.renamed, by simp [handle, menuFile]⟩
  | other op refuses =>
    refine ⟨h.renamed, fun file hmenu => (step_files ?_).2 file (h.menu file hmenu) ?_⟩
    · rintro rfl
      exact he.1
    · rintro rfl
      exact he.1
  | reload refuses => exact ⟨rfl, by simp [handle, new, menuFile]⟩

theorem rendered_of_reachable (h : (fileTab ace le opens).Reachable t) : t.Rendered := by
  refine h.invariant (I := FileTab.Rendered) ?_ fun t e ht he => (handle_coherent ht he).render
  rintro _ ⟨storage, refuses, -, rfl⟩
  exact Coherent.render ⟨rfl, by simp [new, menuFile]⟩

/-! ## The tab on the service -/

/-- **A run of the tab is a run of the file service.** -/
theorem files_reachable (h : (fileTab ace le opens).Reachable t) :
    (desk ace opens).Reachable t.files := by
  have sorted {w : World} (hw : (desk ace opens).Reachable w) :
      (desk ace opens).Reachable (w.step ace (.sortedFiles le) Refusals.nothing) :=
    hw.step (show (desk ace opens).enabled w (.sortedFiles le, Refusals.nothing) from trivial)
  induction h with
  | start h =>
    obtain ⟨storage, refuses, hopens, rfl⟩ := h
    exact sorted (.start ⟨storage, refuses, hopens, rfl⟩)
  | @step t e ht he ih =>
    refine sorted ?_
    rcases @handle_files ace t (rendered_of_reachable ht) e he with
      hfiles | ⟨op, refuses, hoffered, -, hfiles⟩
    · rwa [hfiles]
    · rw [hfiles]
      exact ih.step (show (desk ace opens).enabled t.files (op, refuses) from hoffered)

/-- The names of the stored tree are proper. -/
def ProperTree (storage : LocalStorage) : Prop :=
  ∀ objects, storedTree storage = some objects → ∀ o ∈ objects, Proper o.name

/-- **No name is empty or begins or ends with a space.** Whatever is done on the page in whatever
order, and whatever writes are refused, the tab's runs are runs of the file service; and
every name in the list and in storage is proper, if those are with which pages are opened. -/
theorem names_proper (h : (fileTab ace le opens).Reachable t) :
    (desk ace opens).Reachable t.files ∧
      ((∀ storage refuses, opens storage refuses → ProperTree storage) →
        (∀ f ∈ t.files.window.files, Proper (t.files.window.heap f).name) ∧
          ProperTree t.files.storage) := by
  refine ⟨files_reachable h, fun hopens => ?_⟩
  have hsorted : (Op.sortedFiles le).Names Proper := trivial
  have hloads : Op.reload.Names Proper := trivial
  have hnamed : AllNamed Proper t.files := by
    induction h with
    | start h =>
      obtain ⟨storage, refuses, hstart, rfl⟩ := h
      have hopening : AllNamed Proper (World.opening storage) :=
        ⟨fun _ hf => absurd hf List.not_mem_nil, hopens storage refuses hstart⟩
      rw [render_files]
      exact (hopening.step hloads).step hsorted
    | @step t e ht he ih =>
      change AllNamed Proper ((t.handle ace e).render ace le).files
      rw [render_files]
      refine AllNamed.step ?_ hsorted
      rcases @handle_files ace t (rendered_of_reachable ht) e he with
        hfiles | ⟨op, refuses, -, hname, hfiles⟩
      · rwa [hfiles]
      · rw [hfiles]
        exact ih.step hname
  exact ⟨hnamed.files, hnamed.tree⟩

/-- The page as it is opened over an empty storage. -/
def opened : FileTab := (new (World.fresh Ace.brace)).render Ace.brace fun _ _ => true

/-- A file is created, and renamed by a click elsewhere. -/
def createAndRename : List FileTabEvent :=
  [.clickNewFile, .input .newFile " a.sol\t", .enter "u1" Refusals.nothing,
    .openMenu (.fileMenu 0) "u2" Refusals.nothing, .executeRename, .input .rename " b.sol",
    .click none "u2" Refusals.nothing]

theorem opened_reachable : (fileTab Ace.brace (fun _ _ => true)
    fun storage _ => ProperTree storage).Reachable opened := by
  refine .start ⟨LocalStorage.empty, Refusals.nothing, fun objects hobjects o ho => ?_, rfl⟩
  rw [storedTree_empty, Option.some.injEq] at hobjects
  subst hobjects
  exact absurd ho List.not_mem_nil

theorem names_proper_renamed :
    let t := (fileTab Ace.brace (fun _ _ => true) fun storage _ => ProperTree storage).run
      opened createAndRename
    t.files.window.objects = [⟨"u1", "b.sol", "", true⟩] ∧ ProperTree t.files.storage := by
  refine ⟨by decide +kernel, ((names_proper (opened_reachable.run ?_)).2 fun _ _ h => h).2⟩
  decide +kernel

/-! ## One file for each command -/

/-- How many files the event tells the tab to make. -/
def commands : FileTabEvent → ℕ
  | .clickNewFile | .executeNewFile => 1
  | _ => 0

/-- A new file can be written. -/
def HasRoom (refuses : Refusals) : Prop :=
  refuses 0 .selectedFile = false ∧ refuses 1 .files = false

instance (refuses : Refusals) : Decidable (HasRoom refuses) := inferInstanceAs (Decidable (_ ∧ _))

/-- Should the event finish a new file, that can be written. -/
def Written : FileTabEvent → Prop
  | .click _ _ refuses | .openMenu _ _ refuses | .enter _ refuses => HasRoom refuses
  | _ => True

/-- How many files a step makes. A page that loads makes objects of its own. -/
def makes (ace : Ace) (t : FileTab) : FileTabEvent → ℕ
  | .reload _ => 0
  | e => (t.handle ace e).files.window.next - t.files.window.next

/-- How many files the steps of a run make. -/
def made (ace : Ace) (le : String → String → Bool) : FileTab → List FileTabEvent → ℕ
  | _, [] => 0
  | t, e :: es => t.makes ace e + made ace le ((t.handle ace e).render ace le) es

/-- A new file is asked for, and not made yet. -/
def pending (t : FileTab) : ℕ := t.isCreatingNewFile.toNat

theorem createFile_ends {w : World} {name : String} :
    wp (Hmix.createFile ace refuses uuid name)
      (fun _ _ => refuses w.writes .selectedFile = false ∧ refuses (w.writes + 1) .files = false)
      (fun _ _ => ¬ (refuses w.writes .selectedFile = false ∧
        refuses (w.writes + 1) .files = false)) w := by
  rw [wp_createFile_iff]
  exact openFile_ends.mono (fun _ _ h => h.1) fun _ _ h => h

/-- **A new file, finished**: the tab is reset exactly if it could be written. -/
theorem callAndReset_createFile (name : String) :
    t.callAndReset ace (.createFile uuid name) refuses =
      if HasRoom refuses then (t.call ace (.createFile uuid name) refuses).reset
      else t.call ace (.createFile uuid name) refuses := by
  have hends : wp ((Op.createFile uuid name).exec ace refuses) (fun _ _ => HasRoom refuses)
      (fun _ _ => ¬ HasRoom refuses) t.files.begin := createFile_ends
  unfold wp at hends
  unfold callAndReset call World.step after
  cases hrun : (Op.createFile uuid name).exec ace refuses t.files.begin with
  | ok u files =>
    rw [hrun] at hends
    rw [if_pos hends]
  | error e files =>
    rw [hrun] at hends
    rw [if_neg hends]

/-- **A finish makes no file that was not pending.** -/
theorem finish_made (h : t.Rendered) (event : Option (Option NameInput)) (hroom : HasRoom refuses) :
    let t' := t.finishEditingFile ace event uuid refuses
    t.files.window.next ≤ t'.files.window.next ∧
      t'.files.window.next + t'.pending ≤ t.files.window.next + t.pending := by
  intro t'
  rcases @finishEditingFile_cases ace refuses t uuid h event with heq | heq | ⟨op, hop, heq⟩
  · rw [show t' = t from heq]
    exact ⟨le_refl _, le_refl _⟩
  · rw [show t' = t.reset from heq]
    exact ⟨le_refl _, Nat.le_add_right _ _⟩
  · rw [show t' = t.callAndReset ace op refuses from heq]
    cases hop with
    | @create text hcreating =>
      have hmade := (@step_files ace refuses t.files (.createFile uuid (trim text)) (by simp)).1
      rw [callAndReset_createFile, if_pos hroom]
      refine ⟨le_of_le_of_eq (Nat.le_add_right _ 1) hmade.symm, le_of_eq ?_⟩
      rw [pending, pending, hcreating]
      exact hmade
    | @rename file text hcreating =>
      have hmade := (@step_files ace refuses t.files (.renameFile file (trim text)) (by simp)).1
      have hidle : (t.callAndReset ace (.renameFile file (trim text)) refuses).pending = 0 := by
        unfold callAndReset pending
        cases Op.exec ace refuses (.renameFile file (trim text)) t.files.begin
        · rfl
        · exact congrArg Bool.toNat hcreating
      rw [callAndReset_files, hidle]
      exact ⟨le_of_eq hmade.symm, le_of_eq_of_le hmade (Nat.le_add_right _ _)⟩

/-- **A step makes no file that was not pending**, or told to make. -/
theorem handle_made (h : t.Rendered) {e : FileTabEvent} (he : t.Enabled e) (hroom : Written e) :
    t.makes ace e + (t.handle ace e).pending ≤ commands e + t.pending := by
  have finish {t' : FileTab} (ht : t'.Rendered) (event : Option (Option NameInput)) {uuid : String}
      {refuses : Refusals} (hroom : HasRoom refuses) :
      (t'.finishEditingFile ace event uuid refuses).files.window.next - t'.files.window.next +
        (t'.finishEditingFile ace event uuid refuses).pending ≤ 0 + t'.pending := by
    obtain ⟨hle, hmade⟩ := @finish_made ace refuses t' uuid ht event hroom
    rw [← Nat.sub_add_comm hle, Nat.zero_add]
    exact Nat.sub_le_iff_le_add'.2 hmade
  have quiet (op : Op) (refuses : Refusals) (hop : op ≠ .reload) (hmakes : op.makes = 0) :
      (t.files.step ace op refuses).window.next - t.files.window.next + t.pending ≤
        0 + t.pending := by
    rw [(step_files hop).1, hmakes, Nat.add_zero, Nat.sub_self]
  have same : t.files.window.next - t.files.window.next + t.pending ≤ 0 + t.pending := by
    rw [Nat.sub_self]
  have told : t.files.window.next - t.files.window.next + 1 ≤ 1 + t.pending := by
    rw [Nat.sub_self, Nat.zero_add]
    exact Nat.le_add_right 1 _
  cases e with
  | clickNewFile => exact told
  | executeNewFile => exact told
  | clickFile file refuses => exact quiet (.openFile file) refuses (by simp) rfl
  | click target uuid refuses => exact finish h (some target) hroom
  | openMenu menu uuid refuses =>
    exact @finish { t with menu := some menu } ⟨⟨h.renamed, he.1⟩, h.newFileText, h.renameText⟩
      none uuid refuses hroom
  | enter uuid refuses => exact finish h none hroom
  | input field text => cases field <;> exact same
  | executeRename =>
    obtain ⟨file, hfile⟩ := Option.isSome_iff_exists.1 he
    rw [makes, handle, hfile]
    · exact same
    · simp
  | executeDelete refuses =>
    obtain ⟨file, hfile⟩ := Option.isSome_iff_exists.1 he
    rw [makes, handle, hfile]
    · exact quiet (.deleteFile file) refuses (by simp) rfl
    · simp
  | closeMenu => exact same
  | other op refuses =>
    refine quiet op refuses ?_ ?_
    · rintro rfl
      exact he.1
    · cases op <;> first | rfl | exact he.1.elim
  | reload refuses => exact Nat.zero_le _

/-- **With room, each command makes one file at most**, in every run from any state. A
file that was asked for before may come to it. -/
theorem made_le_commands (h : (fileTab ace le opens).Reachable t) {es : List FileTabEvent}
    (ha : (fileTab ace le opens).Admits t es) (hroom : ∀ e ∈ es, Written e) :
    made ace le t es ≤ (es.map commands).sum + t.pending := by
  induction es generalizing t with
  | nil => exact Nat.zero_le _
  | cons e es ih =>
    obtain ⟨he, ha⟩ := ha
    have hstep := @handle_made ace t (rendered_of_reachable h) e he (hroom e List.mem_cons_self)
    have hrest := ih (h.step he) ha fun e' he' => hroom e' (List.mem_cons_of_mem e he')
    change t.makes ace e + _ ≤ _
    rw [List.map_cons, List.sum_cons]
    calc t.makes ace e + made ace le ((fileTab ace le opens).step t e) es
        ≤ t.makes ace e + ((es.map commands).sum + (t.handle ace e).pending) :=
          Nat.add_le_add_left hrest _
      _ ≤ commands e + (es.map commands).sum + t.pending := by omega

/-- Two files, of which the first is renamed. -/
theorem made_le_commands_two :
    let m := fileTab Ace.brace (fun _ _ => true) fun storage _ => ProperTree storage
    let es := createAndRename ++ [.openMenu .fileCreationMenu "u2" Refusals.nothing,
      .executeNewFile, .input .newFile "c.sol", .click none "u2" Refusals.nothing]
    m.Admits opened es ∧ made Ace.brace (fun _ _ => true) opened es = 2 ∧
      made Ace.brace (fun _ _ => true) opened es ≤ (es.map commands).sum + opened.pending := by
  intro m es
  have ha : m.Admits opened es := by decide +kernel
  refine ⟨ha, by decide +kernel, made_le_commands opened_reachable ha fun e he => ?_⟩
  simp only [es, createAndRename, List.cons_append, List.nil_append, List.mem_cons,
    List.not_mem_nil, or_false] at he
  rcases he with rfl | rfl | rfl | rfl | rfl | rfl | rfl | rfl | rfl | rfl | rfl <;> trivial

/-- How many files of the list have the name. -/
def named (t : FileTab) (name : String) : ℕ :=
  t.files.window.files.countP fun f => (t.files.window.heap f).name = name

theorem named_render (name : String) : (t.render ace le).named name = t.named name :=
  (List.mergeSort_perm _ _).countP_eq _

/-- A new file is one more of its name, however its opening ends. -/
theorem named_create (hbelow : t.files.window.Below) (name : String) :
    (t.call ace (.createFile uuid name) refuses).named name = t.named name + 1 := by
  have hnames : NamedAs (t.files.window.withNew uuid name)
      (t.files.step ace (.createFile uuid name) refuses) :=
    wp_iff_after.1 (createFile_names (w := t.files.begin))
  have hold : ∀ f ∈ t.files.window.files,
      ((t.files.window.withNew uuid name).heap f).name = (t.files.window.heap f).name :=
    fun f hf => congrArg File.name (withNew_heap_of_ne (Nat.ne_of_lt (hbelow f hf)))
  have hnew : ((t.files.window.withNew uuid name).heap t.files.window.next).name = name := by
    rw [withNew_heap_next]
    rfl
  calc (t.call ace (.createFile uuid name) refuses).named name
      = (t.files.window.files ++ [t.files.window.next]).countP fun f =>
          ((t.files.window.withNew uuid name).heap f).name = name := by
        unfold named call
        rw [hnames.files]
        exact List.countP_congr fun f _ => by rw [hnames.name]
    _ = t.named name + 1 := by
        rw [List.countP_append, List.countP_singleton, hnew, if_pos (decide_eq_true rfl)]
        exact congrArg (· + 1) (List.countP_congr fun f hf => by rw [hold f hf])

/-- **A click that is refused leaves what is created as it is**, and one file of the name more. -/
theorem refused_click (h : t.Rendered) (hbelow : t.files.window.Below) {text : String}
    (htext : t.newFileText = some text) (hname : trim text ≠ "") (hrefused : ¬ HasRoom refuses) :
    let t' := (t.handle ace (.click none uuid refuses)).render ace le
    t'.newFileText = some text ∧ t'.named (trim text) = t.named (trim text) + 1 := by
  have hcreating : t.isCreatingNewFile = true := by rw [← h.newFileText, htext]; rfl
  have hinput : t.newFileInput = some (.newFile, text) := by rw [newFileInput, htext]
  have hfinish : t.finishEditingFile ace (some none) uuid refuses =
      t.call ace (.createFile uuid (trim text)) refuses := by
    have hcall := @callAndReset_createFile ace refuses t uuid (trim text)
    rw [if_neg hrefused] at hcall
    rw [← hcall]
    simp [finishEditingFile, hcreating, hinput, hname]
  intro t'
  refine ⟨?_, ?_⟩
  · change (if (t.finishEditingFile ace (some none) uuid refuses).isCreatingNewFile then
      some ((t.finishEditingFile ace (some none) uuid refuses).newFileText.getD "") else none) = _
    rw [hfinish]
    change (if t.isCreatingNewFile then some (t.newFileText.getD "") else none) = _
    rw [if_pos hcreating, htext]
    rfl
  · change ((t.handle ace (.click none uuid refuses)).render ace le).named (trim text) = _
    rw [named_render]
    change (t.finishEditingFile ace (some none) uuid refuses).named (trim text) = _
    rw [hfinish, named_create hbelow]

/-- **Where storage is full, every click creates the file again.** A finish that is refused does
not reset the tab, so that of any number of clicks each leaves one more file of
the name in the list, and the input as it is. -/
theorem refused_clicks_create (h : (fileTab ace le opens).Reachable t) {text : String}
    (htext : t.newFileText = some text) (hname : trim text ≠ "")
    {clicks : List (String × Refusals)}
    (ha : (fileTab ace le opens).Admits t (clicks.map fun c => .click none c.1 c.2))
    (hrefused : ∀ c ∈ clicks, ¬ HasRoom c.2) :
    let t' := (fileTab ace le opens).run t (clicks.map fun c => .click none c.1 c.2)
    t'.newFileText = some text ∧ t'.named (trim text) = t.named (trim text) + clicks.length := by
  induction clicks generalizing t with
  | nil => exact ⟨htext, rfl⟩
  | cons c clicks ih =>
    obtain ⟨he, ha⟩ := ha
    rw [List.forall_mem_cons] at hrefused
    have hbelow := (distinct_of_reachable (files_reachable h)).below
    obtain ⟨htext', hnamed⟩ := @refused_click ace c.2 le t c.1 (rendered_of_reachable h) hbelow
      text htext hname hrefused.1
    obtain ⟨hkept, hcount⟩ := ih (h.step he) htext' ha hrefused.2
    refine ⟨hkept, hcount.trans ?_⟩
    rw [List.length_cons, Nat.add_comm clicks.length, ← Nat.add_assoc]
    exact congrArg (· + clicks.length) hnamed

/-- Two clicks, while the tree cannot be written. -/
theorem refused_clicks_create_twice :
    let m := fileTab Ace.brace (fun _ _ => true) fun storage _ => ProperTree storage
    let t := m.run opened [.clickNewFile, .input .newFile "a.sol"]
    let t' := m.run t [.click none "u1" (.only .files), .click none "u2" (.only .files)]
    t'.newFileText = some "a.sol" ∧ t'.named "a.sol" = 2 := by
  intro m t t'
  have hreach : m.Reachable t := opened_reachable.run (by decide +kernel)
  obtain ⟨htext, hnamed⟩ := @refused_clicks_create Ace.brace (fun _ _ => true) _ t hreach "a.sol"
    (by decide +kernel) (by decide +kernel) [("u1", .only .files), ("u2", .only .files)]
    (by decide +kernel) (by decide +kernel)
  have htrim : trim "a.sol" = "a.sol" := by decide +kernel
  have hnone : t.named "a.sol" = 0 := by decide +kernel
  rw [htrim, hnone] at hnamed
  exact ⟨htext, hnamed⟩

end FileTab

end Hmix
