import Hmix.Compiler.Imports
import Hmix.Files.Names
import Hmix.Model.Errors

/-!
# Where a click on an error leads

The error has a name, and what was compiled under it was a file. A click
leads there exactly if that file is still the first of the list with the
name, and the switch to it can be stored. Otherwise it leads to another file
or throws; where the file is gone there is no way for it to do nothing. In a
run the condition is kept by every step that neither takes a compiled file's
name or place nor compiles a file that is not the first of its name.
-/

namespace Hmix

open Window

variable {ace : Ace} {refuses : Refusals}

/-- The error is at a line and a column. -/
def ICompilerError.Placed (error : ICompilerError) : Prop :=
  error.lineNumber.getD 0 ≠ 0 ∧ error.columnNumber.getD 0 ≠ 0

instance (error : ICompilerError) : Decidable error.Placed := inferInstanceAs (Decidable (_ ∧ _))

/-- None of the writes of `selectFile` is refused. -/
def Refusals.Grants (refuses : Refusals) (m : Window) (f : FileRef) : Prop :=
  refuses 0 .selectedFile = false ∧
    ((m.heap f).isOpen = false → refuses 1 .files = false ∧ refuses 2 .selectedFile = false)

namespace ErrorList

/-- **The click does what it should**, where `f` is the file that was compiled:
it returns, with `f` selected, or with nothing changed if `f` is gone. -/
def GoesRight (ace : Ace) (refuses : Refusals) (error : ICompilerError) (f : FileRef)
    (x : ErrorList) : Prop :=
  wp (gotoError ace refuses error)
    (fun _ x' => (f ∈ x.files.window.files → x'.files.window.selectedFile = some f) ∧
      (f ∉ x.files.window.files → x' = x.begin))
    (fun _ _ => False) x.begin

/-! ## One click -/

section

variable {error : ICompilerError} {name : String} {f : FileRef} {x : ErrorList}

theorem wp_onFiles {m : App PUnit} {Q : PUnit → ErrorList → Prop} {E : Thrown → ErrorList → Prop} :
    wp (onFiles m) Q E x ↔ wp m (fun _ files => Q ⟨⟩ { x with files := files })
      (fun e files => E e { x with files := files }) x.files := by
  unfold wp onFiles
  cases m x.files <;> rfl

/-- A click on an error that has a place, by what is found under its name. -/
theorem wp_gotoError {Q : PUnit → ErrorList → Prop} {E : Thrown → ErrorList → Prop}
    (hname : error.fileName = some name) (hplace : error.Placed)
    (hnone : x.files.window.getFileByName name = none → E .typeError x)
    (hsome : ∀ g, x.files.window.getFileByName name = some g →
      wp (selectFile ace refuses g)
        (fun _ files => Q ⟨⟩ { x with
          files := files
          marker := some (x.nextMarker, error.lineNumber.getD 0 - 1)
          nextMarker := x.nextMarker + 1
          cursor := some (error.lineNumber.getD 0, error.columnNumber.getD 0 - 1) })
        (fun e files => E e { x with files := files }) x.files) :
    wp (gotoError ace refuses error) Q E x := by
  have hplaced : ¬ (error.lineNumber.getD 0 = 0 ∨ error.columnNumber.getD 0 = 0) :=
    not_or.2 hplace
  simp only [gotoError, wp_ite, wp_bind, wp_get, hname, Option.bind_some]
  refine ⟨fun h => absurd h hplaced, fun _ => ?_⟩
  rcases hfound : x.files.window.getFileByName name with - | g
  · exact hnone hfound
  · simp only [wp_bind, wp_onFiles, highlightLine, gotoLine, wp_modify]
    exact hsome g hfound

/-- **A click goes right exactly if** the file that was compiled is the first
with the name, and no write is refused. -/
theorem goesRight_iff (hname : error.fileName = some name) (hplace : error.Placed) :
    x.GoesRight ace refuses error f ↔
      x.files.window.First name f ∧ refuses.Grants x.files.window f := by
  constructor
  · intro hright
    rw [← getFileByName_eq_some_iff]
    -- what the click did, beside what it should have done
    have hboth : wp (gotoError ace refuses error)
        (fun _ x' => x'.nextMarker ≠ x.nextMarker ∧ ∃ g,
          x.files.window.getFileByName name = some g ∧ refuses.Grants x.files.window g ∧
            x'.files.window.selectedFile = some g) (fun _ _ => True) x.begin := by
      refine wp_gotoError hname hplace (fun _ => trivial) fun g hg => ?_
      exact selectFile_ends.mono
        (fun _ _ h => ⟨Nat.succ_ne_self _, g, hg, h.1, h.2⟩) fun _ _ _ => trivial
    obtain ⟨_, x', -, ⟨hselects, hnothing⟩, hmarker, g, hg, hgrants, hselected⟩ :=
      ((hright.and hboth).mono (fun _ _ h => h) fun _ _ h => h.1).returns
    by_cases hf : f ∈ x.files.window.files
    · obtain rfl : g = f := Option.some.inj (hselected.symm.trans (hselects hf))
      exact ⟨hg, hgrants⟩
    · -- a marker was made, so this was not nothing
      exact absurd (congrArg ErrorList.nextMarker (hnothing hf)) hmarker
  · rintro ⟨hfirst, hgrants⟩
    have hfound := getFileByName_eq_some_iff.2 hfirst
    refine wp_gotoError hname hplace (fun hnone => ?_) fun g hg => ?_
    · cases hfound.symm.trans hnone
    · obtain rfl : g = f := Option.some.inj (hg.symm.trans hfound)
      refine selectFile_ends.mono (fun _ _ h => ⟨fun _ => h.2, fun hgone => ?_⟩)
        fun _ _ h => h hgrants
      exact absurd hfirst.listed hgone

end

/-! ## What was compiled -/

section

variable {w : World} {c : Compiled} {missingInputs : List String} {name : String}

/-- The content under a name is that of the file that is found under it. -/
theorem contentOf_library (w : World) (name : String) : w.workspace.library.contentOf name =
    (w.window.getFileByName name).map fun f => (w.window.heap f).content := by
  simp only [World.workspace, Library.contentOf, getFileByName]
  induction w.window.files with
  | nil => rfl
  | cons f files ih =>
    rw [List.map_cons, List.lookup_cons, List.find?_cons, BEq.comm]
    cases (w.window.heap f).name == name
    · exact ih
    · rfl

/-- **What is gathered is the text of a file**: the first with its name. -/
theorem gathered_origin (hnew : name ∉ c.sources.names)
    (h : name ∈ (c.gather w missingInputs).sources.names) :
    ∃ f, (c.gather w missingInputs).origin name = some f ∧ w.window.First name f ∧
      (name, (w.window.heap f).content) ∈ (c.gather w missingInputs).sources := by
  have horigin : (c.gather w missingInputs).origin name = w.window.getFileByName name := by
    simp only [Compiled.gather, if_neg hnew]
    exact if_pos h
  obtain ⟨content, hmem⟩ := Sources.mem_names.1 h
  rcases (mem_addMissing _ _).1 hmem with hold | ⟨-, -, hcontent⟩
  · exact absurd (Sources.mem_names.2 ⟨content, hold⟩) hnew
  · rw [contentOf_library] at hcontent
    obtain ⟨f, hf, rfl⟩ := Option.map_eq_some_iff.1 hcontent
    exact ⟨f, horigin.trans hf, first_of_getFileByName hf, hmem⟩

theorem gathered_origin_of_mem (hold : name ∈ c.sources.names) :
    (c.gather w missingInputs).origin name = c.origin name := by
  simp only [Compiled.gather, if_pos hold]

theorem ofSelected_origin {f : FileRef} (hc : Compiled.ofSelected w = some c)
    (h : c.origin name = some f) :
    w.window.selectedFile = some f ∧ (w.window.heap f).name = name := by
  obtain ⟨selectedFile, hselected, rfl⟩ := Option.map_eq_some_iff.1 hc
  have horigin : (if name = (w.window.heap selectedFile).name then some selectedFile
    else none) = some f := h
  split_ifs at horigin with hname
  obtain rfl := Option.some.inj horigin
  exact ⟨hselected, hname.symm⟩

end

/-! ## Runs -/

section

variable {x : ErrorList} {e : ErrorEvent}

/-- **Every name that was compiled stands for a file.** -/
def Sourced (x : ErrorList) : Prop :=
  ∀ name ∈ x.compiled.sources.names, ∃ f, x.compiled.origin name = some f

theorem compiled_after_gotoError {error : ICompilerError} :
    (after (gotoError ace refuses error) x.begin).compiled = x.compiled := by
  refine (wp_iff_after (I := fun x' : ErrorList => x'.compiled = x.compiled)).1 ?_
  simp only [gotoError, wp_ite, wp_bind, wp_get, wp_pure]
  refine ⟨fun _ => rfl, fun _ => ?_⟩
  cases error.fileName.bind x.begin.files.window.getFileByName with
  | none => rfl
  | some g =>
    simp only [wp_bind, wp_onFiles, highlightLine, gotoLine, wp_modify]
    exact (wp_iff_after (I := fun _ => x.compiled = x.compiled)).2 rfl

theorem sourced_of_reachable (h : (errorDesk ace).Reachable x) : x.Sourced := by
  refine h.invariant (I := Sourced) ?_ ?_
  · rintro _ ⟨storage, refuses, rfl⟩ name hname
    cases hname
  · intro x e hx _
    cases e with
    | files op refuses =>
      intro name hname
      change ∃ f, (if op.loads = true then Compiled.nothing else x.compiled).origin name = some f
      change name ∈ (if op.loads = true then Compiled.nothing else x.compiled).sources.names
        at hname
      split_ifs at hname ⊢
      · cases hname
      · exact hx name hname
    | compile =>
      intro name hname
      rcases hc : Compiled.ofSelected x.files with - | c
      · simp only [errorDesk, hc, Option.getD_none] at hname ⊢
        exact hx name hname
      · simp only [errorDesk, hc, Option.getD_some] at hname ⊢
        obtain ⟨f, -, rfl⟩ := Option.map_eq_some_iff.1 hc
        exact ⟨f, if_pos (List.mem_singleton.1 hname)⟩
    | gather missingInputs =>
      intro name hname
      by_cases hold : name ∈ x.compiled.sources.names
      · obtain ⟨f, hf⟩ := hx name hold
        exact ⟨f, (gathered_origin_of_mem hold).trans hf⟩
      · obtain ⟨f, hf, -⟩ := gathered_origin hold hname
        exact ⟨f, hf⟩
    | gotoError error refuses =>
      change Sourced (after (gotoError ace refuses error) x.begin)
      rw [Sourced, compiled_after_gotoError]
      exact hx

/-- **The step keeps what was compiled in its place**: no operation displaces
it, and the file that is compiled is the first of its name. -/
def Careful (x : ErrorList) : ErrorEvent → Prop
  | .files op _ => ∀ name f, x.compiled.origin name = some f →
      ¬ op.Displaces x.files.window name f
  | .compile => ∀ f, x.files.window.selectedFile = some f →
      x.files.window.First (x.files.window.heap f).name f
  | .gather _ | .gotoError _ _ => True

/-- **Every file that was compiled is still the first of its name.** -/
structure InPlace (x : ErrorList) : Prop where
  distinct : x.files.window.Distinct
  first : ∀ name f, x.compiled.origin name = some f → x.files.window.First name f

theorem names_after_gotoError {error : ICompilerError} : SameNames x.files.window
    (after (gotoError ace refuses error) x.begin).files.window := by
  refine (wp_iff_after (I := fun x' : ErrorList =>
    SameNames x.files.window x'.files.window)).1 ?_
  simp only [gotoError, wp_ite, wp_bind, wp_get, wp_pure]
  refine ⟨fun _ => .refl _, fun _ => ?_⟩
  cases error.fileName.bind x.begin.files.window.getFileByName with
  | none => exact SameNames.refl _
  | some g =>
    simp only [wp_bind, wp_onFiles, highlightLine, gotoLine, wp_modify]
    exact preserves_selectFile x.begin.files (SameNames.refl x.files.window)

theorem inPlace_step (hx : x.InPlace) (hcareful : x.Careful e) :
    InPlace ((errorDesk ace).step x e) := by
  cases e with
  | files op refuses =>
    refine ⟨distinct_step hx.distinct, fun name f hf => ?_⟩
    change (if op.loads = true then Compiled.nothing else x.compiled).origin name = some f at hf
    split_ifs at hf with hloads
    · cases hf
    · have hop : op ≠ .reload := by
        rintro rfl
        exact hloads rfl
      exact first_step hop hx.distinct (hx.first name f hf) (hcareful name f hf)
  | compile =>
    refine ⟨hx.distinct, fun name f hf => ?_⟩
    rcases hc : Compiled.ofSelected x.files with - | c
    · simp only [errorDesk, hc, Option.getD_none] at hf
      exact hx.first name f hf
    · simp only [errorDesk, hc, Option.getD_some] at hf
      obtain ⟨hselected, hname⟩ := ofSelected_origin hc hf
      exact hname ▸ hcareful f hselected
  | gather missingInputs =>
    refine ⟨hx.distinct, fun name f hf => ?_⟩
    change (x.compiled.gather x.files missingInputs).origin name = some f at hf
    by_cases hold : name ∈ x.compiled.sources.names
    · exact hx.first name f ((gathered_origin_of_mem hold).symm.trans hf)
    · simp only [Compiled.gather, if_neg hold] at hf
      split_ifs at hf
      exact first_of_getFileByName hf
  | gotoError error refuses =>
    have hnames := @names_after_gotoError ace refuses x error
    refine ⟨hnames.distinct hx.distinct, fun name f hf => hnames.first (hx.first name f ?_)⟩
    rw [← @compiled_after_gotoError ace refuses x error]
    exact hf

theorem inPlace_of_reachable (h : ((errorDesk ace).under Careful).Reachable x) : x.InPlace := by
  refine h.invariant (I := InPlace) ?_ fun _ _ hx he => inPlace_step hx he.2
  rintro _ ⟨storage, refuses, rfl⟩
  exact ⟨distinct_step (distinct_ofTree []), fun name f hf => by cases hf⟩

end

/-! ## Every click -/

/-- **Where a click leads.** Under every name a compilation was given there is a
file. In any run a click on an error in it goes right exactly if that file is
the first of the list with the name and no write of the switch is refused; and
in a run of careful steps it always is the first. -/
theorem click_goes_right_iff (ace : Ace) :
    (∀ x, (errorDesk ace).Reachable x → ∀ name ∈ x.compiled.sources.names,
      ∃ f, x.compiled.origin name = some f ∧ ∀ error (refuses : Refusals),
        error.fileName = some name → error.Placed →
          (x.GoesRight ace refuses error f ↔
            x.files.window.First name f ∧ refuses.Grants x.files.window f)) ∧
    ∀ x, ((errorDesk ace).under Careful).Reachable x →
      ∀ name f, x.compiled.origin name = some f → x.files.window.First name f := by
  refine ⟨fun x hx name hname => ?_, fun x hx => (inPlace_of_reachable hx).first⟩
  obtain ⟨f, hf⟩ := sourced_of_reachable hx name hname
  exact ⟨f, hf, fun error refuses herror hplace => goesRight_iff herror hplace⟩

/-- The list over an empty storage. -/
def fresh (ace : Ace) : ErrorList := ⟨World.fresh ace, none, 1, none, .nothing⟩

theorem fresh_reachable : (errorDesk ace).Reachable (fresh ace) := .start ⟨_, _, rfl⟩

/-- An error at the head of a file. -/
def errorIn (name : String) : ICompilerError := ⟨some name, some 1, some 1, "ParserError", none⟩

/-- A file is compiled, and another of its name created before the click. -/
def errorBeforeNamesake : List ErrorEvent :=
  [.files (.createFile "u1" "A.sol") Refusals.nothing, .compile,
    .files (.createFile "u2" "A.sol") Refusals.nothing]

theorem errorBeforeNamesake_admitted :
    (errorDesk Ace.brace).Admits (fresh Ace.brace) errorBeforeNamesake := by decide

theorem click_before_namesake : ((errorDesk Ace.brace).run (fresh Ace.brace)
    errorBeforeNamesake).GoesRight Ace.brace Refusals.nothing (errorIn "A.sol") 0 := by
  obtain ⟨f, hf, hiff⟩ := (click_goes_right_iff Ace.brace).1 _
    (fresh_reachable.run errorBeforeNamesake_admitted) "A.sol" (by decide)
  obtain rfl : f = 0 := Option.some.inj (hf.symm.trans (by decide))
  refine (hiff (errorIn "A.sol") Refusals.nothing rfl (by decide)).2 ⟨?_, ?_⟩
  · exact getFileByName_eq_some_iff.1 (by decide)
  · exact ⟨rfl, fun _ => ⟨rfl, rfl⟩⟩

/-- A file is compiled, and deleted before the click. -/
def errorInDeleted : List ErrorEvent :=
  [.files (.createFile "u1" "A.sol") Refusals.nothing, .compile,
    .files (.deleteFile 0) Refusals.nothing]

/-- **A file that is gone is asked for all the same.** -/
theorem click_on_deleted_throws : ¬ ∀ x, (errorDesk Ace.brace).Reachable x →
    ∀ name f, x.compiled.origin name = some f → ∀ error, error.fileName = some name →
      error.Placed → x.GoesRight Ace.brace Refusals.nothing error f := by
  intro h
  have hadmits : (errorDesk Ace.brace).Admits (fresh Ace.brace) errorInDeleted := by decide
  have hright := h _ (fresh_reachable.run hadmits) "A.sol" 0 (by decide) (errorIn "A.sol") rfl
    (by decide)
  have hfirst := ((goesRight_iff rfl (by decide)).1 hright).1
  exact absurd hfirst.listed (by decide)

end ErrorList

end Hmix
