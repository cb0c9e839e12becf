import Hmix.Compiler.Latest
import Hmix.Files.Rules
import Hmix.Model.Page

/-!
# When the page compiles by itself

The setting `autoCompile` is stored and shown, and nothing reads it: the
handlers of the compile tab compile whatever it is. So the page obeys the
setting in those runs only in which it happens to be set when a file is
clicked or a change saved. A click requests no compilation where one of the
writes it makes first is refused.
-/

namespace Hmix

namespace Page

/-- The event starts a compilation. -/
def Starts (ace : Ace) (scripts : Compiler → Prop) (p : Page) (e : PageEvent) : Prop :=
  ((pageDesk ace scripts).step p e).tab.service.calls ≠ p.tab.service.calls

/-- A save that changes the content, or a click on a file. -/
def Notifies (p : Page) : PageEvent → Prop
  | .openFile _ _ | .selectFile _ _ => True
  | .saveFile _ => ∃ file ∈ p.files.window.selectedFile,
      (p.files.window.heap file).content ≠ p.files.window.text
  | _ => False

/-- The user presses the button, or a compiler is loaded. -/
def Explicit : PageEvent → Prop
  | .tab e => e = .press ∨ e = .microtask ∨ e = .timeout
  | _ => False

/-- **The event obeys the setting.** -/
structure Obeys (ace : Ace) (scripts : Compiler → Prop) (p : Page) (e : PageEvent) : Prop where
  off : p.settings.autoCompile = false → p.Starts ace scripts e → Explicit e
  on : p.settings.autoCompile = true → p.tab.subsInitialized = true → p.Notifies e →
    p.Starts ace scripts e

/-- No write is refused that a click makes before it requests a compilation. -/
def Granted (p : Page) : PageEvent → Prop
  | .openFile _ refuses => refuses 0 .selectedFile = false ∧ refuses 1 .files = false
  | .selectFile file refuses => refuses 0 .selectedFile = false ∧
      ((p.files.window.heap file).isOpen = false →
        refuses 1 .files = false ∧ refuses 2 .selectedFile = false)
  | _ => True

/-- Where the tab listens to clicks and saves, they go through exactly while the
setting is on. -/
def Heeds (p : Page) (e : PageEvent) : Prop :=
  p.tab.subsInitialized = true → p.Notifies e → (p.Granted e ↔ p.settings.autoCompile = true)

end Page

/-! ## What a click and a save do -/

section

variable {ace : Ace} {refuses : Refusals} {file : FileRef} {w : World}

/-- **A save announces the file** where it changes the content, whether or not
it can then be written. -/
theorem saveSelectedFile_ends :
    (after (saveSelectedFile refuses) w).window.selectedFile = w.window.selectedFile ∧
      ((after (saveSelectedFile refuses) w).savedEvents.length ≠ w.savedEvents.length ↔
        ∃ file ∈ w.window.selectedFile, (w.window.heap file).content ≠ w.window.text) := by
  refine (wp_iff_after (I := fun w' : World => w'.window.selectedFile = w.window.selectedFile ∧
    (w'.savedEvents.length ≠ w.savedEvents.length ↔ ∃ file ∈ w.window.selectedFile,
      (w.window.heap file).content ≠ w.window.text))).1 ?_
  refine wp_saveSelectedFile (fun hnone => ⟨rfl, iff_of_false (by simp) ?_⟩) fun file hfile => ?_
  · rw [hnone]
    rintro ⟨_, ⟨⟩, -⟩
  simp only [saveFile, wp_bind, wp_get, wp_ite, wp_modify, wp_modifyWindow]
  refine ⟨fun hchanged => ?_, fun hsame => ?_⟩
  · have hsaved : (w.savedEvents ++ [file]).length ≠ w.savedEvents.length := by simp
    exact wp_saveFileTree (fun _ => ⟨rfl, iff_of_true hsaved ⟨file, hfile, hchanged⟩⟩)
      fun _ => ⟨rfl, iff_of_true hsaved ⟨file, hfile, hchanged⟩⟩
  · have hnone : ¬ ∃ file ∈ w.window.selectedFile,
        (w.window.heap file).content ≠ w.window.text := by
      rintro ⟨file', hfile', hchanged⟩
      obtain rfl := Option.some.inj (hfile.symm.trans hfile')
      exact hsame hchanged
    exact wp_saveFileTree (fun _ => ⟨rfl, iff_of_false (by simp) hnone⟩)
      fun _ => ⟨rfl, iff_of_false (by simp) hnone⟩

end

/-! ## Which events start a compilation -/

section

variable {ace : Ace} {scripts : Compiler → Prop} {refuses : Refusals} {p : Page}

theorem calls_notify {files : World} : ((p.withFiles files).notify).tab.service.calls ≠
      p.tab.service.calls ↔ p.tab.subsInitialized = true ∧ files.window.selectedFile ≠ none := by
  have hnotified := @requests_iff_calls (fun _ => True) (p.withFiles files).tab .notified
  refine hnotified.trans (and_congr Iff.rfl (not_congr ?_))
  exact Option.map_eq_none_iff

/-- **A click starts a compilation** where what selects the file returns. -/
theorem starts_click {op : Op} {P : Prop}
    (h : wp (op.exec ace refuses) (fun _ w' => P ∧ w'.window.selectedFile ≠ none) (fun _ _ => ¬ P)
      p.files.begin) :
    (p.click ace op refuses).tab.service.calls ≠ p.tab.service.calls ↔
      p.tab.subsInitialized = true ∧ P := by
  unfold wp at h
  unfold Page.click
  rcases hexec : op.exec ace refuses p.files.begin with ⟨_, files⟩ | ⟨_, files⟩
  · rw [hexec] at h
    refine calls_notify.trans ?_
    rw [and_iff_left h.2, and_iff_left h.1]
  · rw [hexec] at h
    exact iff_of_false (fun hne => hne rfl) fun hand => h hand.2

/-- **A save starts a compilation** where it changes the content. -/
theorem starts_save : (p.save ace refuses).tab.service.calls ≠ p.tab.service.calls ↔
    p.tab.subsInitialized = true ∧ p.Notifies (.saveFile refuses) := by
  obtain ⟨hselected, hsaved⟩ := @saveSelectedFile_ends refuses p.files.begin
  unfold Page.save
  dsimp only
  split
  · next hlength =>
    refine iff_of_false (fun hne => hne rfl) fun hand => ?_
    exact hsaved.2 hand.2 hlength
  · next hlength =>
    -- the file was announced, and is still selected
    have hnotifies : p.Notifies (.saveFile refuses) := hsaved.1 hlength
    refine calls_notify.trans (and_congr_right fun _ => ?_)
    refine iff_of_true (fun hnone => ?_) hnotifies
    obtain ⟨file, hfile, -⟩ := hnotifies
    exact Option.some_ne_none file (hfile.symm.trans (hselected.symm.trans hnone))

/-- **What starts a compilation**: the button, a compiler, and a click or a save
that goes through once the tab listens. -/
theorem starts_iff (e : PageEvent) (he : ¬ Page.Explicit e)
    (hen : (pageDesk ace scripts).enabled p e) : p.Starts ace scripts e ↔
      p.tab.subsInitialized = true ∧ p.Notifies e ∧ p.Granted e := by
  cases e with
  | files op refuses => exact iff_of_false (fun hne => hne rfl) fun h => h.2.1
  | setAutoCompile autoCompile refuses => exact iff_of_false (fun hne => hne rfl) fun h => h.2.1
  | openFile file refuses =>
    refine (starts_click (P := p.Granted (.openFile file refuses)) ?_).trans
      (and_congr_right fun _ => (and_iff_right trivial).symm)
    refine openFile_ends.imp fun _ w' h => ⟨h.1, ?_⟩
    rw [h.2.2]
    exact Option.some_ne_none file
  | selectFile file refuses =>
    refine (starts_click (P := p.Granted (.selectFile file refuses)) ?_).trans
      (and_congr_right fun _ => (and_iff_right trivial).symm)
    refine selectFile_ends.imp fun _ w' h => ⟨h.1, ?_⟩
    rw [h.2]
    exact Option.some_ne_none file
  | saveFile refuses =>
    exact starts_save.trans (and_congr_right fun _ => (and_iff_left trivial).symm)
  | tab e =>
    refine iff_of_false (fun hne => ?_) fun h => h.2.1
    have hrequests := (@requests_iff_calls scripts p.tab e).1 hne
    obtain ⟨hown, -⟩ := hen
    cases e with
    | press => exact he (.inl rfl)
    | microtask => exact he (.inr (.inl rfl))
    | timeout => exact he (.inr (.inr rfl))
    | notified =>
      -- it comes with a click or a save, never by itself
      exact hown
    | change _ | loadCompiler _ | poll _ | setOptimize _ | work _ | deliver _ => exact hrequests

/-- **One event obeys the setting** where it heeds it, and only there. -/
theorem obeys_iff_heeds (e : PageEvent) (hen : (pageDesk ace scripts).enabled p e) :
    p.Obeys ace scripts e ↔ p.Heeds e := by
  by_cases he : Page.Explicit e
  · refine iff_of_true ⟨fun _ _ => he, fun _ _ hnotifies => ?_⟩ fun _ hnotifies => ?_
    · cases e with
      | tab e => exact hnotifies.elim
      | _ => exact he.elim
    · cases e with
      | tab e => exact hnotifies.elim
      | _ => exact he.elim
  have hstarts := starts_iff e he hen
  constructor
  · rintro ⟨hoff, hon⟩ hlistens hnotifies
    rcases hauto : p.settings.autoCompile
    · refine iff_of_false (fun hgranted => ?_) Bool.false_ne_true
      exact he (hoff hauto (hstarts.2 ⟨hlistens, hnotifies, hgranted⟩))
    · exact iff_of_true (hstarts.1 (hon hauto hlistens hnotifies)).2.2 rfl
  · intro hheeds
    refine ⟨fun hauto hstart => ?_, fun hauto hlistens hnotifies => ?_⟩
    · obtain ⟨hlistens, hnotifies, hgranted⟩ := hstarts.1 hstart
      exact Bool.noConfusion (hauto.symm.trans ((hheeds hlistens hnotifies).1 hgranted))
    · exact hstarts.2 ⟨hlistens, hnotifies, (hheeds hlistens hnotifies).2 hauto⟩

end

/-- **A run obeys the setting `autoCompile`** exactly where each of its events
heeds it. -/
theorem autoCompile_is_obeyed_iff {ace : Ace} {scripts : Compiler → Prop} {p : Page}
    {es : List PageEvent} (h : (pageDesk ace scripts).Admits p es) :
    (pageDesk ace scripts).Each (Page.Obeys ace scripts) p es ↔
      (pageDesk ace scripts).Each Page.Heeds p es :=
  Machine.each_congr h fun _ e hen => obeys_iff_heeds e hen

/-- The page, opened over an empty storage. -/
def openedPage : Page :=
  let files := World.fresh Ace.brace
  ⟨files, .initial,
    (CompileTab.new (.new true true true) files.workspace).loadCompiler (some contentCompiler)⟩

theorem openedPage_start : (pageDesk Ace.brace (· = contentCompiler)).start openedPage := by
  refine ⟨LocalStorage.empty, Refusals.nothing, true, some contentCompiler, ?_, rfl⟩
  rintro _ ⟨⟩
  rfl

/-- A file is created, the compiler is loaded, the setting set and the file
clicked. -/
def clicked (autoCompile : Bool) : List PageEvent :=
  [.files (.createFile "u1" "A.sol") Refusals.nothing, .tab (.work 0), .tab (.deliver 0),
    .tab .microtask, .setAutoCompile autoCompile Refusals.nothing, .openFile 0 Refusals.nothing]

theorem clicked_admitted (autoCompile : Bool) :
    (pageDesk Ace.brace (· = contentCompiler)).Admits openedPage (clicked autoCompile) :=
  ⟨⟨⟨rfl, rfl⟩, trivial, by decide⟩, ⟨trivial, trivial⟩, ⟨trivial, ⟨rfl, rfl⟩⟩,
    ⟨trivial, trivial⟩, ⟨⟨rfl, rfl⟩, rfl⟩, ⟨⟨rfl, rfl⟩, List.mem_cons_self⟩,
    trivial⟩

theorem clicked_obeys : (pageDesk Ace.brace (· = contentCompiler)).Each
    (Page.Obeys Ace.brace (· = contentCompiler)) openedPage (clicked true) :=
  (autoCompile_is_obeyed_iff (clicked_admitted true)).2
    ⟨nofun, nofun, nofun, nofun, nofun, fun _ _ => iff_of_true ⟨rfl, rfl⟩ rfl, trivial⟩

/-- **The setting is off, and a click compiles.** -/
theorem click_compiles_all_the_same : ¬ ∀ (ace : Ace) (scripts : Compiler → Prop) (p : Page)
    (es : List PageEvent), (pageDesk ace scripts).start p → (pageDesk ace scripts).Admits p es →
      (pageDesk ace scripts).Each (Page.Obeys ace scripts) p es := by
  intro h
  have heach := h _ _ _ _ openedPage_start (clicked_admitted false)
  obtain ⟨-, -, -, -, -, hobeys, -⟩ := heach
  exact hobeys.off rfl (Nat.succ_ne_self 1)

end Hmix
