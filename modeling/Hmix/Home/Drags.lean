import Hmix.Home.Sizes
import Mathlib.Algebra.Order.Field.Basic
import Mathlib.Algebra.Order.Field.Rat
import Mathlib.Tactic.Ring

/-!
# Drags

A move changes a size by as much as the mouse went since the move before, cuts
it to the limits, and records where the mouse is by now. So as long as nothing
is cut the size follows the mouse, and where a drag went leaves no trace. A move
that is stopped parts the two, and the drag goes on as one that starts there.
-/

namespace Hmix

open HomeComponent

/-- A move of the mouse. -/
structure MouseMove where
  clientX : ℚ
  clientY : ℚ
  /-- The writes that are refused. -/
  refuses : StorageKey → Bool

def MouseMove.event (m : MouseMove) : HomeEvent := .mouseMove m.clientX m.clientY m.refuses

/-- The two dividers. -/
inductive Divider where
  | sidebar
  | terminal

namespace Divider

/-- A mouse-down on the divider. -/
def press : Divider → ℚ → HomeEvent
  | sidebar, start => .resizeSidebar start
  | terminal, start => .resizeTerminal start

/-- The size of its panel. -/
def size : Divider → HomeComponent → ℚ
  | sidebar, home => home.sidebarWidth
  | terminal, home => home.terminalHeight

/-- Where the mouse was last, as far as the component recorded it. -/
def position : Divider → HomeComponent → ℚ
  | sidebar, home => home.lastX
  | terminal, home => home.lastY

/-- Where the move takes the mouse. -/
def along : Divider → MouseMove → ℚ
  | sidebar, m => m.clientX
  | terminal, m => m.clientY

/-- Where the size is stored. -/
def key : Divider → StorageKey
  | sidebar => .sidebarWidth
  | terminal => .terminalHeight

/-- It is this divider that a move drags. -/
def Drags : Divider → HomeComponent → Prop
  | sidebar, home => home.resizingSidebar = true
  | terminal, home => home.resizingSidebar = false ∧ home.resizingTerminal = true

/-- The size a move to `p` asks for. The terminal grows as the mouse goes up. -/
def asked : Divider → ℚ → ℚ → ℚ → ℚ
  | sidebar, size, position, p => size + p - position
  | terminal, size, position, p => size - p + position

/-- The size it gets. -/
def allowed (window : WindowSize) : Divider → ℚ → ℚ → ℚ
  | sidebar, size, p =>
    if minSidebarWidth < p then min (max size minSidebarWidth) window.maxSidebarWidth else 0
  | terminal, size, p =>
    if p < window.windowHeight - minTerminalHeight then
      min (max size minTerminalHeight) window.maxTerminalHeight
    else minTerminalHeight

variable (window : WindowSize) (d : Divider)

/-- At `p` the size is allowed that is asked for. -/
def Fits (home : HomeComponent) (p : ℚ) : Prop :=
  d.allowed window (d.asked (d.size home) (d.position home) p) p =
    d.asked (d.size home) (d.position home) p

/-- **A drag**: a mouse-down on the divider, and moves. -/
def drag (home : HomeComponent) (start : ℚ) (ms : List MouseMove) : HomeComponent :=
  (homeDesk window).run home (d.press start :: ms.map MouseMove.event)

/-- Where the mouse is after the moves. -/
def lastPosition (start : ℚ) (ms : List MouseMove) : ℚ :=
  (ms.getLast?.map d.along).getD start

/-- **No move but the last is stopped**: wherever the mouse goes the size is
allowed that is asked for there, and the write is not refused. -/
def Unstopped (home : HomeComponent) (ms : List MouseMove) : Prop :=
  d.Drags home → ∀ m ∈ ms.dropLast, d.Fits window home (d.along m) ∧ m.refuses d.key = false

variable {window d} {home home' : HomeComponent} {m : MouseMove} {ms : List MouseMove}

/-! ## One move -/

/-- **A move that drags the divider**: the drag goes on, the size is what is
allowed of what is asked for, and the position is recorded after the write. -/
structure Moved (window : WindowSize) (d : Divider) (m : MouseMove) (home home' : HomeComponent) :
    Prop where
  drags : d.Drags home'
  size : d.size home' =
    d.allowed window (d.asked (d.size home) (d.position home) (d.along m)) (d.along m)
  position : m.refuses d.key = false → d.position home' = d.along m

theorem moved (window : WindowSize) (m : MouseMove) (h : d.Drags home) :
    Moved window d m home ((homeDesk window).step home m.event) := by
  refine (wp_iff_after (m := onMouseMove window m.refuses m.clientX m.clientY)).1 ?_
  cases d with
  | sidebar =>
    have hside : home.resizingSidebar = true := h
    simp only [onMouseMove, wp_bind, wp_get, if_pos hside]
    refine wp_iff_after.2 ?_
    rw [after_dragSidebar rfl]
    exact ⟨hside, rfl, fun hwritten => if_neg (Bool.eq_false_iff.1 hwritten)⟩
  | terminal =>
    obtain ⟨hside, hterminal⟩ := h
    simp only [onMouseMove, wp_bind, wp_get, hside, if_pos hterminal, Bool.false_eq_true, if_false]
    refine wp_iff_after.2 ?_
    rw [after_dragTerminal rfl]
    exact ⟨⟨hside, hterminal⟩, rfl, fun hwritten => if_neg (Bool.eq_false_iff.1 hwritten)⟩

/-- A move that does not drag it: the size stays, and so it does later. -/
theorem idle (window : WindowSize) (m : MouseMove) (h : ¬ d.Drags home) :
    ¬ d.Drags ((homeDesk window).step home m.event) ∧
      d.size ((homeDesk window).step home m.event) = d.size home := by
  refine (wp_iff_after (m := onMouseMove window m.refuses m.clientX m.clientY)
    (I := fun home' => ¬ d.Drags home' ∧ d.size home' = d.size home)).1 ?_
  simp only [onMouseMove, wp_bind, wp_get, wp_ite]
  refine ⟨fun hside => ?_, fun hside => ⟨fun hterminal => ?_, fun _ => ⟨h, rfl⟩⟩⟩
  · cases d with
    | sidebar => exact absurd hside h
    | terminal =>
      refine wp_iff_after.2 ?_
      rw [after_dragSidebar rfl]
      exact ⟨h, rfl⟩
  · cases d with
    | sidebar =>
      refine wp_iff_after.2 ?_
      rw [after_dragTerminal rfl]
      exact ⟨h, rfl⟩
    | terminal => exact absurd ⟨Bool.eq_false_of_not_eq_true hside, hterminal⟩ h

/-! ## What is asked for -/

/-- Nothing but the place is asked for. -/
theorem asked_self (size p : ℚ) : d.asked size p p = size := by
  cases d <;> simp [asked]

/-- A move that gets what it asks for may be left out. -/
theorem asked_asked (size p q r : ℚ) : d.asked (d.asked size p q) q r = d.asked size p r := by
  cases d <;> simp only [asked] <;> ring

/-! ## Moves that are not stopped -/

/-- **The size has followed the mouse**, since it was that of `origin`. -/
structure Follows (d : Divider) (origin home : HomeComponent) : Prop where
  drags : d.Drags home
  size : d.size home = d.asked (d.size origin) (d.position origin) (d.position home)

variable {origin : HomeComponent}

theorem Follows.refl (h : d.Drags home) : Follows d home home :=
  ⟨h, (asked_self _ _).symm⟩

/-- So it is as if every move were the first one. -/
theorem Follows.asked (h : Follows d origin home) (p : ℚ) :
    d.asked (d.size home) (d.position home) p =
      d.asked (d.size origin) (d.position origin) p := by
  rw [h.size, asked_asked]

/-- **A move that is not stopped is followed.** -/
theorem Follows.step (h : Follows d origin home) (hfits : d.Fits window origin (d.along m))
    (hwritten : m.refuses d.key = false) :
    Follows d origin ((homeDesk window).step home m.event) := by
  have hmoved := moved window m h.drags
  refine ⟨hmoved.drags, ?_⟩
  rw [hmoved.size, hmoved.position hwritten, h.asked]
  exact hfits

/-- And so are any number of them. -/
theorem Follows.run (h : Follows d origin home)
    (hms : ∀ m ∈ ms, d.Fits window origin (d.along m) ∧ m.refuses d.key = false) :
    Follows d origin ((homeDesk window).run home (ms.map MouseMove.event)) := by
  induction ms generalizing home with
  | nil => exact h
  | cons m ms ih =>
    obtain ⟨hfits, hwritten⟩ := hms m List.mem_cons_self
    exact ih (h.step hfits hwritten) fun m' hm' => hms m' (List.mem_cons_of_mem m hm')

/-- **Where the drag ends**, if no move but the last is stopped: at what the
last is allowed of what it would ask for if it were the only one. -/
theorem size_moves (hdrags : d.Drags home) (hms : d.Unstopped window home ms)
    (hnone : ms = [] → d.Fits window home (d.position home)) :
    d.size ((homeDesk window).run home (ms.map MouseMove.event)) =
      d.allowed window (d.asked (d.size home) (d.position home)
        (d.lastPosition (d.position home) ms)) (d.lastPosition (d.position home) ms) := by
  rcases List.eq_nil_or_concat ms with rfl | ⟨init, m, rfl⟩
  · exact ((hnone rfl).trans (asked_self _ _)).symm
  · have hinit : ∀ m' ∈ init, d.Fits window home (d.along m') ∧ m'.refuses d.key = false := by
      simpa [Unstopped] using hms hdrags
    have hfollows := (Follows.refl hdrags).run hinit
    rw [List.concat_eq_append, List.map_append, Machine.run_append]
    refine (moved window _ hfollows.drags).size.trans ?_
    rw [hfollows.asked]
    simp [lastPosition]

/-- Moves that do not drag the divider change no size. -/
theorem size_idle (h : ¬ d.Drags home) :
    d.size ((homeDesk window).run home (ms.map MouseMove.event)) = d.size home := by
  induction ms generalizing home with
  | nil => rfl
  | cons m ms ih =>
    obtain ⟨hstill, hsize⟩ := idle window m h
    exact (ih hstill).trans hsize

/-! ## Moves that are stopped -/

/-- How far the size is from the mouse, or the terminal's from where it would be
if the mouse were at the top. -/
def grip : Divider → ℚ → ℚ → ℚ
  | sidebar, size, position => size - position
  | terminal, size, position => size + position

/-- From here on the size is as large as it gets, wherever the mouse may be. -/
def farthest (window : WindowSize) : Divider → ℚ
  | sidebar => window.maxSidebarWidth - minSidebarWidth
  | terminal => window.maxTerminalHeight + window.maxTerminalHeight

/-- The position is not out of the window at the far end. -/
def Inside (window : WindowSize) : Divider → ℚ → Prop
  | sidebar, p => 0 ≤ p
  | terminal, p => p ≤ window.windowHeight

theorem clamp_lt_clamp {lo hi a b : ℚ} (h : lo < hi) (hab : a < b) (ha : a < hi) (hb : lo < b) :
    min (max a lo) hi < min (max b lo) hi := by
  have hlow : max a lo < max b lo := max_lt (lt_max_of_lt_left hab) (lt_max_of_lt_left hb)
  exact lt_min (min_lt_of_left_lt hlow) (min_lt_of_left_lt (max_lt ha h))

/-- **Where the grips are different the mouse can tell them apart**: there is a
position that makes of them different sizes. -/
theorem told_apart (hroomy : Roomy window) {size size' p p' : ℚ}
    (hlt : d.grip size p < d.grip size' p') (hfar : d.grip size p < d.farthest window) :
    ∃ q, d.allowed window (d.asked size p q) q < d.allowed window (d.asked size' p' q) q := by
  have hwidth := hroomy.windowWidth
  have hheight := hroomy.windowHeight
  cases d with
  | sidebar =>
    have hroom : minSidebarWidth < window.maxSidebarWidth := by
      unfold WindowSize.maxSidebarWidth minSidebarWidth
      linarith
    simp only [grip, farthest] at hlt hfar
    have hbetween : max minSidebarWidth (minSidebarWidth - (size' - p')) <
        window.maxSidebarWidth - (size - p) := max_lt (by linarith) (by linarith)
    obtain ⟨q, hlow, hhigh⟩ := exists_between hbetween
    obtain ⟨hopen, hlow⟩ : minSidebarWidth < q ∧ minSidebarWidth - (size' - p') < q :=
      max_lt_iff.1 hlow
    refine ⟨q, ?_⟩
    simp only [allowed, asked, if_pos hopen]
    exact clamp_lt_clamp hroom (by linarith) (by linarith) (by linarith)
  | terminal =>
    have hroom : minTerminalHeight < window.maxTerminalHeight := by
      unfold WindowSize.maxTerminalHeight minTerminalHeight
      linarith
    simp only [grip, farthest] at hlt hfar
    have hbetween : size + p - window.maxTerminalHeight <
        min window.maxTerminalHeight (size' + p' - minTerminalHeight) :=
      lt_min (by linarith) (by linarith)
    obtain ⟨q, hlow, hhigh⟩ := exists_between hbetween
    obtain ⟨hopen, hhigh⟩ : q < window.windowHeight - minTerminalHeight ∧
        q < size' + p' - minTerminalHeight := lt_min_iff.1 hhigh
    refine ⟨q, ?_⟩
    simp only [allowed, asked, if_pos hopen]
    exact clamp_lt_clamp hroom (by linarith) (by linarith) (by linarith)

/-- What is allowed is not so far. -/
theorem grip_allowed_lt (hroomy : Roomy window) (size : ℚ) {p : ℚ} (hinside : d.Inside window p) :
    d.grip (d.allowed window size p) p < d.farthest window := by
  have hwidth := hroomy.windowWidth
  have hheight := hroomy.windowHeight
  cases d with
  | sidebar =>
    have hp : 0 ≤ p := hinside
    simp only [grip, allowed, farthest]
    split_ifs with hopen
    · have hle := min_le_right (max size minSidebarWidth) window.maxSidebarWidth
      linarith
    · unfold WindowSize.maxSidebarWidth minSidebarWidth
      linarith
  | terminal =>
    have hp : p ≤ window.windowHeight := hinside
    simp only [grip, allowed, farthest]
    split_ifs with hhigh
    · have hle := min_le_right (max size minTerminalHeight) window.maxTerminalHeight
      unfold WindowSize.maxTerminalHeight at *
      linarith
    · unfold WindowSize.maxTerminalHeight minTerminalHeight
      linarith

/-- A smaller size is nearer. -/
theorem grip_lt_grip {size size' p : ℚ} : d.grip size p < d.grip size' p ↔ size < size' := by
  cases d <;> simp [grip]

/-- **Just the moves that are not stopped leave no trace**: in a window with
room, a move within it whose write is not refused may be left out of the drag
whatever the next is, if and only if it gets what it asks for. -/
theorem leaves_no_trace_iff (hroomy : Roomy window) (hdrags : d.Drags home)
    (hwritten : m.refuses d.key = false) (hinside : d.Inside window (d.along m)) :
    (∀ m' : MouseMove, d.size ((homeDesk window).run home [m.event, m'.event]) =
      d.size ((homeDesk window).run home [m'.event])) ↔ d.Fits window home (d.along m) := by
  have hmoved := moved window m hdrags
  constructor
  · intro hsame
    have hnext : ∀ q, d.allowed window (d.asked (d.allowed window (d.asked (d.size home)
        (d.position home) (d.along m)) (d.along m)) (d.along m) q) q =
        d.allowed window (d.asked (d.size home) (d.position home) q) q := by
      intro q
      have halong : d.along ⟨q, q, m.refuses⟩ = q := by cases d <;> rfl
      have hboth := (moved window ⟨q, q, m.refuses⟩ hmoved.drags).size
      have hone := (moved window ⟨q, q, m.refuses⟩ hdrags).size
      rw [hmoved.size, hmoved.position hwritten, halong] at hboth
      rw [halong] at hone
      exact hboth.symm.trans ((hsame ⟨q, q, m.refuses⟩).trans hone)
    have hfar := grip_allowed_lt hroomy
      (d.asked (d.size home) (d.position home) (d.along m)) hinside
    by_contra hstopped
    rcases lt_or_gt_of_ne hstopped with hlt | hlt
    · obtain ⟨q, hq⟩ := told_apart hroomy (grip_lt_grip.2 hlt) hfar
      rw [hnext, asked_asked] at hq
      exact lt_irrefl _ hq
    · obtain ⟨q, hq⟩ := told_apart hroomy (grip_lt_grip.2 hlt) ((grip_lt_grip.2 hlt).trans hfar)
      rw [hnext, asked_asked] at hq
      exact lt_irrefl _ hq
  · intro hfits m'
    have hfollows := (Follows.refl hdrags).step hfits hwritten
    refine (moved window _ hfollows.drags).size.trans ?_
    rw [hfollows.asked]
    exact (moved window _ hdrags).size.symm

/-! ## Two drags -/

/-- **Two drags from a moment on**, at which they have the size and the position
in common. -/
theorem end_alike {ms' : List MouseMove} (hdrags : d.Drags home ↔ d.Drags home')
    (hsize : d.size home = d.size home') (hposition : d.position home = d.position home')
    (hms : d.Unstopped window home ms) (hms' : d.Unstopped window home' ms')
    (hlast : d.lastPosition (d.position home) ms = d.lastPosition (d.position home') ms')
    (hnone : (ms = [] ↔ ms' = []) ∨ d.Fits window home (d.position home)) :
    d.size ((homeDesk window).run home (ms.map MouseMove.event)) =
      d.size ((homeDesk window).run home' (ms'.map MouseMove.event)) := by
  by_cases hdrag : d.Drags home
  · have hfits : d.Fits window home (d.position home) →
        d.Fits window home' (d.position home') := by
      unfold Fits
      rw [hsize, hposition]
      exact id
    by_cases hempty : ms = [] ∧ ms' = []
    · rw [hempty.1, hempty.2]
      exact hsize
    · rw [size_moves hdrag hms fun h => ?_, size_moves (hdrags.1 hdrag) hms' fun h => ?_,
        hlast, hsize, hposition]
      · exact hfits (hnone.resolve_left fun hiff => hempty ⟨hiff.2 h, h⟩)
      · exact hnone.resolve_left fun hiff => hempty ⟨h, hiff.1 h⟩
  · rw [size_idle hdrag, size_idle (mt hdrags.2 hdrag)]
    exact hsize

/-- **Where a drag went leaves no trace but for where it was stopped.** Two
drags of a divider end with the same size if they have the size, the recorded
position, and whether they drag the divider at all, in common at their starts or
after any moves of either, if no later move but the last is stopped, and if the
mouse is last at the same position. A drag that has no further moves is compared
with one that has if the size is allowed where the mouse is. -/
theorem drags_end_alike {start start' : ℚ} {before before' ms ms' : List MouseMove}
    (hdrags : d.Drags (d.drag window home start before) ↔
      d.Drags (d.drag window home' start' before'))
    (hsize : d.size (d.drag window home start before) =
      d.size (d.drag window home' start' before'))
    (hposition : d.position (d.drag window home start before) =
      d.position (d.drag window home' start' before'))
    (hms : d.Unstopped window (d.drag window home start before) ms)
    (hms' : d.Unstopped window (d.drag window home' start' before') ms')
    (hlast : d.lastPosition (d.position (d.drag window home start before)) ms =
      d.lastPosition (d.position (d.drag window home' start' before')) ms')
    (hnone : (ms = [] ↔ ms' = []) ∨ d.Fits window (d.drag window home start before)
      (d.position (d.drag window home start before))) :
    d.size (d.drag window home start (before ++ ms)) =
      d.size (d.drag window home' start' (before' ++ ms')) := by
  have happend : ∀ (home : HomeComponent) start before ms,
      d.drag window home start (before ++ ms) = (homeDesk window).run
        (d.drag window home start before) (ms.map MouseMove.event) := by
    intro home start before ms
    simp only [drag, List.map_append, Machine.run_append, Machine.run]
  rw [happend, happend]
  exact end_alike hdrags hsize hposition hms hms' hlast hnone

/-- A page that is loaded for the first time. -/
def freshPage : HomeComponent := load (fun _ => false) .empty

/-- The mouse moves, and no write is refused. -/
def moveTo (clientX clientY : ℚ) : MouseMove := ⟨clientX, clientY, fun _ => false⟩

/-- The sidebar is closed by one drag at once, and by another after it was made
as large as it gets; what they do then is the same. -/
theorem closed_end_alike : size sidebar (drag ⟨1024, 768⟩ sidebar freshPage 250
      ([moveTo 100 0] ++ [moveTo 260 0, moveTo 300 0])) =
    size sidebar (drag ⟨1024, 768⟩ sidebar freshPage 240
      ([moveTo 2000 0, moveTo 100 5] ++ [moveTo 300 7])) := by
  refine drags_end_alike (iff_of_true rfl rfl) (by decide +kernel) (by decide +kernel) ?_ ?_ rfl
    (.inl (by decide +kernel))
  · rintro - m hm
    obtain rfl : m = moveTo 260 0 := by simpa using hm
    exact ⟨by unfold Fits; decide +kernel, rfl⟩
  · rintro - m hm
    simp at hm

/-- However a drag went, it ends as every other with the same start and the same
last position. -/
def PathFree (d : Divider) : Prop :=
  ∀ (window : WindowSize) (home : HomeComponent), (homeDesk window).Reachable home →
    ∀ start ms ms', d.lastPosition start ms = d.lastPosition start ms' →
      d.size (d.drag window home start ms) = d.size (d.drag window home start ms')

/-- **The path of a drag matters.** The sidebar's divider is moved too far to the
left, the terminal's too far down, and both are moved back to where they were. -/
theorem path_of_drag_matters : ¬ PathFree sidebar ∧ ¬ PathFree terminal := by
  have hreach : (homeDesk ⟨1024, 768⟩).Reachable freshPage :=
    .start ⟨.empty, fun _ => false, rfl, rfl, rfl⟩
  constructor
  · intro h
    have hsame := h ⟨1024, 768⟩ freshPage hreach 250 [moveTo 100 0, moveTo 250 0] [moveTo 250 0] rfl
    exact absurd hsame (by decide +kernel)
  · intro h
    have hsame := h ⟨1024, 768⟩ freshPage hreach 518 [moveTo 0 700, moveTo 0 518] [moveTo 0 518] rfl
    exact absurd hsame (by decide +kernel)

end Divider

end Hmix
