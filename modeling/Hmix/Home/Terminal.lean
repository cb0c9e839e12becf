import Hmix.Model.Terminal

/-!
# The terminal's history

An arrow key stores the input in the entry it leaves. At the draft this is what
the draft is for; at a recalled command it changes that command's entry to what
the user made of it. So the history has one entry for each executed command, in
order, and an entry is what was executed until an arrow key leaves it edited.
-/

namespace Hmix

/-- An entry that is left has the input. -/
theorem Executed.shown_leave (text : String) (c : Executed) :
    (c.leave (some text)).shown = text := by
  unfold Executed.leave
  split_ifs with h
  · exact (Option.some.inj h).symm
  · rfl

theorem Executed.map_modify_leave (text : String) : ∀ (j : ℕ) (executed : List Executed),
    ((executed.modify j (leave (some text))).map fun c => some c.shown) =
      (executed.map fun c => some c.shown).set j (some text)
  | _, [] => by simp
  | 0, c :: executed => by simp [shown_leave]
  | j + 1, c :: executed => by simpa using map_modify_leave text j executed

namespace Terminal

variable {t : Terminal} {d : ℤ}

/-- **The history is the draft and the executed commands**, and the index is one
of it. -/
structure InOrder (t : Terminal) : Prop where
  nonneg : 0 ≤ t.historyIndex
  history : ∃ draft, t.commandHistory = draft :: t.executed.map (fun c => some c.shown) ∧
    (t.historyIndex ≠ 0 → draft ≠ none)
  inRange : t.historyIndex ≤ t.executed.length
  /-- Whoever executed a command has typed. -/
  typed : t.executed ≠ [] → t.terminalCommand ≠ none

theorem inOrder_new : InOrder new :=
  ⟨Int.le_refl 0, ⟨some "", rfl, fun h => absurd rfl h⟩, Int.le_refl 0, fun h => absurd rfl h⟩

/-- A recalled entry is below the draft. -/
theorem InOrder.recalled (h : InOrder t) (h0 : t.historyIndex ≠ 0) :
    ∃ j, t.historyIndex = (j + 1 : ℕ) ∧ j < t.executed.length := by
  have hnonneg := h.nonneg
  have hrange := h.inRange
  exact ⟨t.historyIndex.toNat - 1, by omega, by omega⟩

/-! ## The arrow keys -/

/-- **What an arrow key stores**: the input, in the draft or in the entry of the
recalled command. -/
theorem InOrder.stored (h : InOrder t) : ∃ draft,
    (t.loadCommandFromHistory d).commandHistory =
      draft :: (t.loadCommandFromHistory d).executed.map (fun c => some c.shown) ∧
    (t.terminalCommand ≠ none → draft ≠ none) := by
  obtain ⟨draft, hhistory, hdraft⟩ := h.history
  by_cases h0 : t.historyIndex = 0
  · refine ⟨t.terminalCommand, ?_, id⟩
    simp [loadCommandFromHistory, h0, hhistory]
  · obtain ⟨j, hj, hlt⟩ := h.recalled h0
    obtain ⟨text, htext⟩ := Option.ne_none_iff_exists'.1
      (h.typed (List.ne_nil_of_length_pos (Nat.zero_lt_of_lt hlt)))
    have hj' : t.historyIndex.toNat = j + 1 := by omega
    refine ⟨draft, ?_, fun _ => hdraft h0⟩
    simp only [loadCommandFromHistory, if_neg h0, hj', hhistory, htext, List.set_cons_succ,
      Nat.add_sub_cancel, Executed.map_modify_leave]

/-- An arrow key adds no entry. -/
theorem length_loaded : (t.loadCommandFromHistory d).executed.length = t.executed.length := by
  simp only [loadCommandFromHistory]
  split_ifs
  · rfl
  · exact List.length_modify _ _ _

/-- It moves the index, as far as the history goes. -/
theorem InOrder.index_loaded (h : InOrder t) : (t.loadCommandFromHistory d).historyIndex =
    max 0 (min (t.historyIndex + d) t.executed.length) := by
  obtain ⟨draft, hhistory, -⟩ := h.history
  have hlength : (t.commandHistory.set t.historyIndex.toNat t.terminalCommand).length =
      t.executed.length + 1 := by simp [hhistory]
  simp only [loadCommandFromHistory, hlength]
  split_ifs <;> push_cast at * <;> omega

/-- **What it loads**: the draft, or a command. -/
theorem InOrder.command_loaded (h : InOrder t) :
    ((t.loadCommandFromHistory d).historyIndex = 0 ∧
      (t.terminalCommand ≠ none → (t.loadCommandFromHistory d).terminalCommand ≠ none)) ∨
    ∃ j c, (t.loadCommandFromHistory d).historyIndex = (j + 1 : ℕ) ∧
      (t.loadCommandFromHistory d).executed[j]? = some c ∧
      (t.loadCommandFromHistory d).terminalCommand = some c.shown := by
  obtain ⟨draft, hstored, hdraft⟩ := h.stored (d := d)
  have hindex := h.index_loaded (d := d)
  have hcommand : (t.loadCommandFromHistory d).terminalCommand =
      ((t.loadCommandFromHistory d).commandHistory[
        (t.loadCommandFromHistory d).historyIndex.toNat]?).join := rfl
  rw [hstored] at hcommand
  by_cases h0 : (t.loadCommandFromHistory d).historyIndex = 0
  · refine .inl ⟨h0, fun hsome => ?_⟩
    rw [hcommand, h0]
    exact hdraft hsome
  · obtain ⟨j, hj, hlt⟩ : ∃ j : ℕ, (t.loadCommandFromHistory d).historyIndex = (j + 1 : ℕ) ∧
        j < t.executed.length :=
      ⟨(t.loadCommandFromHistory d).historyIndex.toNat - 1, by omega, by omega⟩
    have hget := List.getElem?_eq_getElem (hlt.trans_eq (length_loaded (d := d)).symm)
    refine .inr ⟨j, _, hj, hget, ?_⟩
    rw [hcommand, hj]
    simp [hget]

/-- **An arrow key keeps the history in order.** -/
theorem InOrder.load (h : InOrder t) : InOrder (t.loadCommandFromHistory d) := by
  have hindex := h.index_loaded (d := d)
  have hlength := length_loaded (t := t) (d := d)
  have hexecuted : (t.loadCommandFromHistory d).executed ≠ [] → t.terminalCommand ≠ none :=
    fun hne => h.typed (List.ne_nil_of_length_pos (hlength ▸ List.length_pos_of_ne_nil hne))
  obtain ⟨draft, hstored, hdraft⟩ := h.stored (d := d)
  refine ⟨by omega, ⟨draft, hstored, fun h0 => ?_⟩, by omega, fun hne => ?_⟩
  · refine hdraft (hexecuted (List.ne_nil_of_length_pos ?_))
    omega
  · rcases h.command_loaded (d := d) with ⟨-, hsome⟩ | ⟨j, c, -, -, hcommand⟩
    · exact hsome (hexecuted hne)
    · rw [hcommand]
      exact Option.some_ne_none _

/-- What was typed stays typed. -/
theorem InOrder.loaded_ne_none (h : InOrder t) (hsome : t.terminalCommand ≠ none) :
    (t.loadCommandFromHistory d).terminalCommand ≠ none := by
  rcases h.command_loaded (d := d) with ⟨-, hloaded⟩ | ⟨j, c, -, -, hcommand⟩
  · exact hloaded hsome
  · rw [hcommand]
    exact Option.some_ne_none _

/-! ## One event -/

/-- The history, with one more command. -/
theorem InOrder.handleCommand (h : InOrder t) :
    wp handleCommand (fun _ t' => InOrder t' ∧ t'.terminalCommand ≠ none ∧
        (t'.executed = t.executed ∨ ∃ text, t'.executed = ⟨text, none⟩ :: t.executed))
      (fun _ t' => t' = t ∧ t.terminalCommand = none) t := by
  obtain ⟨draft, hhistory, -⟩ := h.history
  simp only [Terminal.handleCommand, wp_bind, wp_get]
  cases hcommand : t.terminalCommand with
  | none => exact ⟨rfl, rfl⟩
  | some text =>
    have hsome : t.terminalCommand ≠ none := hcommand ▸ Option.some_ne_none _
    dsimp only
    rw [wp_ite]
    refine ⟨fun _ => ⟨h, hsome, .inl rfl⟩, fun _ => ?_⟩
    simp only [wp_bind, wp_modify, wp_ite]
    have hexecuted : ∀ logs calls, InOrder ⟨some "", t.commandHistory.take 1 ++
        some text :: t.commandHistory.drop 1, 0, logs, calls, ⟨text, none⟩ :: t.executed⟩ :=
      fun _ _ => ⟨Int.le_refl 0, ⟨draft, by simp [hhistory, Executed.shown],
        fun h0 => absurd rfl h0⟩, Int.natCast_nonneg _, fun _ => Option.some_ne_none _⟩
    exact ⟨fun _ => ⟨hexecuted _ _, Option.some_ne_none _, .inr ⟨text, rfl⟩⟩,
      fun _ => ⟨hexecuted _ _, Option.some_ne_none _, .inr ⟨text, rfl⟩⟩⟩

variable {e : TerminalEvent}

theorem InOrder.exec (h : InOrder t) : wp e.exec
    (fun _ t' => InOrder t' ∧ (t.terminalCommand ≠ none → t'.terminalCommand ≠ none) ∧
      ((∃ text, e = .type text) → t'.terminalCommand ≠ none))
    (fun _ t' => t' = t ∧ e = .enter ∧ t.terminalCommand = none) t := by
  cases e with
  | type text =>
    exact ⟨⟨h.nonneg, h.history, h.inRange, fun _ => Option.some_ne_none _⟩,
      fun _ => Option.some_ne_none _, fun _ => Option.some_ne_none _⟩
  | arrowUp => exact ⟨h.load, h.loaded_ne_none, fun ⟨_, he⟩ => by cases he⟩
  | arrowDown => exact ⟨h.load, h.loaded_ne_none, fun ⟨_, he⟩ => by cases he⟩
  | enter =>
    exact h.handleCommand.mono (fun _ _ h' => ⟨h'.1, fun _ => h'.2.1, fun _ => h'.2.1⟩)
      fun _ _ h' => ⟨h'.1, rfl, h'.2⟩
  | log status =>
    exact ⟨⟨h.nonneg, h.history, h.inRange, h.typed⟩, id, fun ⟨_, he⟩ => by cases he⟩

/-- **Every event keeps the history in order**, and what was typed typed. -/
theorem InOrder.step (h : InOrder t) : InOrder (terminalDesk.step t e) ∧
    (t.terminalCommand ≠ none ∨ (∃ text, e = .type text) →
      (terminalDesk.step t e).terminalCommand ≠ none) := by
  refine h.exec.after (I := fun t' => InOrder t' ∧ (t.terminalCommand ≠ none ∨
    (∃ text, e = .type text) → t'.terminalCommand ≠ none)) (fun _ t' h' => ?_) fun _ t' h' => ?_
  · exact ⟨h'.1, fun htyped => htyped.elim h'.2.1 h'.2.2⟩
  · obtain ⟨rfl, rfl, hnone⟩ := h'
    exact ⟨h, fun htyped => htyped.elim id fun ⟨_, he⟩ => by cases he⟩

/-- **And every run.** -/
theorem InOrder.run (h : InOrder t) (es : List TerminalEvent) : InOrder (terminalDesk.run t es) ∧
    (t.terminalCommand ≠ none ∨ (∃ text, .type text ∈ es) →
      (terminalDesk.run t es).terminalCommand ≠ none) := by
  induction es generalizing t with
  | nil => exact ⟨h, fun htyped => htyped.elim id fun ⟨_, hmem⟩ => absurd hmem List.not_mem_nil⟩
  | cons e es ih =>
    obtain ⟨hstep, hsome⟩ := h.step (e := e)
    obtain ⟨hrun, hrest⟩ := ih hstep
    refine ⟨hrun, fun htyped => hrest ?_⟩
    rcases htyped with hnow | ⟨text, hmem⟩
    · exact .inl (hsome (.inl hnow))
    · rcases List.mem_cons.1 hmem with he | hmem
      · exact .inl (hsome (.inr ⟨text, he.symm⟩))
      · exact .inr ⟨text, hmem⟩

/-! ## What is recalled -/

/-- The event leaves no recalled entry with other input than it has. -/
def Unedited (t : Terminal) (e : TerminalEvent) : Prop :=
  e = .arrowUp ∨ e = .arrowDown → t.historyIndex ≠ 0 →
    t.commandHistory[t.historyIndex.toNat]? = some t.terminalCommand

/-- The `j`-th newest command is recalled, and not edited. -/
def Recalls (t : Terminal) (j : ℕ) : Prop :=
  t.historyIndex = (j + 1 : ℕ) ∧ ∃ c, t.executed[j]? = some c ∧ t.terminalCommand = some c.shown

/-- An entry that is left as it is shown is not changed. -/
theorem Recalls.executed_loaded {j : ℕ} (h : Recalls t j) :
    (t.loadCommandFromHistory d).executed = t.executed := by
  obtain ⟨hindex, c, hget, hcommand⟩ := h
  have h0 : t.historyIndex ≠ 0 := by omega
  have hj : t.historyIndex.toNat - 1 = j := by omega
  simp only [loadCommandFromHistory, if_neg h0, hj]
  refine List.ext_getElem? fun i => ?_
  rw [List.getElem?_modify]
  split_ifs with hi
  · subst hi
    simp [hget, Executed.leave, hcommand]
  · simp

theorem InOrder.recalls_of_unedited (h : InOrder t) (h0 : t.historyIndex ≠ 0)
    (hunedited : t.commandHistory[t.historyIndex.toNat]? = some t.terminalCommand) :
    ∃ j, Recalls t j := by
  obtain ⟨j, hj, hlt⟩ := h.recalled h0
  obtain ⟨draft, hhistory, -⟩ := h.history
  have hget := List.getElem?_eq_getElem hlt
  refine ⟨j, hj, _, hget, ?_⟩
  have hj' : t.historyIndex.toNat = j + 1 := by omega
  rw [hhistory, hj'] at hunedited
  simpa [hget] using hunedited.symm

/-- **One arrow up**: from the draft to the newest command, and from a command
to the one before it, if there is one. -/
theorem InOrder.up (h : InOrder t) (hne : t.executed ≠ []) :
    (t.historyIndex = 0 → Recalls (t.loadCommandFromHistory 1) 0) ∧
      ∀ j, Recalls t j →
        Recalls (t.loadCommandFromHistory 1) (min (j + 1) (t.executed.length - 1)) := by
  have hindex := h.index_loaded (d := 1)
  have hpos := List.length_pos_of_ne_nil hne
  have hloaded : ∀ i, (t.loadCommandFromHistory 1).historyIndex = (i + 1 : ℕ) →
      Recalls (t.loadCommandFromHistory 1) i := by
    intro i hi
    rcases h.command_loaded (d := 1) with ⟨h0, -⟩ | ⟨j, c, hj, hget, hcommand⟩
    · omega
    · obtain rfl : i = j := by omega
      exact ⟨hi, c, hget, hcommand⟩
  refine ⟨fun h0 => hloaded 0 (by omega), fun j hj => hloaded _ ?_⟩
  have := hj.1
  omega

/-- Further arrows up. -/
theorem InOrder.ups (h : InOrder t) (hne : t.executed ≠ []) {j : ℕ} (hj : Recalls t j)
    (hlt : j < t.executed.length) (k : ℕ) :
    (terminalDesk.run t (List.replicate k .arrowUp)).executed = t.executed ∧
      Recalls (terminalDesk.run t (List.replicate k .arrowUp))
        (min (j + k) (t.executed.length - 1)) := by
  induction k generalizing t j with
  | zero =>
    refine ⟨rfl, ?_⟩
    rwa [Nat.add_zero, Nat.min_eq_left (by omega)]
  | succ k ih =>
    have hexecuted := hj.executed_loaded (d := 1)
    have hrecalls := (h.up hne).2 j hj
    obtain ⟨hsame, hrun⟩ := ih h.load (hexecuted ▸ hne) hrecalls (by rw [hexecuted]; omega)
    refine ⟨hsame.trans hexecuted, ?_⟩
    rw [hexecuted] at hrun
    have hmin : min (min (j + 1) (t.executed.length - 1) + k) (t.executed.length - 1) =
        min (j + (k + 1)) (t.executed.length - 1) := by omega
    exact hmin ▸ hrun

/-- **Arrows up from the draft** show the newest command, the one before it, and
so on to the oldest. -/
theorem InOrder.ups_from_draft (h : InOrder t) (h0 : t.historyIndex = 0) (k : ℕ) {c : Executed}
    (hc : t.executed[min k (t.executed.length - 1)]? = some c) :
    (terminalDesk.run t (List.replicate (k + 1) .arrowUp)).terminalCommand = some c.shown := by
  have hne : t.executed ≠ [] := fun hnil => by simp [hnil] at hc
  have hexecuted : (t.loadCommandFromHistory 1).executed = t.executed := by
    simp only [loadCommandFromHistory, if_pos h0]
  have hpos := List.length_pos_of_ne_nil hne
  obtain ⟨hsame, -, c', hget, hcommand⟩ := h.load.ups (hexecuted ▸ hne) ((h.up hne).1 h0)
    (by rw [hexecuted]; exact hpos) k
  rw [hsame, hexecuted, Nat.zero_add, hc] at hget
  obtain rfl : c = c' := Option.some.inj hget
  exact hcommand

/-- Where no recalled entry is left edited, each is as it was executed. -/
theorem InOrder.step_unedited (h : InOrder t) (he : Unedited t e)
    (hkept : ∀ c ∈ t.executed, c.kept = none) :
    ∀ c ∈ (terminalDesk.step t e).executed, c.kept = none := by
  have hload : ∀ d, (e = .arrowUp ∨ e = .arrowDown) →
      (t.loadCommandFromHistory d).executed = t.executed := by
    intro d harrow
    by_cases h0 : t.historyIndex = 0
    · simp only [loadCommandFromHistory, if_pos h0]
    · obtain ⟨j, hj⟩ := h.recalls_of_unedited h0 (he harrow h0)
      exact hj.executed_loaded
  cases e with
  | type text => exact hkept
  | arrowUp =>
    change ∀ c ∈ (t.loadCommandFromHistory 1).executed, c.kept = none
    rwa [hload 1 (.inl rfl)]
  | arrowDown =>
    change ∀ c ∈ (t.loadCommandFromHistory (-1)).executed, c.kept = none
    rwa [hload (-1) (.inr rfl)]
  | enter =>
    refine h.handleCommand.after (I := fun t' => ∀ c ∈ t'.executed, c.kept = none)
      (fun _ t' h' => ?_) fun _ t' h' => h'.1 ▸ hkept
    rcases h'.2.2 with hsame | ⟨text, hnew⟩
    · exact hsame ▸ hkept
    · rw [hnew]
      exact List.forall_mem_cons.2 ⟨rfl, hkept⟩
  | log status => exact hkept

theorem InOrder.run_unedited {es : List TerminalEvent} (h : InOrder t)
    (hes : terminalDesk.Each Unedited t es) (hkept : ∀ c ∈ t.executed, c.kept = none) :
    ∀ c ∈ (terminalDesk.run t es).executed, c.kept = none :=
  (hes.invariant (I := fun t => InOrder t ∧ ∀ c ∈ t.executed, c.kept = none) ⟨h, hkept⟩
    fun _ _ h' he => ⟨h'.1.step.1, h'.1.step_unedited he h'.2⟩).2

/-! ## Every run -/

/-- **What the terminal's history keeps.** In every run no event throws, but for
Enter where nothing was typed yet; the index is one of the history; its entries
below the draft are the executed commands, each as it was executed or as an
arrow key left it, and as it was executed if none was left edited; and `k + 1`
arrows up from the draft show the entry of the `k`-th newest command. -/
theorem history_keeps_commands (es : List TerminalEvent) :
    let t := terminalDesk.run new es
    (∀ e : TerminalEvent, (e = .enter → ∃ text, .type text ∈ es) → Returns e.exec t) ∧
    (0 ≤ t.historyIndex ∧ t.historyIndex < t.commandHistory.length) ∧
    t.commandHistory.tail = t.executed.map (fun c => some c.shown) ∧
    (terminalDesk.Each Unedited new es → ∀ c ∈ t.executed, c.shown = c.command) ∧
    (t.historyIndex = 0 → ∀ k, ∀ c ∈ t.executed[min k (t.executed.length - 1)]?,
      (terminalDesk.run t (List.replicate (k + 1) .arrowUp)).terminalCommand = some c.shown) := by
  intro t
  obtain ⟨h, htyped⟩ := inOrder_new.run es
  obtain ⟨draft, hhistory, -⟩ := h.history
  refine ⟨fun e he => ?_, ⟨h.nonneg, ?_⟩, ?_, fun hes c hc => ?_, fun h0 k c hc =>
    h.ups_from_draft h0 k hc⟩
  · refine h.exec.mono (fun _ _ _ => trivial) fun _ _ h' => ?_
    exact htyped (.inr (he h'.2.1)) h'.2.2
  · have hrange : t.historyIndex ≤ (terminalDesk.run new es).executed.length := h.inRange
    rw [hhistory, List.length_cons, List.length_map]
    omega
  · rw [hhistory]
    rfl
  · have hnone := inOrder_new.run_unedited hes (fun c hc => absurd hc List.not_mem_nil) c hc
    rw [Executed.shown, hnone]
    rfl

/-- Two commands are executed. -/
def executeTwo : List TerminalEvent :=
  [.type "a", .enter, .type "b", .enter]

/-- Two arrows up show the first of them. -/
theorem history_executeTwo : (terminalDesk.run (terminalDesk.run new executeTwo)
    (List.replicate 2 .arrowUp)).terminalCommand = some "a" :=
  (history_keeps_commands executeTwo).2.2.2.2 rfl 1 ⟨"a", none⟩ (by decide)

/-- A command is executed, recalled and edited, and left by another arrow. -/
def editRecalled : List TerminalEvent :=
  [.type "a", .enter, .arrowUp, .type "b", .arrowUp]

/-- **An arrow key changes the entry of an executed command.** -/
theorem recalled_command_is_changed : ¬ ∀ es, let t := terminalDesk.run new es
    t.commandHistory.tail = t.executed.map fun c => some c.command := by
  intro h
  exact absurd (h editRecalled) (by decide)

end Terminal

end Hmix
